import Mathlib

/-!
# Ordered maps

A map as the list of its entries in strictly increasing key order, the traversal order of
`std::map`.

* `OrdMap` : the entries with their order as a field;
* `alter k f` : the value at `k` becomes `f` of what was there; `emplace` keeps what is there;
* `find_alter`, `find_emplace` : what is found afterwards; `mem_entries` : entries are what is found;
  `nodup_keys`.
-/

namespace GetBibleSword.Lib

/-! ## Association lists -/

section Lookup
variable {κ α : Type} [BEq κ] [LawfulBEq κ]

theorem lookup_of_mem {l : List (κ × α)} (h : (l.map Prod.fst).Nodup) {k : κ} {a : α}
    (he : (k, a) ∈ l) : l.lookup k = some a := by
  induction l with
  | nil => cases he
  | cons x rest ih =>
    obtain ⟨hnot, hrest⟩ := List.nodup_cons.mp h
    rcases List.mem_cons.mp he with rfl | he
    · rw [List.lookup_cons_self]
    · have hne : k ≠ x.1 := fun hk => hnot (hk ▸ List.mem_map_of_mem he)
      rw [List.lookup_cons, beq_false_of_ne hne]
      exact ih hrest he

theorem mem_of_lookup {l : List (κ × α)} {k : κ} {a : α} (h : l.lookup k = some a) : (k, a) ∈ l := by
  induction l with
  | nil => cases h
  | cons x rest ih =>
    rw [List.lookup_cons] at h
    cases hk : k == x.1 with
    | true =>
      rw [hk] at h
      cases h
      rw [eq_of_beq hk]
      exact List.mem_cons_self
    | false =>
      rw [hk] at h
      exact List.mem_cons_of_mem _ (ih h)

end Lookup

/-! ## The map -/

structure OrdMap (κ α : Type) [LinearOrder κ] where
  entries : List (κ × α)
  sorted : (entries.map Prod.fst).Pairwise (· < ·)

namespace OrdMap

variable {κ α : Type} [LinearOrder κ]

def alterEntries (k : κ) (f : Option α → α) : List (κ × α) → List (κ × α)
  | [] => [(k, f none)]
  | (k', a) :: rest =>
    if k < k' then (k, f none) :: (k', a) :: rest
    else if k = k' then (k', f (some a)) :: rest
    else (k', a) :: alterEntries k f rest

theorem mem_keys_alterEntries {k x : κ} {f : Option α → α} {l : List (κ × α)} :
    x ∈ (alterEntries k f l).map Prod.fst ↔ x = k ∨ x ∈ l.map Prod.fst := by
  induction l with
  | nil => simp [alterEntries]
  | cons e rest ih =>
    obtain ⟨k', a⟩ := e
    rw [alterEntries]
    split_ifs with h1 h2
    · simp
    · subst h2
      simp
    · rw [List.map_cons, List.mem_cons, ih, List.map_cons, List.mem_cons, or_left_comm]

theorem sorted_alterEntries {k : κ} {f : Option α → α} {l : List (κ × α)}
    (h : (l.map Prod.fst).Pairwise (· < ·)) : ((alterEntries k f l).map Prod.fst).Pairwise (· < ·) := by
  induction l with
  | nil => simp [alterEntries]
  | cons e rest ih =>
    obtain ⟨k', a⟩ := e
    obtain ⟨hmin, hrest⟩ := List.pairwise_cons.mp h
    rw [alterEntries]
    split_ifs with h1 h2
    · refine List.pairwise_cons.mpr ⟨fun x hx => ?_, h⟩
      rcases List.mem_cons.mp hx with rfl | hx
      · exact h1
      · exact lt_trans h1 (hmin x hx)
    · exact List.pairwise_cons.mpr ⟨hmin, hrest⟩
    · refine List.pairwise_cons.mpr ⟨fun x hx => ?_, ih hrest⟩
      rcases mem_keys_alterEntries.mp hx with rfl | hx
      · exact lt_of_le_of_ne (not_lt.mp h1) (Ne.symm h2)
      · exact hmin x hx

theorem lookup_cons_if (x k : κ) (a : α) (rest : List (κ × α)) :
    ((k, a) :: rest).lookup x = if x = k then some a else rest.lookup x := by
  rw [List.lookup_cons]
  by_cases h : x = k
  · rw [if_pos h, h, beq_self_eq_true]
  · rw [if_neg h, beq_false_of_ne h]

theorem lookup_eq_none_of_lt {k : κ} {l : List (κ × α)} (h : ∀ x ∈ l.map Prod.fst, k < x) :
    l.lookup k = none := by
  rw [List.lookup_eq_none_iff]
  intro p hp
  simpa using ne_of_lt (h p.1 (List.mem_map_of_mem hp))

theorem lookup_alterEntries {k x : κ} {f : Option α → α} {l : List (κ × α)}
    (h : (l.map Prod.fst).Pairwise (· < ·)) :
    (alterEntries k f l).lookup x = if x = k then some (f (l.lookup k)) else l.lookup x := by
  induction l with
  | nil => rw [alterEntries, lookup_cons_if]; rfl
  | cons e rest ih =>
    obtain ⟨k', a⟩ := e
    obtain ⟨hmin, hrest⟩ := List.pairwise_cons.mp h
    rw [alterEntries]
    by_cases h1 : k < k'
    · -- `k` is below every key, so it was not there
      have hnone : ((k', a) :: rest).lookup k = none := by
        refine lookup_eq_none_of_lt fun y hy => ?_
        rcases List.mem_cons.mp hy with rfl | hy
        · exact h1
        · exact lt_trans h1 (hmin y hy)
      rw [if_pos h1, lookup_cons_if, hnone]
    · rw [if_neg h1]
      by_cases h2 : k = k'
      · rw [if_pos h2, ← h2, lookup_cons_if, lookup_cons_if, lookup_cons_if, if_pos rfl]
        split_ifs <;> rfl
      · rw [if_neg h2, lookup_cons_if, ih hrest, lookup_cons_if, lookup_cons_if, if_neg h2]
        by_cases hx : x = k
        · rw [if_pos hx, if_pos hx, if_neg (hx ▸ h2)]
        · rw [if_neg hx, if_neg hx]

/-! ## The operations -/

def empty : OrdMap κ α := ⟨[], List.Pairwise.nil⟩

def find (m : OrdMap κ α) (k : κ) : Option α := m.entries.lookup k

def contains (m : OrdMap κ α) (k : κ) : Bool := (m.find k).isSome

def alter (m : OrdMap κ α) (k : κ) (f : Option α → α) : OrdMap κ α :=
  ⟨alterEntries k f m.entries, sorted_alterEntries m.sorted⟩

/-- `std::map::emplace`: an entry that is there stays. -/
def emplace (m : OrdMap κ α) (k : κ) (a : α) : OrdMap κ α := m.alter k fun o => o.getD a

@[simp] theorem find_empty (k : κ) : (empty : OrdMap κ α).find k = none := rfl

theorem find_alter (m : OrdMap κ α) (k x : κ) (f : Option α → α) :
    (m.alter k f).find x = if x = k then some (f (m.find k)) else m.find x :=
  lookup_alterEntries m.sorted

theorem find_emplace (m : OrdMap κ α) (k x : κ) (a : α) :
    (m.emplace k a).find x = if x = k then some ((m.find k).getD a) else m.find x :=
  find_alter m k x _

theorem nodup_keys (m : OrdMap κ α) : (m.entries.map Prod.fst).Nodup :=
  m.sorted.imp ne_of_lt

/-- The entries are what is found. -/
theorem mem_entries {m : OrdMap κ α} {k : κ} {a : α} : (k, a) ∈ m.entries ↔ m.find k = some a :=
  ⟨fun h => lookup_of_mem m.nodup_keys h, mem_of_lookup⟩

/-! ## Several new entries -/

/-- `emplace` of each entry of a list, in order. -/
def emplaceAll (m : OrdMap κ α) (extra : List (κ × α)) : OrdMap κ α :=
  extra.foldl (fun m e => m.emplace e.1 e.2) m

/-- New names get their values, and nothing else changes. -/
theorem find_emplaceAll (extra : List (κ × α)) : ∀ {m : OrdMap κ α},
    (extra.map Prod.fst).Nodup → (∀ k ∈ extra.map Prod.fst, m.find k = none) →
    ∀ {k : κ} {a : α}, (m.emplaceAll extra).find k = some a ↔ (k, a) ∈ extra ∨ m.find k = some a := by
  induction extra with
  | nil => intro m _ _ k a; simp [emplaceAll]
  | cons e extra ih =>
    intro m hnodup hfresh k a
    obtain ⟨hnot, hrest⟩ := List.nodup_cons.mp hnodup
    have hnone : m.find e.1 = none := hfresh e.1 (by simp)
    have hstep : ∀ x ∈ extra.map Prod.fst, (m.emplace e.1 e.2).find x = none := by
      intro x hx
      have hne : x ≠ e.1 := fun h => hnot (h ▸ hx)
      rw [find_emplace, if_neg hne]
      exact hfresh x (List.mem_cons_of_mem _ hx)
    have := ih hrest hstep (k := k) (a := a)
    rw [emplaceAll, List.foldl_cons, ← emplaceAll, this, find_emplace, List.mem_cons, hnone]
    by_cases hk : k = e.1
    · subst hk
      have hin : (e.1, a) ∉ extra := fun h => hnot (List.mem_map.mpr ⟨_, h, rfl⟩)
      simp only [if_true, Option.getD_none, Option.some.injEq, hin, false_or, hnone, reduceCtorEq, or_false]
      exact ⟨fun h => h ▸ rfl, fun h => (congrArg Prod.snd h).symm⟩
    · have hne : (k, a) ≠ e := fun h => hk (congrArg Prod.fst h)
      simp only [hk, if_false, hne, false_or]

theorem find_emplaceAll_notMem (extra : List (κ × α)) : ∀ {m : OrdMap κ α} {k : κ},
    k ∉ extra.map Prod.fst → (m.emplaceAll extra).find k = m.find k := by
  induction extra with
  | nil => exact fun _ => rfl
  | cons e extra ih =>
    intro m k h
    rw [List.map_cons, List.mem_cons, not_or] at h
    rw [emplaceAll, List.foldl_cons, ← emplaceAll, ih h.2, find_emplace, if_neg h.1]

/-- A new entry is found unless its name was there. -/
theorem find_emplaceAll_mem (extra : List (κ × α)) : ∀ {m : OrdMap κ α} {k : κ} {a : α},
    (extra.map Prod.fst).Nodup → (k, a) ∈ extra → (m.emplaceAll extra).find k = some ((m.find k).getD a) := by
  induction extra with
  | nil => exact fun _ h => nomatch h
  | cons e extra ih =>
    intro m k a hnodup h
    obtain ⟨hnot, hrest⟩ := List.nodup_cons.mp hnodup
    rw [emplaceAll, List.foldl_cons, ← emplaceAll]
    rcases List.mem_cons.mp h with rfl | h
    · rw [find_emplaceAll_notMem extra hnot, find_emplace, if_pos rfl]
    · have hne : k ≠ e.1 := fun hk => hnot (hk ▸ List.mem_map.mpr ⟨_, h, rfl⟩)
      rw [ih hrest h, find_emplace, if_neg hne]

theorem contains_emplaceAll (extra : List (κ × α)) : ∀ {m : OrdMap κ α} {k : κ},
    (m.emplaceAll extra).contains k = true ↔ k ∈ extra.map Prod.fst ∨ m.contains k = true := by
  induction extra with
  | nil => intro m k; simp [emplaceAll]
  | cons e extra ih =>
    intro m k
    have hstep : (m.emplace e.1 e.2).contains k = true ↔ k = e.1 ∨ m.contains k = true := by
      unfold contains
      rw [find_emplace]
      split_ifs with h <;> simp [h]
    rw [emplaceAll, List.foldl_cons, ← emplaceAll, ih, hstep, List.map_cons, List.mem_cons]
    tauto

/-- What is found afterwards was given or was there. -/
theorem mem_emplaceAll (extra : List (κ × α)) : ∀ {m : OrdMap κ α} {k : κ} {a : α},
    (m.emplaceAll extra).find k = some a → (k, a) ∈ extra ∨ m.find k = some a := by
  induction extra with
  | nil => exact fun h => .inr h
  | cons e extra ih =>
    intro m k a h
    rw [emplaceAll, List.foldl_cons, ← emplaceAll] at h
    rcases ih h with hmem | hfind
    · exact .inl (List.mem_cons_of_mem _ hmem)
    rw [find_emplace] at hfind
    split_ifs at hfind with hk
    · cases hm : m.find e.1 with
      | some b => exact .inr (by rw [hk, hm, ← hfind, hm]; rfl)
      | none =>
        rw [hm, Option.getD_none, Option.some.injEq] at hfind
        exact .inl (by rw [hk, ← hfind]; exact List.mem_cons_self)
    · exact .inr hfind

end OrdMap
end GetBibleSword.Lib
