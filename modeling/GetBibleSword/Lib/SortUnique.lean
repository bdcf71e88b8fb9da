import Mathlib

/-!
# Sorting, and then dropping repetitions

A list is sorted by a key, in any way, and then of consecutive elements that are the same all but the
first are dropped.

* `Sorting key before after` : a possible result of an unstable sort;
* `Sorting.eq_of_consistent` : where elements with equal keys are equal there is one;
* `exists_sorting_first` : a sort may put any element before all others with its key;
* `unique f` : what is left where elements with the same value of `f` follow each other, `List.destutter`;
  `pairwise_unique`, `exists_mem_unique` : its keys increase, and every element is represented.
-/

namespace GetBibleSword.Lib

variable {α κ : Type} [LinearOrder κ] {key : α → κ} {l l' m m' : List α} {a b : α}

/-- `after` is `before` in increasing order of the keys. -/
structure Sorting (key : α → κ) (before after : List α) : Prop where
  perm : after.Perm before
  sorted : after.Pairwise fun a b => key a ≤ key b

/-- Elements with the same key are one. -/
def Consistent (key : α → κ) (l : List α) : Prop := ∀ a ∈ l, ∀ b ∈ l, key a = key b → a = b

/-- Where that is so there is one result. -/
theorem Sorting.eq_of_consistent (h : Sorting key l m) (h' : Sorting key l' m') (hperm : l.Perm l')
    (hl : Consistent key l) : m = m' := by
  have hm : m.Perm m' := h.perm.trans (hperm.trans h'.perm.symm)
  apply List.Perm.eq_of_pairwise _ h.sorted h'.sorted hm
  intro a b ha hb hab hba
  exact hl a (h.perm.mem_iff.mp ha) b (hperm.mem_iff.mpr (h'.perm.mem_iff.mp hb)) (le_antisymm hab hba)

theorem sorting_mergeSort (key : α → κ) (l : List α) :
    Sorting key l (l.mergeSort fun a b => decide (key a ≤ key b)) := by
  refine ⟨List.mergeSort_perm _ _, ?_⟩
  have hsorted := @List.pairwise_mergeSort α (fun a b => decide (key a ≤ key b))
    (fun a b c hab hbc => decide_eq_true (le_trans (of_decide_eq_true hab) (of_decide_eq_true hbc)))
    (fun a b => by simpa using le_total (key a) (key b)) l
  exact hsorted.imp of_decide_eq_true

/-- A sort may put any element first among those with its key. -/
theorem exists_sorting_first [DecidableEq α] (ha : a ∈ l) :
    ∃ before after, Sorting key l (before ++ a :: after) ∧ ∀ b ∈ before, key b < key a := by
  let smaller := (l.erase a).filter fun b => key b < key a
  let rest := (l.erase a).filter fun b => !decide (key b < key a)
  have hsort : ∀ xs : List α, Sorting key xs (xs.mergeSort fun x y => decide (key x ≤ key y)) :=
    sorting_mergeSort key
  have hsmaller : ∀ b ∈ smaller.mergeSort (fun x y => decide (key x ≤ key y)), key b < key a := by
    intro b hb
    have hmem := (List.mem_filter.mp ((hsort smaller).perm.mem_iff.mp hb)).2
    exact of_decide_eq_true hmem
  have hrest : ∀ b ∈ rest.mergeSort (fun x y => decide (key x ≤ key y)), key a ≤ key b := by
    intro b hb
    have hmem := (List.mem_filter.mp ((hsort rest).perm.mem_iff.mp hb)).2
    rw [Bool.not_eq_true', decide_eq_false_iff_not] at hmem
    exact not_lt.mp hmem
  have hperm : (smaller.mergeSort (fun x y => decide (key x ≤ key y)) ++
      a :: rest.mergeSort (fun x y => decide (key x ≤ key y))).Perm l := by
    apply ((hsort smaller).perm.append ((hsort rest).perm.cons a)).trans
    apply List.perm_middle.trans
    apply ((List.filter_append_perm _ _).cons a).trans
    exact (List.perm_cons_erase ha).symm
  refine ⟨_, _, ⟨hperm, ?_⟩, hsmaller⟩
  apply List.pairwise_append.mpr
  refine ⟨(hsort smaller).sorted, List.pairwise_cons.mpr ⟨hrest, (hsort rest).sorted⟩, ?_⟩
  intro x hx y hy
  have hxa := hsmaller x hx
  rcases List.mem_cons.mp hy with rfl | hy
  · exact le_of_lt hxa
  · exact le_trans (le_of_lt hxa) (hrest y hy)

/-! ## Dropping repetitions -/

section Unique
variable {β : Type} [DecidableEq β] {f : α → β}

variable (f) in
/-- Of consecutive elements with the same value the first. -/
def unique (l : List α) : List α := l.destutter fun a b => f a ≠ f b

theorem mem_of_mem_unique (h : a ∈ unique f l) : a ∈ l :=
  (List.destutter_sublist _ l).subset h

/-- What has its value from nothing before it is kept. -/
theorem mem_unique_of_first {before after : List α} (h : ∀ b ∈ before, f b ≠ f a) :
    a ∈ unique f (before ++ a :: after) := by
  have hkept : ∀ (before : List α) (c : α), f c ≠ f a → (∀ b ∈ before, f b ≠ f a) →
      a ∈ (before ++ a :: after).destutter' (fun a b => f a ≠ f b) c := by
    intro before
    induction before with
    | nil =>
      intro c hc _
      rw [List.nil_append, List.destutter'_cons, if_pos hc]
      exact List.mem_cons_of_mem _ (List.mem_destutter' _ _ _)
    | cons b before ih =>
      intro c hc hbefore
      rw [List.cons_append]
      have hrest := fun x hx => hbefore x (List.mem_cons_of_mem _ hx)
      by_cases hcb : f c ≠ f b
      · rw [List.destutter'_cons, if_pos hcb]
        exact List.mem_cons_of_mem _ (ih b (hbefore b List.mem_cons_self) hrest)
      · rw [List.destutter'_cons, if_neg hcb]
        exact ih c hc hrest
  unfold unique
  cases before with
  | nil =>
    rw [List.nil_append, List.destutter_cons']
    exact List.mem_destutter' _ _ _
  | cons b before =>
    rw [List.cons_append, List.destutter_cons']
    exact hkept before b (h b List.mem_cons_self) fun x hx => h x (List.mem_cons_of_mem _ hx)

/-- Every element is represented. -/
theorem exists_mem_unique (h : a ∈ l) : ∃ b ∈ unique f l, f b = f a := by
  have hsplit := List.takeWhile_append_dropWhile (p := fun b => decide (f b ≠ f a)) (l := l)
  cases hrest : l.dropWhile fun b => decide (f b ≠ f a) with
  | nil =>
    rw [hrest, List.append_nil] at hsplit
    rw [← hsplit] at h
    have hne := List.mem_takeWhile_imp h
    exact absurd rfl (of_decide_eq_true hne)
  | cons b rest =>
    have hb : f b = f a := by
      have hhead := List.head_dropWhile_not (fun b => decide (f b ≠ f a)) (w := by rw [hrest]; simp)
      simp only [hrest, List.head_cons] at hhead
      simpa using hhead
    refine ⟨b, ?_, hb⟩
    rw [← hsplit, hrest]
    apply mem_unique_of_first
    intro x hx
    have hne := List.mem_takeWhile_imp hx
    rw [hb]
    exact of_decide_eq_true hne

/-- Where an element has the value of every other of its key, what is left behind it has a larger key. -/
theorem pairwise_unique_of {P : α → Prop} (hsorted : l.Pairwise fun a b => key a ≤ key b)
    (hsame : ∀ a ∈ l, P a → ∀ b ∈ l, key a = key b → f a = f b) :
    (unique f l).Pairwise fun a b => P a → key a < key b := by
  have hchain : (unique f l).IsChain fun a b => f a ≠ f b := List.isChain_destutter _ _
  have hpair : (unique f l).Pairwise fun a b => key a ≤ key b :=
    hsorted.sublist (List.destutter_sublist (fun a b => f a ≠ f b) l)
  have hmem : ∀ a ∈ unique f l, a ∈ l := fun a ha => mem_of_mem_unique ha
  generalize unique f l = m at hchain hpair hmem
  induction m with
  | nil => exact List.Pairwise.nil
  | cons a m ih =>
    obtain ⟨hle, hpair⟩ := List.pairwise_cons.mp hpair
    refine List.pairwise_cons.mpr ⟨?_, ih hchain.tail hpair fun b hb => hmem b (List.mem_cons_of_mem _ hb)⟩
    intro b hb ha
    cases m with
    | nil => exact absurd hb List.not_mem_nil
    | cons next m =>
      have hnext := hle next List.mem_cons_self
      have hlt : key a < key next := by
        refine lt_of_le_of_ne hnext fun heq => (List.isChain_cons_cons.mp hchain).1 ?_
        exact hsame a (hmem a List.mem_cons_self) ha next (hmem next (by simp)) heq
      rcases List.mem_cons.mp hb with rfl | hb
      · exact hlt
      · exact lt_of_lt_of_le hlt ((List.pairwise_cons.mp hpair).1 b hb)

/-- Where equal keys have the same value, the keys of what is left increase. -/
theorem pairwise_unique (hsorted : l.Pairwise fun a b => key a ≤ key b)
    (hsame : ∀ a ∈ l, ∀ b ∈ l, key a = key b → f a = f b) :
    (unique f l).Pairwise fun a b => key a < key b := by
  have hpair := pairwise_unique_of (P := fun _ => True) hsorted fun a ha _ => hsame a ha
  exact hpair.imp fun h => h trivial

omit [LinearOrder κ] in
/-- Where keys, values and elements go together, nothing gets lost. -/
theorem mem_unique_iff (hkey : ∀ a ∈ l, ∀ b ∈ l, f a = f b → key a = key b) (hl : Consistent key l) :
    a ∈ unique f l ↔ a ∈ l := by
  refine ⟨mem_of_mem_unique, fun h => ?_⟩
  obtain ⟨b, hb, heq⟩ := exists_mem_unique (f := f) h
  have hmem := mem_of_mem_unique hb
  obtain rfl := hl b hmem a h (hkey b hmem a h heq)
  exact hb

end Unique

/-- A list in increasing order is given by its elements. -/
theorem eq_of_mem_iff (hl : l.Pairwise fun a b => key a < key b) (hm : m.Pairwise fun a b => key a < key b)
    (h : ∀ a, a ∈ l ↔ a ∈ m) : l = m := by
  have hnodup : ∀ {l : List α}, (l.Pairwise fun a b => key a < key b) → l.Nodup :=
    fun hl => hl.imp fun hlt heq => absurd (congrArg key heq) (ne_of_lt hlt)
  have hperm := (List.perm_ext_iff_of_nodup (hnodup hl) (hnodup hm)).mpr h
  apply List.Perm.eq_of_pairwise _ hl hm hperm
  intro a b _ _ hab hba
  exact absurd (lt_trans hab hba) (lt_irrefl _)

/-- Of an increasing list an element is given by its key. -/
theorem eq_of_key_eq (hl : l.Pairwise fun a b => key a < key b) (ha : a ∈ l) (hb : b ∈ l)
    (h : key a = key b) : a = b := by
  have hne : l.Pairwise fun a b => key a ≠ key b := hl.imp fun hlt => ne_of_lt hlt
  have hsymm : Std.Symm fun a b : α => key a ≠ key b := ⟨fun _ _ h => h.symm⟩
  by_contra hab
  exact hne.forall ha hb hab h

end GetBibleSword.Lib
