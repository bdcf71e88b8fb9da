import Mathlib

/-!
# Following a partial function

* `Step next a b` : `next` leads from `a` to `b`;
* `trail next n a` : the first `n` points met from `a` on;
* `Ends next n a` : it stops within `n` points;
* `ends_iff_acyclic` : on a finite type it stops exactly when no cycle is reachable;
  `length_trail_le` : and then every point is met at most once.
-/

namespace GetBibleSword.Lib

variable {α : Type} (next : α → Option α)

def Step (a b : α) : Prop := next a = some b

def trail : Nat → α → List α
  | 0, _ => []
  | n + 1, a =>
    a :: match next a with
      | some b => trail n b
      | none => []

def Ends : Nat → α → Prop
  | 0, _ => False
  | n + 1, a => ∀ b, next a = some b → Ends n b

/-- No cycle is reached from `a`. -/
def Acyclic (a : α) : Prop :=
  ∀ b, Relation.ReflTransGen (Step next) a b → ¬ Relation.TransGen (Step next) b b

variable {next} {a b : α}

theorem Acyclic.step (h : Acyclic next a) (hab : Step next a b) : Acyclic next b :=
  fun c hbc => h c (.head hab hbc)

theorem mem_trail {n : Nat} : ∀ {a : α}, b ∈ trail next n a → Relation.ReflTransGen (Step next) a b := by
  induction n with
  | zero => intro a h; cases h
  | succ n ih =>
    intro a h
    rcases List.mem_cons.mp h with rfl | h
    · exact .refl
    · cases hnext : next a with
      | none =>
        rw [hnext] at h
        cases h
      | some c =>
        rw [hnext] at h
        exact .head hnext (ih h)

/-- Without a cycle no point is met twice. -/
theorem Acyclic.nodup_trail (n : Nat) : ∀ {a : α}, Acyclic next a → (trail next n a).Nodup := by
  induction n with
  | zero => intro a _; exact List.nodup_nil
  | succ n ih =>
    intro a h
    rw [trail]
    cases hnext : next a with
    | none => exact List.nodup_singleton a
    | some b =>
      refine List.nodup_cons.mpr ⟨fun hmem => ?_, ih (h.step hnext)⟩
      exact h a .refl (.head' hnext (mem_trail hmem))

theorem length_trail_le [Fintype α] (h : Acyclic next a) (n : Nat) :
    (trail next n a).length ≤ Fintype.card α :=
  (h.nodup_trail n).length_le_card

/-- A walk that has not stopped has met as many points as it was long. -/
theorem length_trail_of_not_ends {n : Nat} : ∀ {a : α}, ¬ Ends next n a → (trail next n a).length = n := by
  induction n with
  | zero => intro a _; rfl
  | succ n ih =>
    intro a h
    rw [Ends] at h
    push Not at h
    obtain ⟨b, hnext, hb⟩ := h
    rw [trail, hnext, List.length_cons, ih hb]

theorem Ends.of_trans {n : Nat} (hab : Relation.TransGen (Step next) a b) (h : Ends next n a) :
    ∃ m < n, Ends next m b := by
  induction hab with
  | single hstep =>
    cases n with
    | zero => exact h.elim
    | succ n => exact ⟨n, Nat.lt_succ_self n, h _ hstep⟩
  | tail _ hstep ih =>
    obtain ⟨m, hm, hends⟩ := ih
    cases m with
    | zero => exact hends.elim
    | succ m => exact ⟨m, by omega, hends _ hstep⟩

/-- A point on a cycle is never left. -/
theorem not_ends_of_cycle (h : Relation.TransGen (Step next) a a) (n : Nat) : ¬ Ends next n a := by
  induction n using Nat.strong_induction_on with
  | _ n ih =>
    intro hends
    obtain ⟨m, hm, hm'⟩ := hends.of_trans h
    exact ih m hm hm'

theorem Ends.acyclic {n : Nat} (h : Ends next n a) : Acyclic next a := by
  intro b hab hcycle
  rcases Relation.reflTransGen_iff_eq_or_transGen.mp hab with rfl | hab
  · exact not_ends_of_cycle hcycle n h
  · obtain ⟨m, -, hm⟩ := h.of_trans hab
    exact not_ends_of_cycle hcycle m hm

/-- On a finite type following `next` stops exactly when no cycle is reachable. -/
theorem ends_iff_acyclic [Fintype α] : (∃ n, Ends next n a) ↔ Acyclic next a := by
  constructor
  · rintro ⟨n, h⟩
    exact h.acyclic
  · intro h
    refine ⟨Fintype.card α + 1, ?_⟩
    by_contra hends
    have hlength := length_trail_of_not_ends hends
    have hle := length_trail_le h (Fintype.card α + 1)
    omega

end GetBibleSword.Lib
