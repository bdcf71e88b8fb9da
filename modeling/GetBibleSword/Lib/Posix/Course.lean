import GetBibleSword.Lib.Posix.Walk
import Mathlib.Logic.Relation

/-!
# The places on the way of a path

* `Resolves` : one name of a path, every link followed, however many there are; `ComesBy` : the places it comes by;
* `enter_reached_cases`, `enter_link_cases` : where one name leads;
* `comesBy_of_walk` : where a walk ends it has been.
-/

namespace GetBibleSword.Lib.Posix
open Relation

section Courses
variable (p : Process) (fs : FileSystem)

/-- A place and the names that are left of the path. -/
abbrev Course := Loc × List Name

inductive Resolves : Course → Course → Prop
  | name {loc l : Loc} {name : Name} {rest : List Name} : enter p fs false loc name = .reached l →
      Resolves (loc, name :: rest) (l, rest)
  | link {loc l : Loc} {name : Name} {rest : List Name} {target : Bytes} :
      enter p fs false loc name = .link l target → target ≠ [] →
      Resolves (loc, name :: rest) (linkStart l target, components target ++ rest)

/-- The resolution of the names from `loc` comes by `place`; it may end there, fail there or go on for ever. -/
def ComesBy (loc : Loc) (names : List Name) (place : Loc) : Prop :=
  ∃ rest, ReflTransGen (Resolves p fs) (loc, names) (place, rest)

variable {p fs} {loc l : Loc} {name : Name} {names : List Name} {target : Bytes}

theorem enter_reached_cases {stay : Bool} (h : enter p fs stay loc name = .reached l) :
    (name = [] ∨ name = dot) ∧ l = loc ∨ name = dotdot ∧ l = loc.dropLast ∨
      name ≠ [] ∧ name ≠ dot ∧ name ≠ dotdot ∧ l = loc ++ [name] := by
  unfold enter at h
  by_cases hnil : name = []
  · rw [if_pos hnil] at h
    split_ifs at h
    exact .inl ⟨.inl hnil, (Move.reached.inj h).symm⟩
  rw [if_neg hnil] at h
  cases hs : searched p fs loc with
  | some error =>
    rw [hs] at h
    cases h
  | none =>
    rw [hs] at h
    dsimp only at h
    split_ifs at h with hdot hdotdot
    · exact .inl ⟨.inr hdot, (Move.reached.inj h).symm⟩
    · exact .inr (.inl ⟨hdotdot, (Move.reached.inj h).symm⟩)
    · exact .inr (.inr ⟨hnil, hdot, hdotdot, (look_reached h).1⟩)

theorem enter_link_cases {stay : Bool} (h : enter p fs stay loc name = .link l target) :
    name ≠ [] ∧ name ≠ dot ∧ name ≠ dotdot ∧ l = loc ++ [name] ∧ fs.node l = some (.link target) := by
  have hnode := enter_link h
  unfold enter at h
  by_cases hnil : name = []
  · rw [if_pos hnil] at h
    split_ifs at h
  rw [if_neg hnil] at h
  cases hs : searched p fs loc with
  | some error =>
    rw [hs] at h
    cases h
  | none =>
    rw [hs] at h
    dsimp only at h
    split_ifs at h with hdot hdotdot
    exact ⟨hnil, hdot, hdotdot, (look_link h).1, hnode⟩

/-! ## Walks -/

theorem resolves_advance_found (names : List Name) : ∀ {loc : Loc} {more : List Name},
    advance p fs true loc names = .found l → ReflTransGen (Resolves p fs) (loc, names ++ more) (l, more) := by
  induction names with
  | nil =>
    intro loc more h
    obtain rfl := Stop.found.inj h
    exact .refl
  | cons name rest ih =>
    intro loc more h
    rw [advance, Bool.not_true, Bool.and_false] at h
    cases hmove : enter p fs false loc name with
    | failed error =>
      rw [hmove] at h
      cases h
    | reached l' =>
      rw [hmove] at h
      exact .head (.name hmove) (ih h)
    | link l' target =>
      rw [hmove] at h
      cases h

theorem resolves_advance_link (names : List Name) {rest : List Name} (htarget : target ≠ []) : ∀ {loc : Loc},
    advance p fs true loc names = .link l target rest →
    ReflTransGen (Resolves p fs) (loc, names) (linkStart l target, components target ++ rest) := by
  induction names with
  | nil =>
    intro loc h
    cases h
  | cons name names ih =>
    intro loc h
    rw [advance, Bool.not_true, Bool.and_false] at h
    cases hmove : enter p fs false loc name with
    | failed error =>
      rw [hmove] at h
      cases h
    | reached l' =>
      rw [hmove] at h
      exact .head (.name hmove) (ih h)
    | link l' target' =>
      rw [hmove] at h
      obtain ⟨rfl, rfl, rfl⟩ := Stop.link.inj h
      exact .single (.link hmove htarget)

/-- Where the kernel's walk ends the path has come by. -/
theorem comesBy_of_walk (budget : Nat) : ∀ {loc : Loc} {names : List Name} {found : Found},
    walk p fs true budget loc names = .ok found → ComesBy p fs loc names found.loc := by
  have hfound : ∀ {loc l : Loc} {names : List Name}, advance p fs true loc names = .found l →
      ComesBy p fs loc names l := by
    intro loc l names hstop
    refine ⟨[], ?_⟩
    have hway := @resolves_advance_found p fs l names loc [] hstop
    rwa [List.append_nil] at hway
  induction budget with
  | zero =>
    intro loc names found h
    rw [walk] at h
    cases hstop : advance p fs true loc names with
    | found l =>
      rw [hstop] at h
      obtain rfl := Except.ok.inj h
      exact hfound hstop
    | failed error =>
      rw [hstop] at h
      cases h
    | link l target rest =>
      rw [hstop] at h
      cases h
  | succ budget ih =>
    intro loc names found h
    rw [walk] at h
    cases hstop : advance p fs true loc names with
    | found l =>
      rw [hstop] at h
      obtain rfl := Except.ok.inj h
      exact hfound hstop
    | failed error =>
      rw [hstop] at h
      cases h
    | link l target rest =>
      rw [hstop] at h
      dsimp only at h
      split_ifs at h with htarget
      cases hrest : walk p fs true budget (linkStart l target) (components target ++ rest) with
      | error error =>
        rw [hrest] at h
        cases h
      | ok found' =>
        rw [hrest] at h
        obtain rfl := Except.ok.inj h
        obtain ⟨left, hway⟩ := ih hrest
        exact ⟨left, (resolves_advance_link names htarget hstop).trans hway⟩

end Courses

end GetBibleSword.Lib.Posix
