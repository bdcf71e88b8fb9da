import GetBibleSword.Lib.Json.Scan
import GetBibleSword.Lib.Outcome

/-!
# The JSON scanner reads no further than its value

* `Stops u` : `u` does not start with a character that could prolong a number;
* `scanOnce_append` : a scan that succeeds on `s` finds the same value in `s ++ u`, with any fuel at
  least as large, and leaves `u` behind what it left before.
-/

namespace GetBibleSword.Lib.Json

def numberChar (c : Nat) : Bool :=
  isDigit c || c == 0x2e || c == 0x65 || c == 0x45 || c == 0x2b || c == 0x2d

/-- Nothing at the head of `u` prolongs a number. -/
def Stops (u : Text) : Prop := ∀ c ∈ u.head?, numberChar c = false

theorem Stops.nil : Stops [] := by simp [Stops]

theorem Stops.cons {c : Nat} (h : numberChar c = false) (s : Text) : Stops (c :: s) := by
  intro d hd
  rw [List.head?_cons, Option.mem_some_iff] at hd
  exact hd ▸ h

/-! ## Strings -/

@[simp] theorem scanUnits_quote (s : Text) : scanUnits (0x22 :: s) = .ok ([], s) := by
  conv_lhs => unfold scanUnits
  rw [if_pos rfl]

theorem scanUnits_unicode {h1 h2 h3 h4 x : Nat} (hx : hex4 h1 h2 h3 h4 = some x) (s : Text) :
    scanUnits (0x5c :: 0x75 :: h1 :: h2 :: h3 :: h4 :: s) =
      (scanUnits s).map fun p => (x :: p.1, p.2) := by
  conv_lhs => unfold scanUnits
  rw [if_neg (by decide), if_pos rfl]
  dsimp only
  rw [if_pos rfl, hx]

theorem scanUnits_simple {e x : Nat} (he : e ≠ 0x75) (hx : simpleEscape e = some x) (s : Text) :
    scanUnits (0x5c :: e :: s) = (scanUnits s).map fun p => (x :: p.1, p.2) := by
  conv_lhs => unfold scanUnits
  rw [if_neg (by decide), if_pos rfl]
  dsimp only
  rw [if_neg he, hx]

theorem scanUnits_plain {c : Nat} (h1 : c ≠ 0x22) (h2 : c ≠ 0x5c) (h3 : ¬ c < 0x20) (s : Text) :
    scanUnits (c :: s) = (scanUnits s).map fun p => (c :: p.1, p.2) := by
  conv_lhs => unfold scanUnits
  rw [if_neg h1, if_neg h2, if_neg h3]

theorem scanUnits_append {s v r : Text} (h : scanUnits s = .ok (v, r)) (u : Text) :
    scanUnits (s ++ u) = .ok (v, r ++ u) := by
  fun_induction scanUnits s generalizing v r with
  | case2 s =>
    cases h
    exact scanUnits_quote _
  | case4 h1 h2 h3 h4 s x hx _ ih =>
    obtain ⟨p, hp, hv⟩ := map_eq_ok.mp h
    cases hv
    simp only [List.cons_append]
    rw [scanUnits_unicode hx, ih hp]
    rfl
  | case7 e s he x hx _ ih =>
    obtain ⟨p, hp, hv⟩ := map_eq_ok.mp h
    cases hv
    simp only [List.cons_append]
    rw [scanUnits_simple he hx, ih hp]
    rfl
  | case10 c s h1 h2 h3 ih =>
    obtain ⟨p, hp, hv⟩ := map_eq_ok.mp h
    cases hv
    rw [List.cons_append, scanUnits_plain h1 h2 h3, ih hp]
    rfl
  | _ => cases h

theorem scanString_append {s v r : Text} (h : scanString s = .ok (v, r)) (u : Text) :
    scanString (s ++ u) = .ok (v, r ++ u) := by
  obtain ⟨p, hp, hv⟩ := map_eq_ok.mp h
  cases hv
  rw [scanString, scanUnits_append hp u]
  rfl

/-! ## Numbers -/

theorem isDigit_of_numberChar {c : Nat} (h : numberChar c = false) : isDigit c = false := by
  simp only [numberChar, Bool.or_eq_false_iff] at h
  exact h.1.1.1.1.1

theorem takeDigits_append {u : Text} (hu : Stops u) (s : Text) :
    takeDigits (s ++ u) = takeDigits s ∧ dropDigits (s ++ u) = dropDigits s ++ u := by
  unfold takeDigits dropDigits
  induction s with
  | nil =>
    cases u with
    | nil => exact ⟨rfl, rfl⟩
    | cons c u =>
      have hc := isDigit_of_numberChar (hu c (by simp))
      simp [hc]
  | cons c s ih =>
    rw [List.cons_append]
    cases hc : isDigit c with
    | false => simp [hc]
    | true => simp [hc, ih.1, ih.2]

theorem scanInt_append {u : Text} (hu : Stops u) {s v r : Text} (h : scanInt s = some (v, r)) :
    scanInt (s ++ u) = some (v, r ++ u) := by
  cases s with
  | nil => cases h
  | cons c s =>
    rw [scanInt] at h
    rw [List.cons_append, scanInt]
    split_ifs at h ⊢ with h0 h1
    · cases h; rfl
    · cases h
      rw [(takeDigits_append hu s).1, (takeDigits_append hu s).2]

theorem scanFraction_append {u : Text} (hu : Stops u) (s : Text) :
    scanFraction (s ++ u) = ((scanFraction s).1, (scanFraction s).2 ++ u) := by
  cases s with
  | nil =>
    cases u with
    | nil => rfl
    | cons c u =>
      have hc := hu c (by simp)
      have hne : c ≠ 0x2e := by rintro rfl; cases hc
      simp [scanFraction, hne]
  | cons c s =>
    rw [List.cons_append, scanFraction, scanFraction, (takeDigits_append hu s).1,
      (takeDigits_append hu s).2]
    split_ifs <;> rfl

theorem scanSign_append {u : Text} (hu : Stops u) (s : Text) :
    scanSign (s ++ u) = ((scanSign s).1, (scanSign s).2 ++ u) := by
  cases s with
  | nil =>
    cases u with
    | nil => rfl
    | cons c u =>
      have hc := hu c (by simp)
      have h1 : c ≠ 0x2d := by rintro rfl; cases hc
      have h2 : c ≠ 0x2b := by rintro rfl; cases hc
      simp [scanSign, h1, h2]
  | cons c s =>
    rw [List.cons_append, scanSign, scanSign]
    split_ifs <;> rfl

theorem scanExponent_append {u : Text} (hu : Stops u) (s : Text) :
    scanExponent (s ++ u) = ((scanExponent s).1, (scanExponent s).2 ++ u) := by
  cases s with
  | nil =>
    cases u with
    | nil => rfl
    | cons c u =>
      have hc := hu c (by simp)
      have h1 : c ≠ 0x65 := by rintro rfl; cases hc
      have h2 : c ≠ 0x45 := by rintro rfl; cases hc
      simp [scanExponent, h1, h2]
  | cons c s =>
    rw [List.cons_append, scanExponent, scanExponent, scanSign_append hu s,
      (takeDigits_append hu _).1, (takeDigits_append hu _).2]
    split_ifs <;> rfl

theorem scanUnsigned_append {u : Text} (hu : Stops u) {neg : Bool} {s r : Text} {v : Json}
    (h : scanUnsigned neg s = some (v, r)) : scanUnsigned neg (s ++ u) = some (v, r ++ u) := by
  obtain ⟨i, hi, hv⟩ := Option.map_eq_some_iff.mp h
  rw [scanUnsigned, scanInt_append hu hi, Option.map_some]
  dsimp only at hv ⊢
  rw [scanFraction_append hu, scanExponent_append hu]
  dsimp only
  split at hv
  · cases hv
    rfl
  · cases hv
    rfl

/-- A number ends where it ended before `u` was there. -/
theorem scanNumber_append {u : Text} (hu : Stops u) {s r : Text} {v : Json}
    (h : scanNumber s = some (v, r)) : scanNumber (s ++ u) = some (v, r ++ u) := by
  cases s with
  | nil => cases h
  | cons c s =>
    rw [List.cons_append, scanNumber]
    rw [scanNumber] at h
    split_ifs at h ⊢ with hc
    · exact scanUnsigned_append hu h
    · exact scanUnsigned_append hu h

/-! ## Values -/

theorem afterWord_append {w : String} {s r : Text} (h : afterWord w s = some r) (u : Text) :
    afterWord w (s ++ u) = some (r ++ u) := by
  unfold afterWord at h ⊢
  split at h
  · rename_i hp
    cases h
    obtain ⟨t, ht⟩ := List.isPrefixOf_iff_prefix.mp hp
    rw [← ht, List.append_assoc, if_pos (List.isPrefixOf_iff_prefix.mpr ⟨t ++ u, rfl⟩),
      List.drop_left, List.drop_left]
  · cases h

theorem skipSpace_append {s t : Text} {d : Nat} (h : skipSpace s = d :: t) (u : Text) :
    skipSpace (s ++ u) = d :: (t ++ u) := by
  unfold skipSpace at h ⊢
  rw [List.dropWhile_append, h]
  simp

theorem skipSpace_append_of_ne {s : Text} (h : skipSpace s ≠ []) (u : Text) :
    skipSpace (s ++ u) = skipSpace s ++ u := by
  cases hs : skipSpace s with
  | nil => exact absurd hs h
  | cons d t => exact skipSpace_append hs u

section Scan
variable {objectHook : List (Text × Json) → Except HookError Json} {constantHook : String → Except HookError Json}

theorem runHook_append {x : Except HookError Json} {t r : Text} {v : Json}
    (h : runHook x t = .ok (v, r)) (u : Text) : runHook x (t ++ u) = .ok (v, r ++ u) := by
  unfold runHook at h ⊢
  split at h
  · cases h; rfl
  · cases h

theorem scanWord_append {w : String} {x : Json} {s r : Text} {v : Json}
    (h : scanWord w x s = .ok (v, r)) (u : Text) : scanWord w x (s ++ u) = .ok (v, r ++ u) := by
  unfold scanWord at h ⊢
  split at h
  · rename_i ht
    cases h
    rw [afterWord_append ht u]
  · cases h

theorem scanConstant_append {w : String} {s r : Text} {v : Json}
    (h : scanConstant constantHook w s = .ok (v, r)) (u : Text) :
    scanConstant constantHook w (s ++ u) = .ok (v, r ++ u) := by
  unfold scanConstant at h ⊢
  split at h
  · rename_i ht
    rw [afterWord_append ht u]
    exact runHook_append h u
  · cases h

/-- A number whose sign is followed by a digit is not the start of `-Infinity`. -/
theorem afterWord_infinity_of_scanNumber {s r : Text} {v : Json} (h : scanNumber s = some (v, r)) :
    afterWord "-Infinity" s = none := by
  unfold afterWord
  rw [if_neg]
  intro hp
  obtain ⟨t, rfl⟩ := List.isPrefixOf_iff_prefix.mp hp
  have hi : scanInt (text "Infinity" ++ t) = none := rfl
  have hs : scanUnsigned true (text "Infinity" ++ t) = some (v, r) := h
  rw [scanUnsigned, hi] at hs
  cases hs

theorem scanAtom_append {u : Text} (hu : Stops u) {c : Nat} {s r : Text} {v : Json}
    (h : scanAtom constantHook c s = .ok (v, r)) :
    scanAtom constantHook c (s ++ u) = .ok (v, r ++ u) := by
  unfold scanAtom at h ⊢
  split_ifs at h with h1 h2 h3 h4 h5 h6
  · rw [if_pos h1]; exact scanWord_append h u
  · rw [if_neg h1, if_pos h2]; exact scanWord_append h u
  · rw [if_neg h1, if_neg h2, if_pos h3]; exact scanWord_append h u
  · rw [if_neg h1, if_neg h2, if_neg h3, if_pos h4]; exact scanConstant_append h u
  · rw [if_neg h1, if_neg h2, if_neg h3, if_neg h4, if_pos h5]; exact scanConstant_append h u
  · obtain ⟨r', hr'⟩ := Option.isSome_iff_exists.mp h6.2
    rw [if_neg h1, if_neg h2, if_neg h3, if_neg h4, if_neg h5,
      if_pos ⟨h6.1, by rw [afterWord_append hr' u]; rfl⟩]
    exact scanConstant_append h u
  · split at h
    · rename_i p hp
      cases h
      have hn := scanNumber_append hu hp
      rw [if_neg h1, if_neg h2, if_neg h3, if_neg h4, if_neg h5,
        if_neg (by rw [afterWord_infinity_of_scanNumber hn]; simp), hn]
    · cases h

theorem ne_nil_of_scanOnce {fuel : Nat} {s : Text} {p : Json × Text}
    (h : scanOnce objectHook constantHook fuel s = .ok p) : s ≠ [] := by
  rintro rfl
  cases fuel <;> cases h

theorem ne_nil_of_scanElements {fuel : Nat} {s : Text} {p : List Json × Text}
    (h : scanElements objectHook constantHook fuel s = .ok p) : s ≠ [] := by
  rintro rfl
  cases fuel with
  | zero => cases h
  | succ fuel =>
    rw [scanElements] at h
    split at h
    · cases h
    · rename_i p hp
      exact ne_nil_of_scanOnce hp rfl

theorem ne_nil_of_scanMembers {fuel : Nat} {s : Text} {p : List (Text × Json) × Text}
    (h : scanMembers objectHook constantHook fuel s = .ok p) : s ≠ [] := by
  rintro rfl
  cases fuel <;> cases h

/-- What `scanOnce_append` says of each of the three scanners, at one amount of fuel. -/
structure Local (objectHook : List (Text × Json) → Except HookError Json)
    (constantHook : String → Except HookError Json) (fuel : Nat) : Prop where
  once : ∀ {fuel' s v r u}, fuel ≤ fuel' → Stops u →
    scanOnce objectHook constantHook fuel s = .ok (v, r) →
    scanOnce objectHook constantHook fuel' (s ++ u) = .ok (v, r ++ u)
  elements : ∀ {fuel' s v r u}, fuel ≤ fuel' → Stops u →
    scanElements objectHook constantHook fuel s = .ok (v, r) →
    scanElements objectHook constantHook fuel' (s ++ u) = .ok (v, r ++ u)
  members : ∀ {fuel' s v r u}, fuel ≤ fuel' → Stops u →
    scanMembers objectHook constantHook fuel s = .ok (v, r) →
    scanMembers objectHook constantHook fuel' (s ++ u) = .ok (v, r ++ u)

theorem Local.once_succ {fuel : Nat} (ih : Local objectHook constantHook fuel) {fuel' : Nat}
    {s r u : Text} {v : Json} (hf : fuel ≤ fuel') (hu : Stops u)
    (h : scanOnce objectHook constantHook (fuel + 1) s = .ok (v, r)) :
    scanOnce objectHook constantHook (fuel' + 1) (s ++ u) = .ok (v, r ++ u) := by
  cases s with
  | nil => cases h
  | cons c s =>
    rw [scanOnce] at h
    rw [List.cons_append, scanOnce]
    split_ifs at h ⊢ with h1 h2 h3
    · obtain ⟨p, hp, hv⟩ := map_eq_ok.mp h
      cases hv
      rw [scanString_append hp u]
      rfl
    · split at h
      · cases h
      · rename_i d t hd
        rw [skipSpace_append hd u]
        dsimp only
        split_ifs at h ⊢ with h4
        · exact runHook_append h u
        · split at h
          · rename_i p hp
            have := ih.members hf hu hp
            rw [List.cons_append] at this
            rw [this]
            exact runHook_append h u
          · cases h
    · split at h
      · cases h
      · rename_i d t hd
        rw [skipSpace_append hd u]
        dsimp only
        split_ifs at h ⊢ with h4
        · cases h; rfl
        · obtain ⟨p, hp, hv⟩ := map_eq_ok.mp h
          cases hv
          have := ih.elements hf hu hp
          rw [List.cons_append] at this
          rw [this]
          rfl
    · exact scanAtom_append hu h

theorem Local.elements_succ {fuel : Nat} (ih : Local objectHook constantHook fuel) {fuel' : Nat}
    {s r u : Text} {v : List Json} (hf : fuel ≤ fuel') (hu : Stops u)
    (h : scanElements objectHook constantHook (fuel + 1) s = .ok (v, r)) :
    scanElements objectHook constantHook (fuel' + 1) (s ++ u) = .ok (v, r ++ u) := by
  rw [scanElements] at h ⊢
  split at h
  · cases h
  · rename_i p hp
    rw [ih.once hf hu hp]
    dsimp only
    split at h
    · cases h
    · rename_i d t hd
      rw [skipSpace_append hd u]
      dsimp only
      split_ifs at h ⊢ with h1 h2
      · cases h; rfl
      · obtain ⟨q, hq, hv⟩ := map_eq_ok.mp h
        cases hv
        rw [skipSpace_append_of_ne (ne_nil_of_scanElements hq), ih.elements hf hu hq]
        rfl

theorem Local.members_succ {fuel : Nat} (ih : Local objectHook constantHook fuel) {fuel' : Nat}
    {s r u : Text} {v : List (Text × Json)} (hf : fuel ≤ fuel') (hu : Stops u)
    (h : scanMembers objectHook constantHook (fuel + 1) s = .ok (v, r)) :
    scanMembers objectHook constantHook (fuel' + 1) (s ++ u) = .ok (v, r ++ u) := by
  cases s with
  | nil => cases h
  | cons c s =>
    rw [scanMembers] at h
    rw [List.cons_append, scanMembers]
    split_ifs at h ⊢ with h1
    split at h
    · cases h
    rename_i k hk
    rw [scanString_append hk u]
    dsimp only
    split at h
    · cases h
    rename_i d t hd
    rw [skipSpace_append hd u]
    dsimp only
    split_ifs at h ⊢ with h2
    split at h
    · cases h
    rename_i p hp
    rw [skipSpace_append_of_ne (ne_nil_of_scanOnce hp), ih.once hf hu hp]
    dsimp only
    split at h
    · cases h
    rename_i x y hx
    rw [skipSpace_append hx u]
    dsimp only
    split_ifs at h ⊢ with h3 h4
    · cases h; rfl
    · obtain ⟨q, hq, hv⟩ := map_eq_ok.mp h
      cases hv
      rw [skipSpace_append_of_ne (ne_nil_of_scanMembers hq), ih.members hf hu hq]
      rfl

theorem local_scan (fuel : Nat) : Local objectHook constantHook fuel := by
  induction fuel with
  | zero =>
    refine ⟨fun _ _ h => ?_, fun _ _ h => ?_, fun _ _ h => ?_⟩
    · cases h
    · cases h
    · cases h
  | succ fuel ih =>
    refine ⟨fun {fuel'} => ?_, fun {fuel'} => ?_, fun {fuel'} => ?_⟩
    all_goals
      intro s v r u hf hu h
      obtain ⟨n, rfl⟩ : ∃ n, fuel' = n + 1 := ⟨fuel' - 1, by omega⟩
    · exact ih.once_succ (by omega) hu h
    · exact ih.elements_succ (by omega) hu h
    · exact ih.members_succ (by omega) hu h

/-- A value is found again with text after it and with more fuel. -/
theorem scanOnce_append {fuel fuel' : Nat} {s r u : Text} {v : Json} (hf : fuel ≤ fuel')
    (hu : Stops u) (h : scanOnce objectHook constantHook fuel s = .ok (v, r)) :
    scanOnce objectHook constantHook fuel' (s ++ u) = .ok (v, r ++ u) :=
  (local_scan fuel).once hf hu h

end Scan
end GetBibleSword.Lib.Json
