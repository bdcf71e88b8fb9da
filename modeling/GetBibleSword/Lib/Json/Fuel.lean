import GetBibleSword.Lib.Json.Locality

/-!
# The JSON scanner has fuel enough

Every value is at least one character long (`scanOnce_length`), and between two values the scanner
spends at most two units of fuel; so `loads` never stops for want of fuel (`loads_ne_fuel`).
-/

namespace GetBibleSword.Lib.Json

theorem scanUnits_length {s v r : Text} (h : scanUnits s = .ok (v, r)) : r.length < s.length := by
  fun_induction scanUnits s generalizing v r with
  | case2 s => cases h; simp
  | case4 h1 h2 h3 h4 s x hx _ ih =>
    obtain ⟨p, hp, hv⟩ := map_eq_ok.mp h
    cases hv
    have := ih hp
    simp only [List.length_cons]
    omega
  | case7 e s he x hx _ ih =>
    obtain ⟨p, hp, hv⟩ := map_eq_ok.mp h
    cases hv
    have := ih hp
    simp only [List.length_cons]
    omega
  | case10 c s h1 h2 h3 ih =>
    obtain ⟨p, hp, hv⟩ := map_eq_ok.mp h
    cases hv
    have := ih hp
    simp only [List.length_cons]
    omega
  | _ => cases h

theorem scanString_length {s v r : Text} (h : scanString s = .ok (v, r)) : r.length < s.length := by
  obtain ⟨p, hp, hv⟩ := map_eq_ok.mp h
  cases hv
  exact scanUnits_length hp

theorem scanUnits_ne_fuel (s : Text) : scanUnits s ≠ .error .fuel := by
  have map_ne {α β : Type} {x : Except ScanError α} {f : α → β} (h : x ≠ .error .fuel) :
      x.map f ≠ .error .fuel := by
    cases x with
    | ok a => simp [Except.map]
    | error e => simpa [Except.map] using h
  fun_induction scanUnits s with
  | case4 h1 h2 h3 h4 s x hx _ ih => exact map_ne ih
  | case7 e s he x hx _ ih => exact map_ne ih
  | case10 c s h1 h2 h3 ih => exact map_ne ih
  | _ => simp

theorem scanString_ne_fuel (s : Text) : scanString s ≠ .error .fuel := by
  have := scanUnits_ne_fuel s
  unfold scanString
  cases hs : scanUnits s with
  | ok p => simp [Except.map]
  | error e => rw [hs] at this; simpa [Except.map] using this

theorem dropDigits_length (s : Text) : (dropDigits s).length ≤ s.length :=
  List.IsSuffix.length_le (List.dropWhile_suffix _)

theorem skipSpace_length (s : Text) : (skipSpace s).length ≤ s.length :=
  List.IsSuffix.length_le (List.dropWhile_suffix _)

theorem scanInt_length {s v r : Text} (h : scanInt s = some (v, r)) : r.length < s.length := by
  cases s with
  | nil => cases h
  | cons c s =>
    have := dropDigits_length s
    rw [scanInt] at h
    split_ifs at h <;> cases h <;> simp only [List.length_cons] <;> omega

theorem scanFraction_length (s : Text) : (scanFraction s).2.length ≤ s.length := by
  cases s with
  | nil => simp [scanFraction]
  | cons c s =>
    have := dropDigits_length s
    rw [scanFraction]
    split <;> simp only [List.length_cons] <;> omega

theorem scanSign_length (s : Text) : (scanSign s).2.length ≤ s.length := by
  cases s with
  | nil => simp [scanSign]
  | cons c s =>
    rw [scanSign]
    split_ifs <;> simp

theorem scanExponent_length (s : Text) : (scanExponent s).2.length ≤ s.length := by
  cases s with
  | nil => simp [scanExponent]
  | cons c s =>
    have h1 := dropDigits_length (scanSign s).2
    have h2 := scanSign_length s
    rw [scanExponent]
    split <;> simp only [List.length_cons] <;> omega

theorem scanUnsigned_length {neg : Bool} {s r : Text} {v : Json}
    (h : scanUnsigned neg s = some (v, r)) : r.length < s.length := by
  obtain ⟨i, hi, hv⟩ := Option.map_eq_some_iff.mp h
  have h1 := scanInt_length (v := i.1) (r := i.2) hi
  have h2 := scanFraction_length i.2
  have h3 := scanExponent_length (scanFraction i.2).2
  dsimp only at hv
  split at hv <;> cases hv <;> omega

theorem scanNumber_length {s r : Text} {v : Json} (h : scanNumber s = some (v, r)) :
    r.length < s.length := by
  cases s with
  | nil => cases h
  | cons c s =>
    rw [scanNumber] at h
    split_ifs at h
    · have := scanUnsigned_length h
      rw [List.length_cons]
      omega
    · exact scanUnsigned_length h

theorem afterWord_length {w : String} (hw : text w ≠ []) {s r : Text} (h : afterWord w s = some r) :
    r.length < s.length := by
  unfold afterWord at h
  split at h
  · rename_i hp
    cases h
    obtain ⟨t, rfl⟩ := List.isPrefixOf_iff_prefix.mp hp
    have := List.length_pos_iff.mpr hw
    rw [List.drop_left, List.length_append]
    omega
  · cases h

section Scan
variable {objectHook : List (Text × Json) → Except HookError Json} {constantHook : String → Except HookError Json}

theorem runHook_rest {x : Except HookError Json} {t r : Text} {v : Json}
    (h : runHook x t = .ok (v, r)) : r = t := by
  unfold runHook at h
  split at h <;> cases h
  rfl

theorem runHook_ne_fuel (x : Except HookError Json) (t : Text) : runHook x t ≠ .error .fuel := by
  cases x <;> simp [runHook]

theorem scanWord_length {w : String} (hw : text w ≠ []) {x v : Json} {s r : Text}
    (h : scanWord w x s = .ok (v, r)) : r.length < s.length := by
  unfold scanWord at h
  split at h
  · rename_i ht
    cases h
    exact afterWord_length hw ht
  · cases h

theorem scanConstant_length {w : String} (hw : text w ≠ []) {v : Json} {s r : Text}
    (h : scanConstant constantHook w s = .ok (v, r)) : r.length < s.length := by
  unfold scanConstant at h
  split at h
  · rename_i ht
    rw [runHook_rest h]
    exact afterWord_length hw ht
  · cases h

theorem scanAtom_length {c : Nat} {s r : Text} {v : Json}
    (h : scanAtom constantHook c s = .ok (v, r)) : r.length < s.length := by
  unfold scanAtom at h
  split_ifs at h
  · exact scanWord_length (by decide) h
  · exact scanWord_length (by decide) h
  · exact scanWord_length (by decide) h
  · exact scanConstant_length (by decide) h
  · exact scanConstant_length (by decide) h
  · exact scanConstant_length (by decide) h
  · split at h
    · rename_i p hp
      cases h
      exact scanNumber_length hp
    · cases h

theorem scanAtom_ne_fuel (c : Nat) (s : Text) : scanAtom constantHook c s ≠ .error .fuel := by
  have word_ne (w : String) (x : Json) : scanWord w x s ≠ .error .fuel := by
    unfold scanWord
    split <;> simp
  have constant_ne (w : String) : scanConstant constantHook w s ≠ .error .fuel := by
    unfold scanConstant
    split
    · exact runHook_ne_fuel _ _
    · simp
  unfold scanAtom
  split_ifs
  · exact word_ne _ _
  · exact word_ne _ _
  · exact word_ne _ _
  · exact constant_ne _
  · exact constant_ne _
  · exact constant_ne _
  · split <;> simp

/-- What each scanner consumes, and how much fuel keeps it from running out. -/
structure Progress (objectHook : List (Text × Json) → Except HookError Json)
    (constantHook : String → Except HookError Json) (fuel : Nat) : Prop where
  once : ∀ {s v r}, scanOnce objectHook constantHook fuel s = .ok (v, r) → r.length < s.length
  elements : ∀ {s v r}, scanElements objectHook constantHook fuel s = .ok (v, r) →
    r.length < s.length
  members : ∀ {s v r}, scanMembers objectHook constantHook fuel s = .ok (v, r) →
    r.length < s.length
  onceFuel : ∀ {s}, 2 * s.length + 1 ≤ fuel → scanOnce objectHook constantHook fuel s ≠ .error .fuel
  elementsFuel : ∀ {s}, 2 * s.length + 2 ≤ fuel →
    scanElements objectHook constantHook fuel s ≠ .error .fuel
  membersFuel : ∀ {s}, 2 * s.length + 2 ≤ fuel →
    scanMembers objectHook constantHook fuel s ≠ .error .fuel

theorem length_of_skipSpace {s t : Text} {d : Nat} (h : skipSpace s = d :: t) :
    t.length + 1 ≤ s.length := by
  have := skipSpace_length s
  rw [h, List.length_cons] at this
  exact this

theorem Progress.succ {fuel : Nat} (ih : Progress objectHook constantHook fuel) :
    Progress objectHook constantHook (fuel + 1) where
  once := by
    intro s v r h
    cases s with
    | nil => cases h
    | cons c s =>
      rw [scanOnce] at h
      rw [List.length_cons]
      split_ifs at h with h1 h2 h3
      · obtain ⟨p, hp, hv⟩ := map_eq_ok.mp h
        cases hv
        have := scanString_length (v := p.1) (r := p.2) hp
        omega
      · split at h
        · cases h
        · rename_i d t hd
          have hl := length_of_skipSpace hd
          split_ifs at h
          · rw [runHook_rest h]
            omega
          · split at h
            · rename_i p hp
              have := ih.members (v := p.1) (r := p.2) hp
              rw [runHook_rest h]
              rw [List.length_cons] at this
              omega
            · cases h
      · split at h
        · cases h
        · rename_i d t hd
          have hl := length_of_skipSpace hd
          split_ifs at h
          · cases h
            omega
          · obtain ⟨p, hp, hv⟩ := map_eq_ok.mp h
            cases hv
            have := ih.elements (v := p.1) (r := p.2) hp
            rw [List.length_cons] at this
            omega
      · have := scanAtom_length h
        rw [List.length_cons] at this
        exact this
  elements := by
    intro s v r h
    rw [scanElements] at h
    split at h
    · cases h
    rename_i p hp
    have h1 := ih.once (v := p.1) (r := p.2) hp
    split at h
    · cases h
    rename_i d t hd
    have hl := length_of_skipSpace hd
    split_ifs at h
    · cases h
      omega
    · obtain ⟨q, hq, hv⟩ := map_eq_ok.mp h
      cases hv
      have h2 := ih.elements (v := q.1) (r := q.2) hq
      have h3 := skipSpace_length t
      omega
  members := by
    intro s v r h
    cases s with
    | nil => cases h
    | cons c s =>
      rw [scanMembers] at h
      rw [List.length_cons]
      split_ifs at h
      split at h
      · cases h
      rename_i k hk
      have h1 := scanString_length (v := k.1) (r := k.2) hk
      split at h
      · cases h
      rename_i d t hd
      have h2 := length_of_skipSpace hd
      split_ifs at h
      split at h
      · cases h
      rename_i p hp
      have h3 := ih.once (v := p.1) (r := p.2) hp
      have h4 := skipSpace_length t
      split at h
      · cases h
      rename_i x y hx
      have h5 := length_of_skipSpace hx
      split_ifs at h
      · cases h
        omega
      · obtain ⟨q, hq, hv⟩ := map_eq_ok.mp h
        cases hv
        have h6 := ih.members (v := q.1) (r := q.2) hq
        have h7 := skipSpace_length y
        omega
  onceFuel := by
    intro s hf h
    cases s with
    | nil => cases h
    | cons c s =>
      rw [List.length_cons] at hf
      rw [scanOnce] at h
      split_ifs at h
      · cases hs : scanString s with
        | ok p => rw [hs] at h; cases h
        | error e =>
          rw [hs] at h
          cases h
          exact scanString_ne_fuel s hs
      · split at h
        · cases h
        · rename_i d t hd
          have hl := length_of_skipSpace hd
          split_ifs at h
          · exact runHook_ne_fuel _ _ h
          · split at h
            · exact runHook_ne_fuel _ _ h
            · rename_i e he
              cases h
              exact ih.membersFuel (by rw [List.length_cons]; omega) he
      · split at h
        · cases h
        · rename_i d t hd
          have hl := length_of_skipSpace hd
          split_ifs at h
          cases hs : scanElements objectHook constantHook fuel (d :: t) with
          | ok p => rw [hs] at h; cases h
          | error e =>
            rw [hs] at h
            cases h
            exact ih.elementsFuel (by rw [List.length_cons]; omega) hs
      · exact scanAtom_ne_fuel _ _ h
  elementsFuel := by
    intro s hf h
    rw [scanElements] at h
    split at h
    · rename_i e he
      cases h
      exact ih.onceFuel (by omega) he
    rename_i p hp
    have h1 := ih.once (v := p.1) (r := p.2) hp
    split at h
    · cases h
    rename_i d t hd
    have hl := length_of_skipSpace hd
    have h3 := skipSpace_length t
    split_ifs at h
    · cases hs : scanElements objectHook constantHook fuel (skipSpace t) with
      | ok p => rw [hs] at h; cases h
      | error e =>
        rw [hs] at h
        cases h
        exact ih.elementsFuel (by omega) hs
    · cases h
  membersFuel := by
    intro s hf h
    cases s with
    | nil => cases h
    | cons c s =>
      rw [List.length_cons] at hf
      rw [scanMembers] at h
      split_ifs at h
      · split at h
        · rename_i e he
          cases h
          exact scanString_ne_fuel s he
        rename_i k hk
        have h1 := scanString_length (v := k.1) (r := k.2) hk
        split at h
        · cases h
        rename_i d t hd
        have h2 := length_of_skipSpace hd
        have h4 := skipSpace_length t
        split_ifs at h
        · split at h
          · rename_i e he
            cases h
            exact ih.onceFuel (by omega) he
          rename_i p hp
          have h3 := ih.once (v := p.1) (r := p.2) hp
          split at h
          · cases h
          rename_i x y hx
          have h5 := length_of_skipSpace hx
          have h7 := skipSpace_length y
          split_ifs at h
          · cases hs : scanMembers objectHook constantHook fuel (skipSpace y) with
            | ok p => rw [hs] at h; cases h
            | error e =>
              rw [hs] at h
              cases h
              exact ih.membersFuel (by omega) hs
          · cases h
        · cases h
      · cases h

theorem progress (fuel : Nat) : Progress objectHook constantHook fuel := by
  induction fuel with
  | zero =>
    constructor
    · intro s v r h; cases h
    · intro s v r h; cases h
    · intro s v r h; cases h
    · intro s h; omega
    · intro s h; omega
    · intro s h; omega
  | succ fuel ih => exact ih.succ

/-- `loads` runs out of text before it runs out of fuel. -/
theorem loads_ne_fuel (s : Text) : loads objectHook constantHook s ≠ .error .fuel := by
  unfold loads
  split_ifs
  · simp
  · have hprogress : Progress objectHook constantHook (2 * s.length + 2) := progress _
    have hlength := skipSpace_length s
    have := hprogress.onceFuel (s := skipSpace s) (by omega)
    split
    · rename_i e he
      rw [he] at this
      simpa using this
    · split_ifs <;> simp

end Scan
end GetBibleSword.Lib.Json
