import GetBibleSword.Lib.Json.Locality

/-!
# JSON texts that are read back

* `escapeChar`, `quote` : a string literal; `scanString_quote` : the scanner returns its characters;
* `Reads t v` : the text `t` is one value `v`, white space around it allowed (`reads_quote`,
  `reads_decimal`, `reads_of_loads`, `loads_of_reads`);
* `objectText` : an object from names and member texts, without white space; `reads_objectText` :
  it reads as what the object hook makes of the members, in order.
-/

namespace GetBibleSword.Lib.Json

/-! ## Strings -/

/-- The hexadecimal digit of `v` in lower case. -/
def hexChar (v : Nat) : Nat := if v < 10 then 0x30 + v else 0x57 + v

/-- A character inside a string literal. -/
def escapeChar (c : Nat) : Text :=
  if c = 0x22 then [0x5c, 0x22]
  else if c = 0x5c then [0x5c, 0x5c]
  else if c = 0x08 then [0x5c, 0x62]
  else if c = 0x0c then [0x5c, 0x66]
  else if c = 0x0a then [0x5c, 0x6e]
  else if c = 0x0d then [0x5c, 0x72]
  else if c = 0x09 then [0x5c, 0x74]
  else if c < 0x20 then [0x5c, 0x75, 0x30, 0x30, hexChar (c / 16), hexChar (c % 16)]
  else [c]

def escape (t : Text) : Text := t.flatMap escapeChar

def quote (t : Text) : Text := 0x22 :: (escape t ++ [0x22])

theorem hexValue_hexChar {v : Nat} (h : v < 16) : hexValue (hexChar v) = some v := by
  unfold hexValue hexChar
  split_ifs <;> first | (exfalso; omega) | (congr 1; omega)

theorem hex4_control {c : Nat} (h : c < 0x20) :
    hex4 0x30 0x30 (hexChar (c / 16)) (hexChar (c % 16)) = some c := by
  have hz : hexValue 0x30 = some 0 := rfl
  rw [hex4, hz, hexValue_hexChar (by omega), hexValue_hexChar (by omega)]
  dsimp only
  congr 1
  omega

/-- The scanner reads one escaped character back. -/
theorem scanUnits_escapeChar (c : Nat) (s : Text) :
    scanUnits (escapeChar c ++ s) = (scanUnits s).map fun p => (c :: p.1, p.2) := by
  unfold escapeChar
  split_ifs with h1 h2 h3 h4 h5 h6 h7 h8
  · subst h1
    exact scanUnits_simple (by decide) rfl s
  · subst h2
    exact scanUnits_simple (by decide) rfl s
  · subst h3
    exact scanUnits_simple (by decide) rfl s
  · subst h4
    exact scanUnits_simple (by decide) rfl s
  · subst h5
    exact scanUnits_simple (by decide) rfl s
  · subst h6
    exact scanUnits_simple (by decide) rfl s
  · subst h7
    exact scanUnits_simple (by decide) rfl s
  · exact scanUnits_unicode (hex4_control h8) s
  · exact scanUnits_plain h1 h2 h8 s

theorem scanUnits_escape (t s : Text) :
    scanUnits (escape t ++ 0x22 :: s) = .ok (t, s) := by
  induction t with
  | nil => exact scanUnits_quote s
  | cons c t ih =>
    rw [escape, List.flatMap_cons, List.append_assoc, scanUnits_escapeChar, ← escape, ih]
    rfl

/-- No surrogates, as in any text decoded from UTF-8. -/
def NoSurrogates (t : Text) : Prop := ∀ c ∈ t, ¬ IsHigh c

theorem joinSurrogates_eq {t : Text} (h : NoSurrogates t) : joinSurrogates t = t := by
  induction t with
  | nil => rfl
  | cons c t ih =>
    have ht := ih fun d hd => h d (List.mem_cons_of_mem _ hd)
    have hc : ¬ IsHigh c := h c (by simp)
    cases t with
    | nil => rfl
    | cons d t =>
      conv_lhs => unfold joinSurrogates
      dsimp only
      rw [if_neg (fun hp => hc hp.1), ht]

theorem scanString_quote {t : Text} (h : NoSurrogates t) (s : Text) :
    scanString (escape t ++ 0x22 :: s) = .ok (t, s) := by
  rw [scanString, scanUnits_escape]
  simp only [Except.map]
  rw [joinSurrogates_eq h]

/-! ## Texts of values -/

section Reads
variable {objectHook : List (Text × Json) → Except HookError Json} {constantHook : String → Except HookError Json}

variable (objectHook constantHook) in
/-- `t` is one value, `v`, with nothing around it but white space. -/
def Reads (t : Text) (v : Json) : Prop :=
  ∃ r, scanOnce objectHook constantHook (2 * t.length + 2) (skipSpace t) = .ok (v, r) ∧
    skipSpace r = []

theorem reads_of_loads {t : Text} {v : Json} (h : loads objectHook constantHook t = .ok v) :
    Reads objectHook constantHook t v := by
  unfold loads at h
  split_ifs at h
  split at h
  · cases h
  · rename_i p hp
    split_ifs at h with hr
    cases h
    exact ⟨p.2, hp, hr⟩

theorem loads_of_reads {t : Text} {v : Json} (hbom : t.head? ≠ some 0xfeff)
    (h : Reads objectHook constantHook t v) : loads objectHook constantHook t = .ok v := by
  obtain ⟨r, hr, hs⟩ := h
  rw [loads, if_neg hbom, hr]
  dsimp only
  rw [if_pos hs]

/-- A value read with text after it: the scanner stops where the white space behind it ends. -/
theorem Reads.scan {t : Text} {v : Json} (h : Reads objectHook constantHook t v) {u : Text}
    (hu : Stops u) (hspace : skipSpace u = u) {fuel : Nat} (hf : 2 * t.length + 2 ≤ fuel) :
    ∃ r, scanOnce objectHook constantHook fuel (skipSpace (t ++ u)) = .ok (v, r) ∧
      skipSpace r = u := by
  obtain ⟨r, hr, hs⟩ := h
  refine ⟨r ++ u, ?_, ?_⟩
  · rw [skipSpace_append_of_ne (ne_nil_of_scanOnce hr)]
    exact scanOnce_append hf hu hr
  · unfold skipSpace at hs hspace ⊢
    rw [List.dropWhile_append, hs]
    simpa using hspace

theorem reads_quote {t : Text} (h : NoSurrogates t) :
    Reads objectHook constantHook (quote t) (.str t) := by
  refine ⟨[], ?_, rfl⟩
  have hs : skipSpace (quote t) = quote t := by simp [skipSpace, quote, isSpace]
  rw [hs, quote, scanOnce, if_pos rfl, scanString_quote h []]
  rfl

theorem takeDigits_all {ds : Text} (h : ∀ c ∈ ds, isDigit c = true) :
    takeDigits ds = ds ∧ dropDigits ds = [] := by
  unfold takeDigits dropDigits
  exact ⟨List.takeWhile_eq_self_iff.mpr h, List.dropWhile_eq_nil_iff.mpr h⟩

theorem scanUnsigned_decimal (n : Nat) :
    scanUnsigned false (decimalText n) = some (.int n, []) := by
  have hint : scanInt (decimalText n) = some (decimalText n, []) := by
    rcases Nat.eq_zero_or_pos n with rfl | hn
    · rfl
    · obtain ⟨d, ds, hd, h1, h2⟩ := decimalText_head hn
      have hall := decimalText_digit n
      rw [hd] at hall ⊢
      have htail := takeDigits_all fun c hc => hall c (List.mem_cons_of_mem _ hc)
      rw [scanInt, if_neg (by omega), if_pos (hall d (by simp)), htail.1, htail.2]
  rw [scanUnsigned, hint, Option.map_some]
  simp [scanFraction, scanExponent, signed]

theorem reads_decimal (n : Nat) : Reads objectHook constantHook (decimalText n) (.int n) := by
  have hall := decimalText_digit n
  refine ⟨[], ?_, rfl⟩
  cases hd : decimalText n with
  | nil =>
    have := scanUnsigned_decimal n
    rw [hd] at this
    cases this
  | cons d ds =>
    have hdigit := hall d (by rw [hd]; simp)
    simp only [isDigit, Bool.and_eq_true, decide_eq_true_eq] at hdigit
    have hsp : skipSpace (d :: ds) = d :: ds := by
      have : isSpace d = false := by simp [isSpace]; omega
      simp [skipSpace, this]
    rw [hsp, scanOnce, if_neg (by omega), if_neg (by omega), if_neg (by omega), scanAtom,
      if_neg (by omega), if_neg (by omega), if_neg (by omega), if_neg (by omega), if_neg (by omega),
      if_neg (by omega), scanNumber, if_neg (by omega), ← hd, scanUnsigned_decimal]

theorem reads_true : Reads objectHook constantHook (text "true") (.bool true) := ⟨[], rfl, rfl⟩

theorem reads_false : Reads objectHook constantHook (text "false") (.bool false) := ⟨[], rfl, rfl⟩

theorem reads_null : Reads objectHook constantHook (text "null") .null := ⟨[], rfl, rfl⟩

/-! ## Objects -/

/-- A member of an object: its name, its text, and the value the text reads as. -/
structure Member where
  name : Text
  text : Text
  value : Json

def Member.json (m : Member) : Text × Json := (m.name, m.value)

/-- `"name":text`. -/
def memberText (m : Member) : Text := quote m.name ++ 0x3a :: m.text

/-- The members after the first, each behind a comma. -/
def moreMembers (ms : List Member) : Text := ms.flatMap fun m => 0x2c :: memberText m

def objectText : List Member → Text
  | [] => [0x7b, 0x7d]
  | m :: ms => 0x7b :: (memberText m ++ moreMembers ms ++ [0x7d])

variable (objectHook constantHook) in
structure Member.Valid (m : Member) : Prop where
  name : NoSurrogates m.name
  reads : Reads objectHook constantHook m.text m.value

theorem skipSpace_cons {c : Nat} (h : isSpace c = false) (s : Text) : skipSpace (c :: s) = c :: s := by
  simp [skipSpace, h]

theorem scanMembers_members (ms : List Member) : ∀ (m : Member) (rest : Text) (fuel : Nat),
    (∀ x ∈ m :: ms, x.Valid objectHook constantHook) →
    2 * (memberText m ++ moreMembers ms).length + 3 ≤ fuel →
    scanMembers objectHook constantHook fuel (memberText m ++ moreMembers ms ++ 0x7d :: rest) =
      .ok ((m :: ms).map Member.json, rest) := by
  induction ms with
  | nil =>
    intro m rest fuel hv hf
    obtain ⟨fuel, rfl⟩ : ∃ n, fuel = n + 1 := ⟨fuel - 1, by omega⟩
    have hm := hv m (by simp)
    have hlen : 2 * m.text.length + 2 ≤ fuel := by
      simp only [memberText, quote, List.length_append, List.length_cons, List.length_nil] at hf
      omega
    obtain ⟨r, hr, hs⟩ := hm.reads.scan (u := 0x7d :: rest) (Stops.cons rfl rest)
      (skipSpace_cons rfl rest) hlen
    simp only [memberText, quote, moreMembers, List.flatMap_nil, List.append_nil, List.cons_append,
      List.append_assoc, List.nil_append]
    rw [scanMembers, if_pos rfl, scanString_quote hm.name]
    dsimp only
    rw [skipSpace_cons rfl]
    dsimp only
    rw [if_pos rfl, hr]
    dsimp only
    rw [hs]
    rfl
  | cons m' ms ih =>
    intro m rest fuel hv hf
    obtain ⟨fuel, rfl⟩ : ∃ n, fuel = n + 1 := ⟨fuel - 1, by omega⟩
    have hm := hv m (by simp)
    have hlen : 2 * m.text.length + 2 ≤ fuel ∧
        2 * (memberText m' ++ moreMembers ms).length + 3 ≤ fuel := by
      rw [moreMembers, List.flatMap_cons, ← moreMembers] at hf
      simp only [memberText, quote, List.length_append, List.length_cons, List.length_nil] at hf ⊢
      omega
    have htail : moreMembers (m' :: ms) ++ 0x7d :: rest =
        0x2c :: (memberText m' ++ moreMembers ms ++ 0x7d :: rest) := by
      simp [moreMembers]
    obtain ⟨r, hr, hs⟩ := hm.reads.scan
      (u := 0x2c :: (memberText m' ++ moreMembers ms ++ 0x7d :: rest)) (Stops.cons rfl _)
      (skipSpace_cons rfl _) hlen.1
    have hquote : skipSpace (memberText m' ++ moreMembers ms ++ 0x7d :: rest) =
        memberText m' ++ moreMembers ms ++ 0x7d :: rest := by
      simp [memberText, quote, skipSpace, isSpace]
    rw [List.append_assoc, htail, memberText, quote]
    simp only [List.cons_append, List.append_assoc, List.nil_append]
    rw [scanMembers, if_pos rfl, scanString_quote hm.name]
    dsimp only
    rw [skipSpace_cons rfl]
    dsimp only
    rw [if_pos rfl]
    simp only [List.append_assoc] at hr hs hquote ih
    rw [hr]
    dsimp only
    rw [hs]
    dsimp only
    rw [if_neg (by decide), if_pos rfl, hquote,
      ih m' rest fuel (fun x hx => hv x (List.mem_cons_of_mem _ hx)) (by simpa using hlen.2)]
    rfl

/-- An object reads as what the hook makes of its members, in the order they are written. -/
theorem reads_objectText {ms : List Member} (hv : ∀ m ∈ ms, m.Valid objectHook constantHook)
    {v : Json} (hhook : objectHook (ms.map Member.json) = .ok v) :
    Reads objectHook constantHook (objectText ms) v := by
  refine ⟨[], ?_, rfl⟩
  cases ms with
  | nil =>
    rw [objectText, skipSpace_cons rfl, scanOnce, if_neg (by decide), if_pos rfl,
      skipSpace_cons rfl]
    dsimp only
    rw [if_pos rfl]
    rw [List.map_nil] at hhook
    rw [hhook]
    rfl
  | cons m ms =>
    have hopen : skipSpace (memberText m ++ moreMembers ms ++ [0x7d]) =
        memberText m ++ moreMembers ms ++ [0x7d] := by
      simp [memberText, quote, skipSpace, isSpace]
    have hfuel : 2 * (memberText m ++ moreMembers ms).length + 3 ≤ 2 * (objectText (m :: ms)).length + 1 := by
      simp only [objectText, List.length_cons, List.length_append]
      omega
    have hscan := scanMembers_members ms m [] _ hv hfuel
    rw [objectText, skipSpace_cons rfl, scanOnce, if_neg (by decide), if_pos rfl, hopen]
    rw [objectText] at hscan
    have hhead : memberText m ++ moreMembers ms ++ [0x7d] =
        0x22 :: (escape m.name ++ [0x22] ++ 0x3a :: m.text ++ moreMembers ms ++ [0x7d]) := by
      simp [memberText, quote]
    rw [hhead] at hscan ⊢
    dsimp only
    rw [if_neg (by decide), hscan]
    dsimp only
    rw [hhook]
    rfl

end Reads
end GetBibleSword.Lib.Json
