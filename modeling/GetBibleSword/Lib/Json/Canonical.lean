import GetBibleSword.Lib.Json.Write
import GetBibleSword.Lib.Utf8

/-!
# Canonical texts

* `intText`, `arrayText` : integers with a sign, arrays; `reads_int`, `reads_arrayText`;
* `canonical` : the one text of a value: members in octet order of their names, no white space,
  integers in decimal, the shortest escapes; a float literal has none;
* `Canonical t v` : `t` is the canonical text of `v` and reads as `v`; one lemma for each kind of
  value (`canonical_quote`, `canonical_array`, `canonical_object`, ...).
-/

namespace GetBibleSword.Lib.Json

/-! ## Texts -/

def intText : Int → Text
  | .ofNat n => decimalText n
  | .negSucc n => 0x2d :: decimalText (n + 1)

/-- Elements after the first, each behind a comma. -/
def moreElements (ts : List Text) : Text := ts.flatMap fun t => 0x2c :: t

def arrayText : List Text → Text
  | [] => [0x5b, 0x5d]
  | t :: ts => 0x5b :: (t ++ moreElements ts ++ [0x5d])

/-- Members in the octet order of their names. -/
def sortMembers (ms : List Member) : List Member :=
  ms.mergeSort fun a b => decide (Utf8.encode a.name ≤ Utf8.encode b.name)

mutual

def canonical : Json → Option Text
  | .null => some (text "null")
  | .bool b => some (if b then text "true" else text "false")
  | .int i => some (intText i)
  | .float _ => none
  | .str s => some (quote s)
  | .arr xs => (canonicalElements xs).map arrayText
  | .obj ms => (canonicalMembers ms).map fun members => objectText (sortMembers members)

def canonicalElements : List Json → Option (List Text)
  | [] => some []
  | x :: xs =>
    match canonical x, canonicalElements xs with
    | some t, some ts => some (t :: ts)
    | _, _ => none

def canonicalMembers : List (Text × Json) → Option (List Member)
  | [] => some []
  | (name, value) :: ms =>
    match canonical value, canonicalMembers ms with
    | some t, some members => some (⟨name, t, value⟩ :: members)
    | _, _ => none

end

/-! ## Reading them back -/

section Reads
variable {objectHook : List (Text × Json) → Except HookError Json} {constantHook : String → Except HookError Json}

theorem scanUnsigned_negative (n : Nat) :
    scanUnsigned true (decimalText n) = some (.int (-(n : Int)), []) := by
  have hpositive := scanUnsigned_decimal n
  unfold scanUnsigned at hpositive ⊢
  cases hint : scanInt (decimalText n) with
  | none =>
    rw [hint] at hpositive
    cases hpositive
  | some i =>
    rw [hint, Option.map_some] at hpositive
    rw [Option.map_some]
    dsimp only at hpositive ⊢
    split at hpositive
    · simp only [signed, Option.some.injEq, Prod.mk.injEq, Json.int.injEq] at hpositive ⊢
      simp only [Bool.false_eq_true, if_false, if_true] at hpositive ⊢
      exact ⟨by rw [hpositive.1], hpositive.2⟩
    · simp at hpositive

theorem reads_int (i : Int) : Reads objectHook constantHook (intText i) (.int i) := by
  cases i with
  | ofNat n => exact reads_decimal n
  | negSucc n =>
    have hinfinity : afterWord "-Infinity" (0x2d :: decimalText (n + 1)) = none := by
      obtain ⟨d, ds, hd, hlow, hhigh⟩ := decimalText_head (Nat.succ_pos n)
      have hword : text "-Infinity" = 0x2d :: 0x49 :: text "nfinity" := by decide
      have hne : ¬ 0x49 = d := by omega
      rw [afterWord, hd, hword, List.isPrefixOf, List.isPrefixOf]
      simp [hne]
    refine ⟨[], ?_, rfl⟩
    rw [intText, skipSpace_cons rfl, scanOnce, if_neg (by decide), if_neg (by decide), if_neg (by decide),
      scanAtom, if_neg (by decide), if_neg (by decide), if_neg (by decide), if_neg (by decide),
      if_neg (by decide), hinfinity, if_neg (by simp), scanNumber, if_pos rfl, scanUnsigned_negative]
    rfl

theorem scanElements_elements (ts : List (Text × Json)) : ∀ (t : Text × Json) (rest : Text) (fuel : Nat),
    (∀ x ∈ t :: ts, Reads objectHook constantHook x.1 x.2 ∧ skipSpace x.1 = x.1) →
    2 * (t.1 ++ moreElements (ts.map Prod.fst)).length + 3 ≤ fuel →
    scanElements objectHook constantHook fuel (t.1 ++ moreElements (ts.map Prod.fst) ++ 0x5d :: rest) =
      .ok ((t :: ts).map Prod.snd, rest) := by
  induction ts with
  | nil =>
    intro t rest fuel hv hf
    obtain ⟨fuel, rfl⟩ : ∃ n, fuel = n + 1 := ⟨fuel - 1, by omega⟩
    obtain ⟨hreads, hspace⟩ := hv t (by simp)
    have hlen : 2 * t.1.length + 2 ≤ fuel := by
      simp only [List.length_append] at hf
      omega
    obtain ⟨r, hr, hs⟩ := hreads.scan (u := 0x5d :: rest) (Stops.cons rfl rest) (skipSpace_cons rfl rest) hlen
    have hne : t.1 ≠ [] := by
      rintro hnil
      obtain ⟨r, hr, -⟩ := hreads
      rw [hspace] at hr
      exact ne_nil_of_scanOnce hr hnil
    have hstart : skipSpace (t.1 ++ 0x5d :: rest) = t.1 ++ 0x5d :: rest := by
      rw [skipSpace_append_of_ne (by rw [hspace]; exact hne), hspace]
    rw [hstart] at hr
    rw [List.map_nil, moreElements, List.flatMap_nil, List.append_nil, scanElements, hr]
    dsimp only
    rw [hs]
    dsimp only
    rw [if_pos rfl]
    rfl
  | cons t' ts ih =>
    intro t rest fuel hv hf
    obtain ⟨fuel, rfl⟩ : ∃ n, fuel = n + 1 := ⟨fuel - 1, by omega⟩
    obtain ⟨hreads, hspace⟩ := hv t (by simp)
    have hrest := fun x hx => hv x (List.mem_cons_of_mem _ hx)
    obtain ⟨hreads', hspace'⟩ := hrest t' (by simp)
    have hnonempty : ∀ {x : Text × Json}, Reads objectHook constantHook x.1 x.2 → skipSpace x.1 = x.1 →
        x.1 ≠ [] := by
      rintro x ⟨r, hr, -⟩ hspace hnil
      rw [hspace] at hr
      exact ne_nil_of_scanOnce hr hnil
    have hne := hnonempty hreads hspace
    have hne' := hnonempty hreads' hspace'
    have htail : moreElements ((t' :: ts).map Prod.fst) ++ 0x5d :: rest =
        0x2c :: (t'.1 ++ moreElements (ts.map Prod.fst) ++ 0x5d :: rest) := by
      simp [moreElements]
    have hlen : 2 * t.1.length + 2 ≤ fuel ∧
        2 * (t'.1 ++ moreElements (ts.map Prod.fst)).length + 3 ≤ fuel := by
      rw [List.map_cons, moreElements, List.flatMap_cons, ← moreElements] at hf
      simp only [List.length_append, List.length_cons] at hf ⊢
      omega
    obtain ⟨r, hr, hs⟩ := hreads.scan
      (u := 0x2c :: (t'.1 ++ moreElements (ts.map Prod.fst) ++ 0x5d :: rest)) (Stops.cons rfl _)
      (skipSpace_cons rfl _) hlen.1
    have hstart : skipSpace (t.1 ++ 0x2c :: (t'.1 ++ moreElements (ts.map Prod.fst) ++ 0x5d :: rest)) =
        t.1 ++ 0x2c :: (t'.1 ++ moreElements (ts.map Prod.fst) ++ 0x5d :: rest) := by
      rw [skipSpace_append_of_ne (by rw [hspace]; exact hne), hspace]
    have hnext : skipSpace (t'.1 ++ moreElements (ts.map Prod.fst) ++ 0x5d :: rest) =
        t'.1 ++ moreElements (ts.map Prod.fst) ++ 0x5d :: rest := by
      rw [List.append_assoc, skipSpace_append_of_ne (by rw [hspace']; exact hne'), hspace']
    rw [hstart] at hr
    rw [List.append_assoc, htail, scanElements, hr]
    dsimp only
    rw [hs]
    dsimp only
    rw [if_neg (by decide), if_pos rfl, hnext, ih t' rest fuel hrest hlen.2]
    rfl

theorem reads_arrayText {ts : List (Text × Json)}
    (hv : ∀ x ∈ ts, Reads objectHook constantHook x.1 x.2 ∧ skipSpace x.1 = x.1)
    (hclose : ∀ x ∈ ts, x.1.head? ≠ some 0x5d) :
    Reads objectHook constantHook (arrayText (ts.map Prod.fst)) (.arr (ts.map Prod.snd)) := by
  refine ⟨[], ?_, rfl⟩
  cases ts with
  | nil =>
    rw [List.map_nil, arrayText, skipSpace_cons rfl, scanOnce, if_neg (by decide), if_neg (by decide),
      if_pos rfl, skipSpace_cons rfl]
    dsimp only
    rw [if_pos rfl]
    rfl
  | cons t ts =>
    obtain ⟨hreads, hspace⟩ := hv t (by simp)
    have hfuel : 2 * (t.1 ++ moreElements (ts.map Prod.fst)).length + 3 ≤
        2 * (arrayText ((t :: ts).map Prod.fst)).length + 1 := by
      simp only [List.map_cons, arrayText, List.length_cons, List.length_append]
      omega
    have hscan := scanElements_elements ts t [] _ hv hfuel
    rw [List.map_cons, arrayText, skipSpace_cons rfl, scanOnce, if_neg (by decide), if_neg (by decide),
      if_pos rfl]
    rw [List.map_cons, arrayText] at hscan
    cases ht : t.1 with
    | nil =>
      obtain ⟨r, hr, -⟩ := hreads
      rw [hspace, ht] at hr
      exact absurd rfl (ne_nil_of_scanOnce hr)
    | cons c s =>
      have hopen : skipSpace (c :: s ++ moreElements (ts.map Prod.fst) ++ [0x5d]) =
          c :: s ++ moreElements (ts.map Prod.fst) ++ [0x5d] := by
        rw [List.append_assoc, ← ht, skipSpace_append_of_ne (by rw [hspace, ht]; simp), hspace]
      have hne : ¬ c = 0x5d := by
        have := hclose t (by simp)
        rw [ht] at this
        simpa using this
      rw [ht] at hscan
      rw [hopen]
      simp only [List.cons_append] at hscan ⊢
      rw [if_neg hne, hscan]
      rfl

/-! ## Canonical texts -/

/-- A scalar value that is not a control character. -/
def Printable (c : Nat) : Prop := 0x20 ≤ c ∧ Utf8.IsScalar c

theorem printable_of_ascii {c : Nat} (hlow : 0x20 ≤ c) (hhigh : c < 0x80) : Printable c :=
  ⟨hlow, .inl (Nat.lt_trans hhigh (by decide))⟩

/-- A character of an array is one of its punctuation or of an element. -/
theorem printable_arrayText {ts : List Text} (h : ∀ t ∈ ts, ∀ c ∈ t, Printable c) :
    ∀ c ∈ arrayText ts, Printable c := by
  intro c hc
  cases ts with
  | nil =>
    simp only [arrayText, List.mem_cons, List.not_mem_nil, or_false] at hc
    rcases hc with rfl | rfl <;> exact printable_of_ascii (by decide) (by decide)
  | cons t ts =>
    simp only [arrayText, moreElements, List.mem_cons, List.mem_append, List.mem_flatMap,
      List.not_mem_nil, or_false] at hc
    rcases hc with rfl | (hc | ⟨u, hu, rfl | hc⟩) | rfl
    · exact printable_of_ascii (by decide) (by decide)
    · exact h t (by simp) c hc
    · exact printable_of_ascii (by decide) (by decide)
    · exact h u (List.mem_cons_of_mem _ hu) c hc
    · exact printable_of_ascii (by decide) (by decide)

theorem printable_objectText {ms : List Member}
    (h : ∀ m ∈ ms, (∀ c ∈ quote m.name, Printable c) ∧ ∀ c ∈ m.text, Printable c) :
    ∀ c ∈ objectText ms, Printable c := by
  have hmember : ∀ m ∈ ms, ∀ c ∈ memberText m, Printable c := by
    intro m hm c hc
    rw [memberText, List.mem_append, List.mem_cons] at hc
    rcases hc with hc | rfl | hc
    · exact (h m hm).1 c hc
    · exact printable_of_ascii (by decide) (by decide)
    · exact (h m hm).2 c hc
  intro c hc
  cases ms with
  | nil =>
    simp only [objectText, List.mem_cons, List.not_mem_nil, or_false] at hc
    rcases hc with rfl | rfl <;> exact printable_of_ascii (by decide) (by decide)
  | cons m ms =>
    simp only [objectText, moreMembers, List.mem_cons, List.mem_append, List.mem_flatMap,
      List.not_mem_nil, or_false] at hc
    rcases hc with rfl | (hc | ⟨x, hx, rfl | hc⟩) | rfl
    · exact printable_of_ascii (by decide) (by decide)
    · exact hmember m (by simp) c hc
    · exact printable_of_ascii (by decide) (by decide)
    · exact hmember x (List.mem_cons_of_mem _ hx) c hc
    · exact printable_of_ascii (by decide) (by decide)

variable (objectHook constantHook) in
/-- `t` is the canonical text of `v`, without control characters, and read back as `v`. -/
structure Canonical (t : Text) (v : Json) : Prop where
  canonical : canonical v = some t
  printable : ∀ c ∈ t, Printable c
  reads : Reads objectHook constantHook t v
  start : ∃ c s, t = c :: s ∧ c < 0x80 ∧ isSpace c = false ∧ c ≠ 0x5d

theorem Canonical.skipSpace {t : Text} {v : Json} (h : Canonical objectHook constantHook t v) :
    skipSpace t = t := by
  obtain ⟨c, s, rfl, -, hspace, -⟩ := h.start
  exact skipSpace_cons hspace s

theorem canonical_null : Canonical objectHook constantHook (text "null") .null where
  canonical := rfl
  printable := by
    have hascii : ∀ c ∈ text "null", 0x20 ≤ c ∧ c < 0x80 := by decide
    exact fun c hc => printable_of_ascii (hascii c hc).1 (hascii c hc).2
  reads := reads_null
  start := ⟨_, _, rfl, by decide, by decide, by decide⟩

theorem canonical_bool (b : Bool) :
    Canonical objectHook constantHook (if b then text "true" else text "false") (.bool b) := by
  have htrue : ∀ c ∈ text "true", 0x20 ≤ c ∧ c < 0x80 := by decide
  have hfalse : ∀ c ∈ text "false", 0x20 ≤ c ∧ c < 0x80 := by decide
  cases b with
  | true =>
    exact ⟨rfl, fun c hc => printable_of_ascii (htrue c hc).1 (htrue c hc).2, reads_true, _, _, rfl,
      by decide, by decide, by decide⟩
  | false =>
    exact ⟨rfl, fun c hc => printable_of_ascii (hfalse c hc).1 (hfalse c hc).2, reads_false, _, _, rfl,
      by decide, by decide, by decide⟩

theorem intText_ascii (i : Int) : ∀ c ∈ intText i, 0x20 ≤ c ∧ c < 0x80 := by
  have hdecimal : ∀ n, ∀ c ∈ decimalText n, 0x20 ≤ c ∧ c < 0x80 := by
    intro n c hc
    have := decimalText_digit n c hc
    simp only [isDigit, Bool.and_eq_true, decide_eq_true_eq] at this
    omega
  cases i with
  | ofNat n => exact hdecimal n
  | negSucc n =>
    intro c hc
    rcases List.mem_cons.mp hc with rfl | hc
    · decide
    · exact hdecimal (n + 1) c hc

theorem canonical_int (i : Int) : Canonical objectHook constantHook (intText i) (.int i) where
  canonical := rfl
  printable := fun c hc => printable_of_ascii (intText_ascii i c hc).1 (intText_ascii i c hc).2
  reads := reads_int i
  start := by
    cases i with
    | ofNat n =>
      rcases Nat.eq_zero_or_pos n with rfl | hn
      · exact ⟨_, _, rfl, by decide, by decide, by decide⟩
      · obtain ⟨d, ds, hd, hlow, hhigh⟩ := decimalText_head hn
        refine ⟨d, ds, hd, by omega, ?_, by omega⟩
        simp only [isSpace, Bool.or_eq_false_iff, beq_eq_false_iff_ne]
        omega
    | negSucc n => exact ⟨_, _, rfl, by decide, by decide, by decide⟩

theorem printable_escapeChar {c : Nat} (hc : Utf8.IsScalar c) : ∀ x ∈ escapeChar c, Printable x := by
  have hcontrol : ∀ c < 0x20, ∀ x ∈ escapeChar c, 0x20 ≤ x ∧ x < 0x80 := by decide +kernel
  by_cases h : c < 0x20
  · exact fun x hx => printable_of_ascii (hcontrol c h x hx).1 (hcontrol c h x hx).2
  · have hshort : ∀ e : Text, (∀ x ∈ e, 0x20 ≤ x ∧ x < 0x80) → ∀ x ∈ e, Printable x :=
      fun e he x hx => printable_of_ascii (he x hx).1 (he x hx).2
    unfold escapeChar
    split_ifs
    all_goals first
      | exact hshort _ (by decide)
      | (intro x hx; rw [List.mem_singleton.mp hx]; exact ⟨by omega, hc⟩)

theorem printable_quote {s : Text} (hs : ∀ c ∈ s, Utf8.IsScalar c) : ∀ c ∈ quote s, Printable c := by
  intro c hc
  simp only [quote, List.mem_cons, List.mem_append, List.not_mem_nil, or_false] at hc
  rcases hc with rfl | hc | rfl
  · exact printable_of_ascii (by decide) (by decide)
  · obtain ⟨x, hx, hcx⟩ := List.mem_flatMap.mp hc
    exact printable_escapeChar (hs x hx) c hcx
  · exact printable_of_ascii (by decide) (by decide)

theorem noSurrogates_of_scalar {s : Text} (h : ∀ c ∈ s, Utf8.IsScalar c) : NoSurrogates s := by
  intro c hc
  have := h c hc
  unfold Utf8.IsScalar at this
  unfold IsHigh
  omega

theorem canonical_quote {s : Text} (hs : ∀ c ∈ s, Utf8.IsScalar c) :
    Canonical objectHook constantHook (quote s) (.str s) where
  canonical := rfl
  printable := printable_quote hs
  reads := reads_quote (noSurrogates_of_scalar hs)
  start := ⟨_, _, rfl, by decide, by decide, by decide⟩

theorem canonicalElements_of {xs : List (Text × Json)}
    (h : ∀ x ∈ xs, Canonical objectHook constantHook x.1 x.2) :
    canonicalElements (xs.map Prod.snd) = some (xs.map Prod.fst) := by
  induction xs with
  | nil => rfl
  | cons x xs ih =>
    have hx := (h x (by simp)).canonical
    have hxs := ih fun y hy => h y (List.mem_cons_of_mem _ hy)
    rw [List.map_cons, canonicalElements, hx, hxs]
    rfl

theorem canonical_array {xs : List (Text × Json)}
    (h : ∀ x ∈ xs, Canonical objectHook constantHook x.1 x.2) :
    Canonical objectHook constantHook (arrayText (xs.map Prod.fst)) (.arr (xs.map Prod.snd)) where
  canonical := by rw [Json.canonical, canonicalElements_of h]; rfl
  printable := by
    apply printable_arrayText
    intro t ht
    obtain ⟨x, hx, rfl⟩ := List.mem_map.mp ht
    exact (h x hx).printable
  reads := by
    apply reads_arrayText
    · exact fun x hx => ⟨(h x hx).reads, (h x hx).skipSpace⟩
    · intro x hx
      obtain ⟨c, s, ht, -, -, hne⟩ := (h x hx).start
      rw [ht]
      simpa using hne
  start := by cases xs.map Prod.fst <;> exact ⟨_, _, rfl, by decide, by decide, by decide⟩

theorem canonicalMembers_of {ms : List Member}
    (h : ∀ m ∈ ms, Canonical objectHook constantHook m.text m.value) :
    canonicalMembers (ms.map Member.json) = some ms := by
  induction ms with
  | nil => rfl
  | cons m ms ih =>
    have hm := (h m (by simp)).canonical
    have hms := ih fun y hy => h y (List.mem_cons_of_mem _ hy)
    rw [List.map_cons, Member.json, canonicalMembers, hm, hms]

/-- Members that stand in increasing octet order of their names. -/
def Sorted (ms : List Member) : Prop :=
  ms.Pairwise fun a b => Utf8.encode a.name < Utf8.encode b.name

theorem sortMembers_eq {ms : List Member} (h : Sorted ms) : sortMembers ms = ms := by
  apply List.mergeSort_of_pairwise
  exact h.imp fun hlt => decide_eq_true (le_of_lt hlt)

theorem Sorted.nodup {ms : List Member} (h : Sorted ms) : (ms.map Member.name).Nodup := by
  rw [List.Nodup, List.pairwise_map]
  exact h.imp fun hlt heq => absurd (congrArg Utf8.encode heq) (ne_of_lt hlt)

theorem canonical_object {ms : List Member} (hsorted : Sorted ms)
    (hname : ∀ m ∈ ms, ∀ c ∈ m.name, Utf8.IsScalar c)
    (h : ∀ m ∈ ms, Canonical objectHook constantHook m.text m.value)
    (hhook : objectHook (ms.map Member.json) = .ok (.obj (ms.map Member.json))) :
    Canonical objectHook constantHook (objectText ms) (.obj (ms.map Member.json)) where
  canonical := by rw [Json.canonical, canonicalMembers_of h, Option.map_some, sortMembers_eq hsorted]
  printable := printable_objectText fun m hm => ⟨printable_quote (hname m hm), (h m hm).printable⟩
  reads := reads_objectText (fun m hm => ⟨noSurrogates_of_scalar (hname m hm), (h m hm).reads⟩) hhook
  start := by cases ms <;> exact ⟨_, _, rfl, by decide, by decide, by decide⟩

end Reads
end GetBibleSword.Lib.Json
