import GetBibleSword.Core.Sha256
import GetBibleSword.Lib.Base64
import GetBibleSword.Lib.Json.Canonical

/-!
# Byte values: the producer's side

* `base64Encode` : `src/base64.cpp`; `base64Encode_eq` : it is RFC 4648 base64;
* `isValidUtf8` : the acceptor of `src/byte_value.cpp`; `isValidUtf8_iff` : it accepts the UTF-8
  encodings of scalar values and nothing else;
* `jsonEscape`, `jsonString` : on UTF-8 text they are the string literal of the text
  (`jsonString_encode`);
* `byteValueJson` : the envelope; `byteValueJson_eq` : it is the object text of its members.
-/

namespace GetBibleSword.Core
open GetBibleSword.Lib

/-! ## Base64 -/

def alphabet : Text := text "ABCDEFGHIJKLMNOPQRSTUVWXYZabcdefghijklmnopqrstuvwxyz0123456789+/"

/-- `alphabet[(value >> shift) & 0x3f]`. -/
def alphabetAt (value shift : Nat) : Byte := octet (alphabet.getD ((value >>> shift) &&& 0x3f) 0)

def base64Encode : Bytes → Bytes
  | [] => []
  | [a] =>
    let value := a.val <<< 16
    [alphabetAt value 18, alphabetAt value 12] ++ ascii "=="
  | [a, b] =>
    let value := (a.val <<< 16) ||| (b.val <<< 8)
    [alphabetAt value 18, alphabetAt value 12, alphabetAt value 6] ++ ascii "="
  | a :: b :: c :: rest =>
    let value := (a.val <<< 16) ||| (b.val <<< 8) ||| c.val
    alphabetAt value 18 :: alphabetAt value 12 :: alphabetAt value 6 :: alphabetAt value 0 ::
      base64Encode rest

theorem alphabet_get : ∀ v < 64, alphabet.getD v 0 = Base64.sextetChar v := by decide +kernel

theorem alphabetAt_eq (value shift : Nat) :
    alphabetAt value shift = octet (Base64.sextetChar (value / 2 ^ shift % 64)) := by
  rw [alphabetAt, Nat.and_two_pow_sub_one_eq_mod _ 6, Nat.shiftRight_eq_div_pow,
    alphabet_get _ (Nat.mod_lt _ (by decide))]

theorem quartet_value (a b c : Byte) :
    (a.val <<< 16) ||| (b.val <<< 8) ||| c.val = 65536 * a.val + 256 * b.val + c.val := by
  have hb := b.isLt
  have hc := c.isLt
  have hsum : 2 ^ 8 * (2 ^ 8 * a.val + b.val) + c.val = 65536 * a.val + 256 * b.val + c.val := by omega
  rw [← hsum, Nat.shiftLeft_eq, Nat.shiftLeft_eq, Nat.mul_comm a.val, Nat.mul_comm b.val,
    ← Nat.two_pow_add_eq_or_of_lt (by omega : 2 ^ 8 * b.val < 2 ^ 16),
    show 2 ^ 16 * a.val + 2 ^ 8 * b.val = 2 ^ 8 * (2 ^ 8 * a.val + b.val) by omega,
    ← Nat.two_pow_add_eq_or_of_lt (by omega : c.val < 2 ^ 8)]

/-- The encoder is RFC 4648 base64. -/
theorem base64Encode_eq (input : Bytes) : base64Encode input = (Base64.encode input).map octet := by
  have hpad : octet Base64.pad = octet 0x3d := rfl
  fun_induction base64Encode input with
  | case1 => rfl
  | case2 a value =>
    have ha := a.isLt
    have hv : value = 65536 * a.val := by simp only [value, Nat.shiftLeft_eq]; omega
    simp only [Base64.encode, alphabetAt_eq, hv, List.map_cons, List.map_nil]
    rw [show 65536 * a.val / 2 ^ 18 % 64 = a.val / 4 by omega,
      show 65536 * a.val / 2 ^ 12 % 64 = a.val % 4 * 16 by omega]
    rfl
  | case3 a b value =>
    have ha := a.isLt
    have hb := b.isLt
    have hv : value = 65536 * a.val + 256 * b.val := by
      have := quartet_value a b 0
      simpa [value] using this
    simp only [Base64.encode, alphabetAt_eq, hv, List.map_cons, List.map_nil]
    rw [show (65536 * a.val + 256 * b.val) / 2 ^ 18 % 64 = a.val / 4 by omega,
      show (65536 * a.val + 256 * b.val) / 2 ^ 12 % 64 = a.val % 4 * 16 + b.val / 16 by omega,
      show (65536 * a.val + 256 * b.val) / 2 ^ 6 % 64 = b.val % 16 * 4 by omega]
    rfl
  | case4 a b c rest value ih =>
    have ha := a.isLt
    have hb := b.isLt
    have hc := c.isLt
    have hv : value = 65536 * a.val + 256 * b.val + c.val := quartet_value a b c
    simp only [Base64.encode, alphabetAt_eq, hv, List.map_cons, ih]
    rw [show (65536 * a.val + 256 * b.val + c.val) / 2 ^ 18 % 64 = a.val / 4 by omega,
      show (65536 * a.val + 256 * b.val + c.val) / 2 ^ 12 % 64 = a.val % 4 * 16 + b.val / 16 by omega,
      show (65536 * a.val + 256 * b.val + c.val) / 2 ^ 6 % 64 = b.val % 16 * 4 + c.val / 64 by omega,
      show (65536 * a.val + 256 * b.val + c.val) / 2 ^ 0 % 64 = c.val % 64 by omega]

/-! ## The UTF-8 acceptor -/

/-- The continuation loop: `count` octets folded into `codePoint`; also what follows them. -/
def continuation : Nat → Nat → Bytes → Option (Nat × Bytes)
  | 0, codePoint, rest => some (codePoint, rest)
  | _ + 1, _, [] => none
  | count + 1, codePoint, next :: rest =>
    if next.val &&& 0xc0 ≠ 0x80 then none
    else continuation count ((codePoint <<< 6) ||| (next.val &&& 0x3f)) rest

/-- What the lead octet announces: continuation octets, first bits, least code point. -/
def leadClass (lead : Byte) : Option (Nat × Nat × Nat) :=
  if lead.val &&& 0xe0 = 0xc0 then some (1, lead.val &&& 0x1f, 0x80)
  else if lead.val &&& 0xf0 = 0xe0 then some (2, lead.val &&& 0x0f, 0x800)
  else if lead.val &&& 0xf8 = 0xf0 then some (3, lead.val &&& 0x07, 0x10000)
  else none

/-- The loop from one index on; `fuel` bounds the number of rounds. -/
def isValidUtf8From : Nat → Bytes → Bool
  | _, [] => true
  | 0, _ :: _ => false
  | fuel + 1, lead :: rest =>
    if lead.val ≤ 0x7f then isValidUtf8From fuel rest
    else
      match leadClass lead with
      | none => false
      | some (continuationCount, codePoint, minimum) =>
        -- index + continuation_count >= bytes.size()
        if rest.length < continuationCount then false
        else
          match continuation continuationCount codePoint rest with
          | none => false
          | some (codePoint, rest) =>
            if codePoint < minimum ∨ codePoint > 0x10ffff ∨ (codePoint ≥ 0xd800 ∧ codePoint ≤ 0xdfff)
            then false
            else isValidUtf8From fuel rest

def isValidUtf8 (bytes : Bytes) : Bool := isValidUtf8From bytes.length bytes

theorem leadClass_eq : ∀ lead : Byte, leadClass lead =
    if 0xc0 ≤ lead.val ∧ lead.val ≤ 0xdf then some (1, lead.val - 0xc0, 0x80)
    else if 0xe0 ≤ lead.val ∧ lead.val ≤ 0xef then some (2, lead.val - 0xe0, 0x800)
    else if 0xf0 ≤ lead.val ∧ lead.val ≤ 0xf7 then some (3, lead.val - 0xf0, 0x10000)
    else none := by
  decide +kernel

theorem tail_mask : ∀ next : Byte, next.val &&& 0xc0 ≠ 0x80 ↔ ¬ Utf8.IsTail next := by
  decide +kernel

theorem tail_bits : ∀ next : Byte, Utf8.IsTail next → next.val &&& 0x3f = next.val - 0x80 := by
  decide +kernel

theorem continuation_none {next : Byte} (h : ¬ Utf8.IsTail next) (count codePoint : Nat) (rest : Bytes) :
    continuation (count + 1) codePoint (next :: rest) = none := by
  rw [continuation, if_pos ((tail_mask next).mpr h)]

theorem continuation_tail {next : Byte} (h : Utf8.IsTail next) (count codePoint : Nat) (rest : Bytes) :
    continuation (count + 1) codePoint (next :: rest) =
      continuation count (codePoint * 0x40 + (next.val - 0x80)) rest := by
  have hlt : next.val - 0x80 < 2 ^ 6 := by
    unfold Utf8.IsTail at h
    omega
  rw [continuation, if_neg (fun hm => (tail_mask next).mp hm h), tail_bits next h,
    ← Nat.shiftLeft_add_eq_or_of_lt hlt, Nat.shiftLeft_eq]

/-- A round behind a lead octet whose continuation octets are missing or malformed. -/
theorem isValidUtf8From_refuse {fuel : Nat} {lead : Byte} {rest : Bytes} {count codePoint minimum : Nat}
    (h : ¬ lead.val ≤ 0x7f) (hl : leadClass lead = some (count, codePoint, minimum))
    (hr : rest.length < count ∨ continuation count codePoint rest = none) :
    isValidUtf8From (fuel + 1) (lead :: rest) = false := by
  rw [isValidUtf8From, if_neg h, hl]
  dsimp only
  split_ifs with hlen
  · rfl
  · rw [hr.resolve_left hlen]

/-- A round whose continuation octets are there. -/
theorem isValidUtf8From_round {fuel : Nat} {lead : Byte} {rest after : Bytes}
    {count codePoint minimum value : Nat} (h : ¬ lead.val ≤ 0x7f)
    (hl : leadClass lead = some (count, codePoint, minimum)) (hlen : ¬ rest.length < count)
    (hr : continuation count codePoint rest = some (value, after)) :
    isValidUtf8From (fuel + 1) (lead :: rest) =
      if value < minimum ∨ value > 0x10ffff ∨ (value ≥ 0xd800 ∧ value ≤ 0xdfff) then false
      else isValidUtf8From fuel after := by
  rw [isValidUtf8From, if_neg h, hl]
  dsimp only
  rw [if_neg hlen, hr]

theorem round_two {fuel : Nat} {lead b : Byte} (hl : 0xc0 ≤ lead.val ∧ lead.val ≤ 0xdf)
    (hb : Utf8.IsTail b) (rest : Bytes) :
    isValidUtf8From (fuel + 1) (lead :: b :: rest) =
      if 0xc2 ≤ lead.val then isValidUtf8From fuel rest else false := by
  have hclass := leadClass_eq lead
  rw [if_pos hl] at hclass
  rw [isValidUtf8From_round (by omega) hclass (by simp) (continuation_tail hb 0 _ rest)]
  unfold Utf8.IsTail at hb
  by_cases h : 0xc2 ≤ lead.val
  · rw [if_pos h, if_neg (by omega)]
  · rw [if_neg h, if_pos (by omega)]

theorem round_three {fuel : Nat} {lead b c : Byte} (hl : 0xe0 ≤ lead.val ∧ lead.val ≤ 0xef)
    (hb : Utf8.IsTail b) (hc : Utf8.IsTail c) (rest : Bytes) :
    isValidUtf8From (fuel + 1) (lead :: b :: c :: rest) =
      if Utf8.IsSecond lead b then isValidUtf8From fuel rest else false := by
  have hclass := leadClass_eq lead
  rw [if_neg (by omega), if_pos hl] at hclass
  rw [isValidUtf8From_round (by omega) hclass (by simp)
    ((continuation_tail hb 1 _ _).trans (continuation_tail hc 0 _ rest))]
  by_cases h : Utf8.IsSecond lead b
  · rw [if_pos h, if_neg]
    unfold Utf8.IsSecond Utf8.IsTail at *
    omega
  · rw [if_neg h, if_pos]
    unfold Utf8.IsSecond Utf8.IsTail at *
    omega

theorem round_four {fuel : Nat} {lead b c d : Byte} (hl : 0xf0 ≤ lead.val ∧ lead.val ≤ 0xf7)
    (hb : Utf8.IsTail b) (hc : Utf8.IsTail c) (hd : Utf8.IsTail d) (rest : Bytes) :
    isValidUtf8From (fuel + 1) (lead :: b :: c :: d :: rest) =
      if lead.val ≤ 0xf4 ∧ Utf8.IsSecond lead b then isValidUtf8From fuel rest else false := by
  have hclass := leadClass_eq lead
  rw [if_neg (by omega), if_neg (by omega), if_pos hl] at hclass
  rw [isValidUtf8From_round (by omega) hclass (by simp)
    ((continuation_tail hb 2 _ _).trans
      ((continuation_tail hc 1 _ _).trans (continuation_tail hd 0 _ rest)))]
  by_cases h : lead.val ≤ 0xf4 ∧ Utf8.IsSecond lead b
  · rw [if_pos h, if_neg]
    unfold Utf8.IsSecond Utf8.IsTail at *
    omega
  · rw [if_neg h, if_pos]
    unfold Utf8.IsSecond Utf8.IsTail at *
    omega

/-- The acceptor decides what the decoder decodes. -/
theorem isValidUtf8From_eq (fuel : Nat) : ∀ bytes : Bytes, bytes.length ≤ fuel →
    isValidUtf8From fuel bytes = (Utf8.decode bytes).isSome := by
  induction fuel with
  | zero =>
    intro bytes h
    obtain rfl := List.length_eq_zero_iff.mp (Nat.le_zero.mp h)
    rfl
  | succ fuel ih =>
    intro bytes h
    cases bytes with
    | nil => rfl
    | cons lead rest =>
      have hclass := leadClass_eq lead
      conv_rhs => unfold Utf8.decode
      by_cases h1 : lead.val < 0x80
      · rw [isValidUtf8From, if_pos (by omega), if_pos h1, ih rest (by simpa using h), Option.isSome_map]
      rw [if_neg h1]
      by_cases h2 : 0xc0 ≤ lead.val ∧ lead.val ≤ 0xdf
      · rw [if_pos h2] at hclass
        cases rest with
        | nil =>
          rw [isValidUtf8From_refuse (by omega) hclass (.inl (by simp))]
          split_ifs <;> rfl
        | cons b rest =>
          rw [List.length_cons, List.length_cons] at h
          by_cases hb : Utf8.IsTail b
          · rw [round_two h2 hb]
            by_cases h3 : 0xc2 ≤ lead.val
            · rw [if_pos h3, if_pos ⟨h3, h2.2⟩]
              dsimp only
              rw [if_pos hb, ih rest (by omega), Option.isSome_map]
            · rw [if_neg h3, if_neg (by omega), if_neg (by omega), if_neg (by omega)]
              rfl
          · rw [isValidUtf8From_refuse (by omega) hclass (.inr (continuation_none hb _ _ _))]
            split_ifs <;> first | rfl | (dsimp only; rw [if_neg hb]; rfl) | omega
      rw [if_neg h2] at hclass
      rw [if_neg (by omega)]
      by_cases h3 : 0xe0 ≤ lead.val ∧ lead.val ≤ 0xef
      · rw [if_pos h3] at hclass ⊢
        cases rest with
        | nil => exact isValidUtf8From_refuse (by omega) hclass (.inl (by simp))
        | cons b rest =>
          cases rest with
          | nil => exact isValidUtf8From_refuse (by omega) hclass (.inl (by simp))
          | cons c rest =>
            simp only [List.length_cons] at h
            dsimp only
            by_cases hb : Utf8.IsTail b
            · by_cases hc : Utf8.IsTail c
              · rw [round_three h3 hb hc]
                by_cases hs : Utf8.IsSecond lead b
                · rw [if_pos hs, if_pos ⟨hs, hc⟩, ih rest (by omega), Option.isSome_map]
                · rw [if_neg hs, if_neg fun hp => hs hp.1]
                  rfl
              · rw [isValidUtf8From_refuse (by omega) hclass
                  (.inr ((continuation_tail hb _ _ _).trans (continuation_none hc _ _ _))),
                  if_neg fun hp => hc hp.2]
                rfl
            · rw [isValidUtf8From_refuse (by omega) hclass (.inr (continuation_none hb _ _ _)),
                if_neg fun hp => hb hp.1.1]
              rfl
      rw [if_neg h3] at hclass ⊢
      by_cases h4 : 0xf0 ≤ lead.val ∧ lead.val ≤ 0xf7
      · rw [if_pos h4] at hclass
        cases rest with
        | nil =>
          rw [isValidUtf8From_refuse (by omega) hclass (.inl (by simp))]
          split_ifs <;> rfl
        | cons b rest =>
          cases rest with
          | nil =>
            rw [isValidUtf8From_refuse (by omega) hclass (.inl (by simp))]
            split_ifs <;> rfl
          | cons c rest =>
            cases rest with
            | nil =>
              rw [isValidUtf8From_refuse (by omega) hclass (.inl (by simp))]
              split_ifs <;> rfl
            | cons d rest =>
              simp only [List.length_cons] at h
              dsimp only
              by_cases ht : Utf8.IsTail b ∧ Utf8.IsTail c ∧ Utf8.IsTail d
              · rw [round_four h4 ht.1 ht.2.1 ht.2.2]
                by_cases hf : lead.val ≤ 0xf4
                · rw [if_pos (⟨h4.1, hf⟩ : 0xf0 ≤ lead.val ∧ lead.val ≤ 0xf4)]
                  by_cases hs : Utf8.IsSecond lead b
                  · rw [if_pos ⟨hf, hs⟩, if_pos ⟨hs, ht.2⟩, ih rest (by omega), Option.isSome_map]
                  · rw [if_neg fun hp => hs hp.2, if_neg fun hp => hs hp.1]
                    rfl
                · rw [if_neg fun hp => hf hp.1,
                    if_neg (fun hp => hf hp.2 : ¬(0xf0 ≤ lead.val ∧ lead.val ≤ 0xf4))]
                  rfl
              · have hnone : continuation 3 (lead.val - 0xf0) (b :: c :: d :: rest) = none := by
                  by_cases hb : Utf8.IsTail b
                  · rw [continuation_tail hb]
                    by_cases hc : Utf8.IsTail c
                    · rw [continuation_tail hc]
                      exact continuation_none (fun hd => ht ⟨hb, hc, hd⟩) _ _ _
                    · exact continuation_none hc _ _ _
                  · exact continuation_none hb _ _ _
                rw [isValidUtf8From_refuse (by omega) hclass (.inr hnone)]
                split_ifs with hf hs
                · exact absurd ⟨hs.1.1, hs.2⟩ ht
                · rfl
                · rfl
      rw [if_neg h4] at hclass
      rw [if_neg (by omega), isValidUtf8From, if_neg (by omega), hclass]
      rfl

/-- The strings accepted are the UTF-8 encodings of scalar values. -/
theorem isValidUtf8_eq (bytes : Bytes) : isValidUtf8 bytes = (Utf8.decode bytes).isSome :=
  isValidUtf8From_eq _ _ (Nat.le_refl _)

/-! ## JSON strings -/

/-- One octet of `json_escape`. The `setw(4)` of a control character fills with zeros. -/
def jsonEscapeByte (byte : Byte) : Bytes :=
  if byte.val = 0x22 then ascii "\\\""
  else if byte.val = 0x5c then ascii "\\\\"
  else if byte.val = 0x08 then ascii "\\b"
  else if byte.val = 0x0c then ascii "\\f"
  else if byte.val = 0x0a then ascii "\\n"
  else if byte.val = 0x0d then ascii "\\r"
  else if byte.val = 0x09 then ascii "\\t"
  else if byte.val < 0x20 then
    ascii "\\u00" ++ [octet (Sha256.hexDigit (byte.val / 16)), octet (Sha256.hexDigit (byte.val % 16))]
  else [byte]

def jsonEscape (utf8 : Bytes) : Bytes := utf8.flatMap jsonEscapeByte

def jsonString (utf8 : Bytes) : Bytes := ascii "\"" ++ jsonEscape utf8 ++ ascii "\""

theorem jsonEscapeByte_ascii : ∀ byte : Byte, byte.val < 0x80 →
    jsonEscapeByte byte = Utf8.encode (Json.escapeChar byte.val) := by
  decide +kernel

theorem jsonEscapeByte_high {byte : Byte} (h : 0x80 ≤ byte.val) : jsonEscapeByte byte = [byte] := by
  unfold jsonEscapeByte
  repeat rw [if_neg (by omega)]

theorem encodeChar_high {c : Nat} (h : 0x80 ≤ c) (hc : Utf8.IsScalar c) :
    ∀ byte ∈ Utf8.encodeChar c, 0x80 ≤ byte.val := by
  unfold Utf8.IsScalar at hc
  unfold Utf8.encodeChar
  split_ifs <;> simp only [List.forall_mem_cons, octet_val] <;> simp <;> omega

/-- Escaping octet by octet is escaping character by character. -/
theorem jsonEscape_encode {t : Text} (ht : ∀ c ∈ t, Utf8.IsScalar c) :
    jsonEscape (Utf8.encode t) = Utf8.encode (Json.escape t) := by
  induction t with
  | nil => rfl
  | cons c t ih =>
    have hchar : jsonEscape (Utf8.encodeChar c) = Utf8.encode (Json.escapeChar c) := by
      by_cases hc : c < 0x80
      · have hv : (octet c).val = c := by rw [octet_val]; omega
        have hbyte := jsonEscapeByte_ascii (octet c) (by omega)
        rw [hv] at hbyte
        rw [Utf8.encodeChar, if_pos hc, jsonEscape, List.flatMap_singleton, hbyte]
      · have hhigh := encodeChar_high (by omega) (ht c (by simp))
        have hesc : Json.escapeChar c = [c] := by
          unfold Json.escapeChar
          repeat rw [if_neg (by omega)]
        rw [hesc, Utf8.encode, List.flatMap_singleton, jsonEscape]
        conv_rhs => rw [← List.flatMap_singleton' (Utf8.encodeChar c)]
        exact List.flatMap_congr fun b hb => jsonEscapeByte_high (hhigh b hb)
    have hrest := ih fun x hx => ht x (List.mem_cons_of_mem _ hx)
    rw [jsonEscape] at hchar hrest ⊢
    rw [Utf8.encode_cons, List.flatMap_append, hchar, hrest, Json.escape, Json.escape,
      List.flatMap_cons, Utf8.encode_append]

/-- On UTF-8 text `json_string` is the string literal of the text. -/
theorem jsonString_encode {t : Text} (ht : ∀ c ∈ t, Utf8.IsScalar c) :
    jsonString (Utf8.encode t) = Utf8.encode (Json.quote t) := by
  rw [jsonString, jsonEscape_encode ht, Json.quote, Utf8.encode_cons, Utf8.encode_append]
  rfl

theorem quote_scalar {t : Text} (ht : ∀ c ∈ t, Utf8.IsScalar c) : ∀ c ∈ Json.quote t, Utf8.IsScalar c :=
  fun c hc => (Json.printable_quote ht c hc).2

/-- An object text is UTF-8 text when its names and values are. -/
theorem objectText_scalar {ms : List Json.Member}
    (h : ∀ m ∈ ms, (∀ c ∈ m.name, Utf8.IsScalar c) ∧ (∀ c ∈ m.text, Utf8.IsScalar c)) :
    ∀ c ∈ Json.objectText ms, Utf8.IsScalar c := by
  have hmember (m : Json.Member) (hm : m ∈ ms) : ∀ c ∈ Json.memberText m, Utf8.IsScalar c := by
    intro c hc
    rw [Json.memberText, List.mem_append, List.mem_cons] at hc
    rcases hc with hc | rfl | hc
    · exact quote_scalar (h m hm).1 c hc
    · exact .inl (by decide)
    · exact (h m hm).2 c hc
  intro c hc
  cases ms with
  | nil =>
    simp only [Json.objectText, List.mem_cons, List.not_mem_nil, or_false] at hc
    rcases hc with rfl | rfl <;> exact .inl (by decide)
  | cons m ms =>
    simp only [Json.objectText, Json.moreMembers, List.mem_cons, List.mem_append, List.mem_flatMap,
      List.not_mem_nil, or_false] at hc
    rcases hc with rfl | (hc | ⟨x, hx, rfl | hc⟩) | rfl
    · exact .inl (by decide)
    · exact hmember m (by simp) c hc
    · exact .inl (by decide)
    · exact hmember x (List.mem_cons_of_mem _ hx) c hc
    · exact .inl (by decide)

/-! ## The envelope -/

def byteValueJson (bytes : Bytes) : Bytes :=
  ascii "\x7b\"base64\":" ++ jsonString (base64Encode bytes) ++
    ascii ",\"encoding\":\"base64\",\"sha256\":" ++ jsonString (sha256Hex bytes) ++
    ascii ",\"size\":" ++ decimal bytes.length ++
    (if isValidUtf8 bytes then ascii ",\"utf8\":" ++ jsonString bytes else []) ++
    ascii "\x7d"

/-- The members of the envelope, in the order they are written. -/
def byteValueMembers (bytes : Bytes) : List Json.Member :=
  [⟨text "base64", Json.quote (Base64.encode bytes), .str (Base64.encode bytes)⟩,
    ⟨text "encoding", Json.quote (text "base64"), .str (text "base64")⟩,
    ⟨text "sha256", Json.quote (Sha256.hexdigest bytes), .str (Sha256.hexdigest bytes)⟩,
    ⟨text "size", decimalText bytes.length, .int bytes.length⟩] ++
  match Utf8.decode bytes with
  | some t => [⟨text "utf8", Json.quote t, .str t⟩]
  | none => []

theorem hexdigest_ascii (bytes : Bytes) : ∀ c ∈ Sha256.hexdigest bytes, c < 0x80 := by
  intro c hc
  have := Sha256.hex_digits _ c hc
  omega

theorem decimalText_ascii (n : Nat) : ∀ c ∈ decimalText n, c < 0x80 := by
  intro c hc
  have := decimalText_digit n c hc
  simp only [isDigit, Bool.and_eq_true, decide_eq_true_eq] at this
  omega

theorem base64_ascii (bytes : Bytes) : ∀ c ∈ Base64.encode bytes, c < 0x80 :=
  fun c hc => (Base64.encode_ascii bytes c hc).2.1

theorem jsonString_ascii {t : Text} (h : ∀ c ∈ t, c < 0x80) :
    jsonString (t.map octet) = Utf8.encode (Json.quote t) := by
  rw [← Utf8.encode_of_ascii h, jsonString_encode (Utf8.scalar_of_ascii h)]

/-- The envelope is the object of its members, without white space. -/
theorem byteValueJson_eq (bytes : Bytes) :
    byteValueJson bytes = Utf8.encode (Json.objectText (byteValueMembers bytes)) := by
  have hsize : decimal bytes.length = Utf8.encode (decimalText bytes.length) := by
    rw [Utf8.encode_of_ascii (decimalText_ascii _), decimal]
  have hbase64 : ascii "\x7b\"base64\":" = Utf8.encode (text "\x7b\"base64\":") := rfl
  have hmiddle : ascii ",\"encoding\":\"base64\",\"sha256\":" =
      Utf8.encode (text ",\"encoding\":\"base64\",\"sha256\":") := rfl
  have hcount : ascii ",\"size\":" = Utf8.encode (text ",\"size\":") := rfl
  have hutf8 : ascii ",\"utf8\":" = Utf8.encode (text ",\"utf8\":") := rfl
  have hclose : ascii "\x7d" = Utf8.encode [0x7d] := rfl
  rw [byteValueJson, base64Encode_eq, jsonString_ascii (base64_ascii bytes), sha256Hex_eq,
    jsonString_ascii (hexdigest_ascii bytes), hsize, isValidUtf8_eq, byteValueMembers, hbase64, hmiddle,
    hcount, hutf8, hclose]
  cases hd : Utf8.decode bytes with
  | none =>
    rw [if_neg (by simp), List.append_nil, List.append_nil]
    simp only [← Utf8.encode_append]
    congr 1
    simp only [Json.objectText, Json.moreMembers, Json.memberText, List.flatMap_cons, List.flatMap_nil,
      List.append_nil, List.append_assoc]
    rfl
  | some t =>
    obtain ⟨ht, hscalar⟩ := Utf8.decode_eq_some.mp hd
    have hquote : jsonString bytes = Utf8.encode (Json.quote t) := by rw [ht, jsonString_encode hscalar]
    rw [if_pos Option.isSome_some, hquote]
    simp only [← Utf8.encode_append]
    congr 1
    simp only [Json.objectText, Json.moreMembers, Json.memberText, List.cons_append, List.nil_append,
      List.flatMap_cons, List.flatMap_nil, List.append_nil, List.append_assoc]
    rfl

end GetBibleSword.Core
