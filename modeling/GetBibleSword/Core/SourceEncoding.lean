import GetBibleSword.Core.ByteValue

/-!
# Source encodings

`source_utf8` of `src/source_encoding.cpp`. ICU is a parameter: what its calls make of octets, or
nothing when one of them fails.
-/

namespace GetBibleSword.Core
open GetBibleSword.Lib

/-- The converters the source opens. -/
inductive Converter where
  | iso88591
  | scsu
  | utf16
  | utf16le
deriving DecidableEq

/-- `ucnv_open`, `ucnv_toUChars` and `u_strToUTF8`, one after the other. -/
abbrev Icu := Converter → Bytes → Option Bytes

/-- ICU gives UTF-8 or nothing. -/
def Icu.WellFormed (icu : Icu) : Prop :=
  ∀ converter raw utf8, icu converter raw = some utf8 → isValidUtf8 utf8 = true

def lowercaseAscii (character : Byte) : Byte :=
  if 0x41 ≤ character.val ∧ character.val ≤ 0x5a then octet (character.val + 0x20) else character

/-- `std::numeric_limits<std::int32_t>::max()`, which is also that of `int`. -/
def intMax : Nat := 2 ^ 31 - 1

def byteOrderMarks : List Bytes := [[octet 0xff, octet 0xfe], [octet 0xfe, octet 0xff]]

def converterName (name raw : Bytes) : Option Converter :=
  if name = [] ∨ name = ascii "latin-1" then some .iso88591
  else if name = ascii "scsu" then some .scsu
  else if name = ascii "utf-16" then
    if byteOrderMarks.contains (raw.take 2) then some .utf16 else some .utf16le
  else none

def sourceUtf8 (icu : Icu) (raw encoding : Bytes) : Option Bytes :=
  let name := encoding.map lowercaseAscii
  if name = ascii "utf-8" then
    if isValidUtf8 raw then some raw else none
  else
    match converterName name raw with
    | none => none
    | some converter =>
      if raw = [] then some []
      else if raw.length > intMax then none
      else icu converter raw

/-- What is returned is UTF-8. -/
theorem sourceUtf8_valid {icu : Icu} (hicu : icu.WellFormed) {raw encoding utf8 : Bytes}
    (h : sourceUtf8 icu raw encoding = some utf8) : isValidUtf8 utf8 = true := by
  unfold sourceUtf8 at h
  dsimp only at h
  by_cases hname : encoding.map lowercaseAscii = ascii "utf-8"
  · rw [if_pos hname] at h
    split_ifs at h with hvalid
    rwa [← Option.some.inj h]
  · rw [if_neg hname] at h
    cases hconverter : converterName (encoding.map lowercaseAscii) raw with
    | none =>
      rw [hconverter] at h
      cases h
    | some converter =>
      rw [hconverter] at h
      dsimp only at h
      split_ifs at h
      · rw [← Option.some.inj h]
        rfl
      · exact hicu _ _ _ h

end GetBibleSword.Core
