import GetBibleSword.Lib.Bytes

/-!
# Base64 (RFC 4648)

* `sextetChar`, `sextet` : the alphabet, both ways;
* `encode` : octets to text, padded; `decode` : text to octets, refusing any other character,
  misplaced padding and incomplete quartets, but blind to the unused bits of the last digit;
* `decode_encode` : the round trip; `encode_ascii` : the text is ASCII.
-/

namespace GetBibleSword.Lib.Base64

/-- The character of a six-bit value. -/
def sextetChar (v : Nat) : Nat :=
  if v < 26 then 0x41 + v
  else if v < 52 then 0x61 + (v - 26)
  else if v < 62 then 0x30 + (v - 52)
  else if v = 62 then 0x2b
  else 0x2f

/-- The six-bit value of a character. -/
def sextet (c : Nat) : Option Nat :=
  if 0x41 ≤ c ∧ c ≤ 0x5a then some (c - 0x41)
  else if 0x61 ≤ c ∧ c ≤ 0x7a then some (c - 0x61 + 26)
  else if 0x30 ≤ c ∧ c ≤ 0x39 then some (c - 0x30 + 52)
  else if c = 0x2b then some 62
  else if c = 0x2f then some 63
  else none

/-- The padding character. -/
def pad : Nat := 0x3d

@[simp] theorem sextet_sextetChar {v : Nat} (h : v < 64) : sextet (sextetChar v) = some v := by
  unfold sextet sextetChar
  split_ifs <;> first | (exfalso; omega) | (congr 1; omega)

@[simp] theorem sextet_pad : sextet pad = none := rfl

theorem sextetChar_ne_pad {v : Nat} (h : v < 64) : sextetChar v ≠ pad := by
  intro he
  have := sextet_sextetChar h
  rw [he, sextet_pad] at this
  cases this

theorem sextetChar_ascii (v : Nat) : 0x20 < sextetChar v ∧ sextetChar v < 0x80 ∧
    sextetChar v ≠ 0x22 ∧ sextetChar v ≠ 0x5c := by
  unfold sextetChar
  split_ifs <;> omega

def encode : Bytes → Text
  | [] => []
  | [a] => [sextetChar (a.val / 4), sextetChar (a.val % 4 * 16), pad, pad]
  | [a, b] =>
    [sextetChar (a.val / 4), sextetChar (a.val % 4 * 16 + b.val / 16), sextetChar (b.val % 16 * 4),
      pad]
  | a :: b :: c :: s =>
    sextetChar (a.val / 4) :: sextetChar (a.val % 4 * 16 + b.val / 16) ::
      sextetChar (b.val % 16 * 4 + c.val / 64) :: sextetChar (c.val % 64) :: encode s

def decode : Text → Option Bytes
  | [] => some []
  | w :: x :: y :: z :: s =>
    match sextet w, sextet x, sextet y, sextet z with
    | some a, some b, some c, some d =>
      (decode s).map fun t =>
        octet (a * 4 + b / 16) :: octet (b % 16 * 16 + c / 4) :: octet (c % 4 * 64 + d) :: t
    | some a, some b, some c, none =>
      if z = pad ∧ s = [] then some [octet (a * 4 + b / 16), octet (b % 16 * 16 + c / 4)] else none
    | some a, some b, none, none =>
      if y = pad ∧ z = pad ∧ s = [] then some [octet (a * 4 + b / 16)] else none
    | _, _, _, _ => none
  | _ => none

theorem decode_encode (b : Bytes) : decode (encode b) = some b := by
  fun_induction encode b with
  | case1 => rfl
  | case2 a =>
    have ha := a.isLt
    rw [decode]
    simp only [sextet_sextetChar (by omega : a.val / 4 < 64),
      sextet_sextetChar (by omega : a.val % 4 * 16 < 64), sextet_pad, and_self, if_true]
    rw [octet_eq (b := a) (by omega)]
  | case3 a b =>
    have ha := a.isLt
    have hb := b.isLt
    rw [decode]
    simp only [sextet_sextetChar (by omega : a.val / 4 < 64),
      sextet_sextetChar (by omega : a.val % 4 * 16 + b.val / 16 < 64),
      sextet_sextetChar (by omega : b.val % 16 * 4 < 64), sextet_pad, and_self, if_true]
    rw [octet_eq (b := a) (by omega), octet_eq (b := b) (by omega)]
  | case4 a b c s ih =>
    have ha := a.isLt
    have hb := b.isLt
    have hc := c.isLt
    rw [decode]
    simp only [sextet_sextetChar (by omega : a.val / 4 < 64),
      sextet_sextetChar (by omega : a.val % 4 * 16 + b.val / 16 < 64),
      sextet_sextetChar (by omega : b.val % 16 * 4 + c.val / 64 < 64),
      sextet_sextetChar (by omega : c.val % 64 < 64), ih, Option.map_some]
    rw [octet_eq (b := a) (by omega), octet_eq (b := b) (by omega), octet_eq (b := c) (by omega)]

/-- Every character is printable ASCII that a JSON string carries unescaped. -/
theorem encode_ascii (b : Bytes) : ∀ c ∈ encode b, 0x20 < c ∧ c < 0x80 ∧ c ≠ 0x22 ∧ c ≠ 0x5c := by
  have hpad : 0x20 < pad ∧ pad < 0x80 ∧ pad ≠ 0x22 ∧ pad ≠ 0x5c := by decide
  fun_induction encode b with
  | case1 => simp
  | case2 a => simp only [List.forall_mem_cons]; simp [sextetChar_ascii, hpad]
  | case3 a b => simp only [List.forall_mem_cons]; simp [sextetChar_ascii, hpad]
  | case4 a b c s ih =>
    simp only [List.forall_mem_cons]
    exact ⟨sextetChar_ascii _, sextetChar_ascii _, sextetChar_ascii _, sextetChar_ascii _, ih⟩

end GetBibleSword.Lib.Base64
