import Mathlib

/-!
# Bytes, code points and decimal text

* `Byte`, `Bytes` : octets; `Text` : a string of code points (lone surrogates included);
* `octet` : a number as an octet; `ascii`, `text` : a literal as octets and as code points;
* `decimal` : a natural number in decimal, most significant digit first (`digitsValue_decimal`,
  `decimal_digit`, `decimal_head`).
-/

namespace GetBibleSword.Lib

abbrev Byte := Fin 256

abbrev Bytes := List Byte

/-- Code points. Nothing excludes a surrogate: a JSON escape can name one on its own. -/
abbrev Text := List Nat

/-- The octet with value `n`, reduced modulo `256`. -/
def octet (n : Nat) : Byte := ⟨n % 256, Nat.mod_lt _ (by decide)⟩

@[simp] theorem octet_val (n : Nat) : (octet n).val = n % 256 := rfl

theorem octet_eq {b : Byte} {n : Nat} (h : n = b.val) : octet n = b := by
  have hb := b.isLt
  exact Fin.ext (by rw [octet_val]; omega)

@[simp] theorem octet_val_self (b : Byte) : octet b.val = b := octet_eq rfl

/-- An ASCII literal as octets. -/
def ascii (s : String) : Bytes := s.toByteArray.data.toList.map fun b => octet b.toNat

/-- An ASCII literal as code points, which are its octets. -/
def text (s : String) : Text := s.toByteArray.data.toList.map UInt8.toNat

@[simp] theorem text_inj {s t : String} : text s = text t ↔ s = t := by
  refine ⟨fun h => ?_, fun h => h ▸ rfl⟩
  have hinj : Function.Injective UInt8.toNat := fun a b hab => UInt8.toNat_inj.mp hab
  have hlist := List.map_injective_iff.mpr hinj h
  exact String.toByteArray_inj.mp (ByteArray.ext (Array.toList_inj.mp hlist))

/-- Octets as code points, one for one. -/
def latin1 (b : Bytes) : Text := b.map Fin.val

/-! ## Decimal -/

def isDigit (c : Nat) : Bool := decide (0x30 ≤ c) && decide (c ≤ 0x39)

/-- The digits of `n` in front of `acc`; `fuel` bounds their number. -/
def decimalAux : Nat → Nat → List Nat → List Nat
  | 0, _, acc => acc
  | fuel + 1, n, acc =>
    if n < 10 then (0x30 + n) :: acc else decimalAux fuel (n / 10) ((0x30 + n % 10) :: acc)

/-- Decimal digits of `n`, as code points. -/
def decimalText (n : Nat) : Text := decimalAux (n + 1) n []

/-- `std::to_string` of an unsigned number. -/
def decimal (n : Nat) : Bytes := (decimalText n).map octet

def digitsValue (ds : List Nat) : Nat := ds.foldl (fun v c => 10 * v + (c - 0x30)) 0

theorem decimalAux_digit (fuel : Nat) : ∀ n acc, (∀ c ∈ acc, isDigit c = true) →
    ∀ c ∈ decimalAux fuel n acc, isDigit c = true := by
  induction fuel with
  | zero => intro n acc h; exact h
  | succ fuel ih =>
    intro n acc h
    rw [decimalAux]
    split
    · rename_i hn
      intro c hc
      rcases List.mem_cons.mp hc with rfl | hc
      · simp only [isDigit, Bool.and_eq_true, decide_eq_true_eq]; omega
      · exact h c hc
    · refine ih _ _ fun c hc => ?_
      rcases List.mem_cons.mp hc with rfl | hc
      · simp only [isDigit, Bool.and_eq_true, decide_eq_true_eq]; omega
      · exact h c hc

theorem decimalText_digit (n : Nat) : ∀ c ∈ decimalText n, isDigit c = true :=
  decimalAux_digit _ _ _ (by simp)

theorem foldl_digits_acc (ds : List Nat) : ∀ v : Nat,
    ds.foldl (fun v c => 10 * v + (c - 0x30)) v = v * 10 ^ ds.length + digitsValue ds := by
  induction ds with
  | nil => intro v; simp [digitsValue]
  | cons d ds ih =>
    intro v
    have hcons : digitsValue (d :: ds) = (d - 0x30) * 10 ^ ds.length + digitsValue ds := by
      rw [digitsValue, List.foldl_cons, ih]
      simp
    rw [hcons, List.foldl_cons, ih, List.length_cons, Nat.pow_succ, Nat.add_mul, Nat.mul_comm 10 v,
      Nat.mul_assoc, Nat.mul_comm 10, Nat.add_assoc]

theorem digitsValue_decimalAux (fuel : Nat) : ∀ n acc, n < fuel →
    digitsValue (decimalAux fuel n acc) = n * 10 ^ acc.length + digitsValue acc := by
  induction fuel with
  | zero => intro n acc h; omega
  | succ fuel ih =>
    intro n acc h
    have cons_value (d : Nat) : digitsValue ((0x30 + d) :: acc) = d * 10 ^ acc.length + digitsValue acc := by
      rw [digitsValue, List.foldl_cons, foldl_digits_acc]
      congr 2
      omega
    rw [decimalAux]
    split
    · exact cons_value n
    · rw [ih _ _ (by omega), cons_value, List.length_cons, Nat.pow_succ, ← Nat.add_assoc,
        Nat.mul_comm _ 10, ← Nat.mul_assoc, ← Nat.add_mul]
      congr 2
      omega

@[simp] theorem digitsValue_decimalText (n : Nat) : digitsValue (decimalText n) = n := by
  rw [decimalText, digitsValue_decimalAux _ _ _ (Nat.lt_succ_self n)]
  simp [digitsValue]

/-- The text starts with `0` only for `0` itself. -/
theorem decimalAux_head (fuel : Nat) : ∀ n acc, n < fuel → 0 < n →
    ∃ d ds, decimalAux fuel n acc = d :: ds ∧ 0x31 ≤ d ∧ d ≤ 0x39 := by
  induction fuel with
  | zero => intro n acc h; omega
  | succ fuel ih =>
    intro n acc h hpos
    rw [decimalAux]
    split
    · exact ⟨_, _, rfl, by omega, by omega⟩
    · exact ih _ _ (by omega) (by omega)

theorem decimalText_head {n : Nat} (h : 0 < n) :
    ∃ d ds, decimalText n = d :: ds ∧ 0x31 ≤ d ∧ d ≤ 0x39 :=
  decimalAux_head _ _ _ (Nat.lt_succ_self n) h

theorem decimalText_zero : decimalText 0 = [0x30] := rfl

theorem latin1_decimal (n : Nat) : latin1 (decimal n) = decimalText n := by
  rw [latin1, decimal, List.map_map]
  conv_rhs => rw [← List.map_id (decimalText n)]
  refine List.map_congr_left fun c hc => ?_
  have := decimalText_digit n c hc
  simp only [isDigit, Bool.and_eq_true, decide_eq_true_eq] at this
  simp only [Function.comp_apply, octet_val, id]
  omega

end GetBibleSword.Lib
