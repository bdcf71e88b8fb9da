import GetBibleSword.Core.ByteValue

/-!
# The UTF-8 acceptor, by index

`is_valid_utf8` of `src/byte_value.cpp` reads its span by position. Here a read outside the span and
a loop that is still running are faults of their own:

* `readAt`, `continuationAt`, `utf8Loop` : the loops with their indexes;
* `utf8Loop_eq` : from any index there is no fault, and the answer is that of `isValidUtf8From` on
  what is left;
* `utf8_acceptance_exact` : the answer is the standard's.
-/

namespace GetBibleSword.Core
open GetBibleSword.Lib

inductive LoopFault where
  /-- A read at or behind `bytes.size()`. -/
  | outOfBounds (index : Nat)
  /-- More rounds were needed. -/
  | unfinished
deriving DecidableEq

/-- `bytes[index]`. -/
def readAt (bytes : Bytes) (index : Nat) : Except LoopFault Byte :=
  match bytes[index]? with
  | some byte => .ok byte
  | none => .error (.outOfBounds index)

/-- The loop over `offset`, with `remaining` rounds to go; `none` is its `return false`. -/
def continuationAt (bytes : Bytes) (index : Nat) : Nat → Nat → Nat → Except LoopFault (Option Nat)
  | 0, _, codePoint => .ok (some codePoint)
  | remaining + 1, offset, codePoint => do
    let next ← readAt bytes (index + offset)
    if next.val &&& 0xc0 ≠ 0x80 then pure none
    else continuationAt bytes index remaining (offset + 1) ((codePoint <<< 6) ||| (next.val &&& 0x3f))

/-- The loop over `index`; `fuel` bounds the number of rounds. -/
def utf8Loop (bytes : Bytes) : Nat → Nat → Except LoopFault Bool
  | 0, index => if index < bytes.length then .error .unfinished else .ok true
  | fuel + 1, index =>
    if index < bytes.length then do
      let lead ← readAt bytes index
      if lead.val ≤ 0x7f then utf8Loop bytes fuel (index + 1)
      else
        match leadClass lead with
        | none => pure false
        | some (continuationCount, codePoint, minimum) =>
          if index + continuationCount ≥ bytes.length then pure false
          else
            match ← continuationAt bytes index continuationCount 1 codePoint with
            | none => pure false
            | some codePoint =>
              if codePoint < minimum ∨ codePoint > 0x10ffff ∨ (codePoint ≥ 0xd800 ∧ codePoint ≤ 0xdfff)
              then pure false
              else utf8Loop bytes fuel (index + (continuationCount + 1))
    else .ok true

theorem readAt_eq {bytes : Bytes} {index : Nat} (h : index < bytes.length) :
    readAt bytes index = .ok bytes[index] := by
  rw [readAt, List.getElem?_eq_getElem h]

/-- The continuation octets are read at their positions, and what follows them is at the next. -/
theorem continuationAt_eq (bytes : Bytes) (index : Nat) : ∀ remaining offset codePoint : Nat,
    index + offset + remaining ≤ bytes.length →
    continuationAt bytes index remaining offset codePoint =
        .ok ((continuation remaining codePoint (bytes.drop (index + offset))).map Prod.fst) ∧
      ∀ value rest, continuation remaining codePoint (bytes.drop (index + offset)) = some (value, rest) →
        rest = bytes.drop (index + offset + remaining) := by
  intro remaining
  induction remaining with
  | zero =>
    intro offset codePoint _
    refine ⟨rfl, fun value rest h => ?_⟩
    rw [continuation, Option.some.injEq, Prod.mk.injEq] at h
    exact h.2.symm
  | succ remaining ih =>
    intro offset codePoint h
    have hlt : index + offset < bytes.length := by omega
    obtain ⟨hread, hrest⟩ := ih (offset + 1)
      ((codePoint <<< 6) ||| (bytes[index + offset].val &&& 0x3f)) (by omega)
    rw [continuationAt, readAt_eq hlt, List.drop_eq_getElem_cons hlt, continuation]
    by_cases hmask : bytes[index + offset].val &&& 0xc0 ≠ 0x80
    · rw [if_pos hmask]
      constructor
      · show (if _ then _ else _) = _
        rw [if_pos hmask]
        rfl
      · intro value rest hc
        cases hc
    · rw [if_neg hmask]
      constructor
      · show (if _ then _ else _) = _
        rw [if_neg hmask]
        exact hread
      · intro value rest hc
        rw [hrest value rest hc]
        congr 1
        omega

/-- No read is outside the span, and the answer is that of the acceptor on what is left. -/
theorem utf8Loop_eq (bytes : Bytes) (fuel : Nat) : ∀ index : Nat, bytes.length - index ≤ fuel →
    utf8Loop bytes fuel index = .ok (isValidUtf8From fuel (bytes.drop index)) := by
  induction fuel with
  | zero =>
    intro index h
    rw [utf8Loop, if_neg (by omega), List.drop_of_length_le (by omega)]
    rfl
  | succ fuel ih =>
    intro index h
    rw [utf8Loop]
    by_cases hlt : index < bytes.length
    · have hlen : (bytes.drop (index + 1)).length = bytes.length - (index + 1) := List.length_drop
      rw [if_pos hlt, readAt_eq hlt, List.drop_eq_getElem_cons hlt, isValidUtf8From]
      show (if _ then _ else _) = _
      by_cases hascii : bytes[index].val ≤ 0x7f
      · rw [if_pos hascii, if_pos hascii]
        exact ih (index + 1) (by omega)
      rw [if_neg hascii, if_neg hascii]
      cases hclass : leadClass bytes[index] with
      | none => rfl
      | some c =>
        obtain ⟨continuationCount, codePoint, minimum⟩ := c
        dsimp only
        by_cases hshort : index + continuationCount ≥ bytes.length
        · rw [if_pos hshort, if_pos (by omega)]
          rfl
        rw [if_neg hshort, if_neg (by omega)]
        obtain ⟨hread, hrest⟩ := continuationAt_eq bytes index continuationCount 1 codePoint (by omega)
        rw [hread]
        cases hc : continuation continuationCount codePoint (bytes.drop (index + 1)) with
        | none => rfl
        | some p =>
          obtain ⟨value, rest⟩ := p
          obtain rfl := hrest value rest hc
          show (if _ then _ else _) = Except.ok (if _ then _ else _)
          split_ifs with hrange
          · rfl
          · rw [ih _ (by omega)]
            congr 3
            omega
    · rw [if_neg hlt, List.drop_of_length_le (by omega)]
      rfl

/-- The acceptor returns within as many rounds as there are octets, reads none behind the last, and
answers whether the string is the UTF-8 encoding of scalar values. -/
theorem utf8_acceptance_exact (bytes : Bytes) : ∃ answer : Bool,
    (∀ fuel ≥ bytes.length, utf8Loop bytes fuel 0 = .ok answer) ∧
      (answer = true ↔ ∃ t : Text, (∀ c ∈ t, Utf8.IsScalar c) ∧ bytes = Utf8.encode t) := by
  refine ⟨(Utf8.decode bytes).isSome, fun fuel h => ?_, ?_⟩
  · rw [utf8Loop_eq bytes fuel 0 (by omega), List.drop_zero, isValidUtf8From_eq fuel bytes h]
  · rw [Option.isSome_iff_exists]
    refine exists_congr fun t => ?_
    rw [Utf8.decode_eq_some, and_comm]

end GetBibleSword.Core
