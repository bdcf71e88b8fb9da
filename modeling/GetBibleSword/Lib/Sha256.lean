import GetBibleSword.Lib.Bytes

/-!
# SHA-256 (FIPS 180-4)

* `compress` : the compression function on one 64-byte block;
* `absorb` : a fold of a step function over the first `n` blocks (`absorb_add`, `absorb_append`);
* `padding`, `hash`, `hexdigest` : the digest of a message. The length field holds the bit length
  modulo `2^64`, which is FIPS 180-4 on every message it is defined for.
-/

namespace GetBibleSword.Lib.Sha256

/-! ## Words -/

/-- A 32-bit word, a number below `2^32`. -/
abbrev Word := Nat

namespace Word

def add (x y : Word) : Word := Nat.mod (Nat.add x y) 0x100000000

def land (x y : Word) : Word := Nat.land x y

def lor (x y : Word) : Word := Nat.lor x y

def lxor (x y : Word) : Word := Nat.xor x y

def lnot (x : Word) : Word := Nat.sub 0xffffffff x

def shr (x : Word) (n : Nat) : Word := Nat.shiftRight x n

def shl (x : Word) (n : Nat) : Word := Nat.mod (Nat.shiftLeft x n) 0x100000000

def rotr (x : Word) (n : Nat) : Word := lor (shr x n) (shl x (Nat.sub 32 n))

end Word

open Word

/-- Eight words: a chaining value, and the working variables of a round. -/
@[ext] structure Words8 where
  a : Word
  b : Word
  c : Word
  d : Word
  e : Word
  f : Word
  g : Word
  h : Word
deriving DecidableEq

def ch (x y z : Word) : Word := lxor (land x y) (land (lnot x) z)

def maj (x y z : Word) : Word := lxor (lxor (land x y) (land x z)) (land y z)

def bigSigma0 (x : Word) : Word := lxor (lxor (rotr x 2) (rotr x 13)) (rotr x 22)

def bigSigma1 (x : Word) : Word := lxor (lxor (rotr x 6) (rotr x 11)) (rotr x 25)

def sigma0 (x : Word) : Word := lxor (lxor (rotr x 7) (rotr x 18)) (shr x 3)

def sigma1 (x : Word) : Word := lxor (lxor (rotr x 17) (rotr x 19)) (shr x 10)

/-- The first 32 bits of the fractional parts of the cube roots of the first 64 primes. -/
def constants : List Word :=
  [0x428a2f98, 0x71374491, 0xb5c0fbcf, 0xe9b5dba5, 0x3956c25b, 0x59f111f1, 0x923f82a4, 0xab1c5ed5,
    0xd807aa98, 0x12835b01, 0x243185be, 0x550c7dc3, 0x72be5d74, 0x80deb1fe, 0x9bdc06a7, 0xc19bf174,
    0xe49b69c1, 0xefbe4786, 0x0fc19dc6, 0x240ca1cc, 0x2de92c6f, 0x4a7484aa, 0x5cb0a9dc, 0x76f988da,
    0x983e5152, 0xa831c66d, 0xb00327c8, 0xbf597fc7, 0xc6e00bf3, 0xd5a79147, 0x06ca6351, 0x14292967,
    0x27b70a85, 0x2e1b2138, 0x4d2c6dfc, 0x53380d13, 0x650a7354, 0x766a0abb, 0x81c2c92e, 0x92722c85,
    0xa2bfe8a1, 0xa81a664b, 0xc24b8b70, 0xc76c51a3, 0xd192e819, 0xd6990624, 0xf40e3585, 0x106aa070,
    0x19a4c116, 0x1e376c08, 0x2748774c, 0x34b0bcb5, 0x391c0cb3, 0x4ed8aa4a, 0x5b9cca4f, 0x682e6ff3,
    0x748f82ee, 0x78a5636f, 0x84c87814, 0x8cc70208, 0x90befffa, 0xa4506ceb, 0xbef9a3f7, 0xc67178f2]

/-- The first 32 bits of the fractional parts of the square roots of the first eight primes. -/
def initial : Words8 :=
  ⟨0x6a09e667, 0xbb67ae85, 0x3c6ef372, 0xa54ff53a, 0x510e527f, 0x9b05688c, 0x1f83d9ab, 0x5be0cd19⟩

/-- The big-endian word of four octets. -/
def beWord (a b c d : Byte) : Word :=
  Nat.add (Nat.add (Nat.add (Nat.mul a.val 0x1000000) (Nat.mul b.val 0x10000)) (Nat.mul c.val 0x100)) d.val

def beWords : Bytes → List Word
  | a :: b :: c :: d :: s => beWord a b c d :: beWords s
  | _ => []

/-- `n` more words of the message schedule, the last word first. -/
def extend : Nat → List Word → List Word
  | 0, ws => ws
  | n + 1, ws =>
    extend n (add (add (add (sigma1 (ws.getD 1 0)) (ws.getD 6 0)) (sigma0 (ws.getD 14 0))) (ws.getD 15 0) :: ws)

def schedule (block : Bytes) : List Word := (extend 48 (beWords block).reverse).reverse

def round (s : Words8) (k w : Word) : Words8 :=
  let t1 := add (add (add (add s.h (bigSigma1 s.e)) (ch s.e s.f s.g)) k) w
  let t2 := add (bigSigma0 s.a) (maj s.a s.b s.c)
  ⟨add t1 t2, s.a, s.b, s.c, add s.d t1, s.e, s.f, s.g⟩

def Words8.add (s t : Words8) : Words8 :=
  ⟨Word.add s.a t.a, Word.add s.b t.b, Word.add s.c t.c, Word.add s.d t.d, Word.add s.e t.e,
    Word.add s.f t.f, Word.add s.g t.g, Word.add s.h t.h⟩

def compress (s : Words8) (block : Bytes) : Words8 :=
  s.add ((constants.zip (schedule block)).foldl (fun v kw => round v kw.1 kw.2) s)

/-! ## Folding over blocks -/

section Absorb
variable {σ : Type}

/-- `f` over the first `n` blocks of 64 octets. -/
def absorb (f : σ → Bytes → σ) : Nat → σ → Bytes → σ
  | 0, s, _ => s
  | n + 1, s, m => absorb f n (f s (m.take 64)) (m.drop 64)

theorem absorb_add (f : σ → Bytes → σ) (a b : Nat) : ∀ (s : σ) (m : Bytes),
    absorb f (a + b) s m = absorb f b (absorb f a s m) (m.drop (64 * a)) := by
  induction a with
  | zero => intro s m; simp [absorb]
  | succ a ih =>
    intro s m
    rw [Nat.succ_add, absorb, ih, absorb, List.drop_drop, Nat.mul_succ, Nat.add_comm 64]

/-- Only the absorbed blocks are read. -/
theorem absorb_append (f : σ → Bytes → σ) (n : Nat) : ∀ (s : σ) (m t : Bytes), 64 * n ≤ m.length →
    absorb f n s (m ++ t) = absorb f n s m := by
  induction n with
  | zero => intro s m t _; rfl
  | succ n ih =>
    intro s m t h
    rw [absorb, absorb, List.take_append_of_le_length (by omega),
      List.drop_append_of_le_length (by omega), ih _ _ _ (by rw [List.length_drop]; omega)]

/-- Blocks absorbed in two runs, the second starting where whole blocks end. -/
theorem absorb_append_blocks (f : σ → Bytes → σ) (s : σ) (x y : Bytes) (a b : Nat)
    (h : x.length = 64 * a) :
    absorb f b (absorb f a s x) y = absorb f (a + b) s (x ++ y) := by
  rw [absorb_add, absorb_append f a s x y (by omega), ← h, List.drop_left]

end Absorb

/-! ## Padding and digest -/

/-- The 64-bit big-endian length field of a message of `n` octets. -/
def lengthField (n : Nat) : Bytes :=
  [octet (8 * n / 2 ^ 56), octet (8 * n / 2 ^ 48), octet (8 * n / 2 ^ 40), octet (8 * n / 2 ^ 32),
    octet (8 * n / 2 ^ 24), octet (8 * n / 2 ^ 16), octet (8 * n / 2 ^ 8), octet (8 * n)]

/-- What follows a message of `n` octets: a one bit, the fewest zeros, the length. -/
def padding (n : Nat) : Bytes :=
  octet 0x80 :: (List.replicate ((119 - n % 64) % 64) (octet 0) ++ lengthField n)

theorem length_padding (n : Nat) : (n + (padding n).length) % 64 = 0 := by
  simp only [padding, lengthField, List.length_cons, List.length_append, List.length_replicate,
    List.length_nil]
  omega

def wordBytes (w : Word) : Bytes :=
  [octet (w / 0x1000000), octet (w / 0x10000), octet (w / 0x100), octet w]

def Words8.bytes (s : Words8) : Bytes :=
  wordBytes s.a ++ wordBytes s.b ++ wordBytes s.c ++ wordBytes s.d ++ wordBytes s.e ++ wordBytes s.f
    ++ wordBytes s.g ++ wordBytes s.h

def hash (m : Bytes) : Bytes :=
  let p := m ++ padding m.length
  (absorb compress (p.length / 64) initial p).bytes

/-- The lowercase character of a hexadecimal digit. -/
def hexDigit (v : Nat) : Nat := if v < 10 then 0x30 + v else 0x57 + v

def hex (b : Bytes) : Text := b.flatMap fun x => [hexDigit (x.val / 16), hexDigit (x.val % 16)]

def hexdigest (m : Bytes) : Text := hex (hash m)

/-! ## The digest text -/

theorem length_hash (m : Bytes) : (hash m).length = 32 := rfl

theorem hexDigit_range {v : Nat} (h : v < 16) :
    (0x30 ≤ hexDigit v ∧ hexDigit v ≤ 0x39) ∨ (0x61 ≤ hexDigit v ∧ hexDigit v ≤ 0x66) := by
  unfold hexDigit
  split <;> omega

theorem length_hex (b : Bytes) : (hex b).length = 2 * b.length := by
  induction b with
  | nil => rfl
  | cons x b ih =>
    rw [hex, List.flatMap_cons, List.length_append, ← hex, ih, List.length_cons]
    simp only [List.length_cons, List.length_nil]
    omega

@[simp] theorem length_hexdigest (m : Bytes) : (hexdigest m).length = 64 := by
  rw [hexdigest, length_hex, length_hash]

/-- A digest is written in lowercase hexadecimal. -/
theorem hex_digits (b : Bytes) : ∀ c ∈ hex b,
    (0x30 ≤ c ∧ c ≤ 0x39) ∨ (0x61 ≤ c ∧ c ≤ 0x66) := by
  intro c hc
  obtain ⟨x, -, hx⟩ := List.mem_flatMap.mp hc
  have hlt := x.isLt
  rcases List.mem_pair.mp hx with rfl | rfl
  · exact hexDigit_range (by omega)
  · exact hexDigit_range (by omega)

end GetBibleSword.Lib.Sha256
