import GetBibleSword.Lib.Sha256

/-!
# The streaming SHA-256 of the core library

* `Sha256`, `update`, `finalize`, `hexDigest` : the class of `src/sha256.cpp`; `buffer_` is kept to
  its first `buffer_size_` octets, the only ones ever read;
* `transform_eq` : one block is the FIPS 180-4 compression function;
* `Absorbed h m` : the object has taken the message `m`, in whatever pieces (`absorbed_update`);
  then its digest is that of `m` (`Absorbed.hexDigest`).
-/

namespace GetBibleSword.Core
open GetBibleSword.Lib GetBibleSword.Lib.Sha256 GetBibleSword.Lib.Sha256.Word

def roundConstants : List Word :=
  [0x428a2f98, 0x71374491, 0xb5c0fbcf, 0xe9b5dba5, 0x3956c25b, 0x59f111f1,
    0x923f82a4, 0xab1c5ed5, 0xd807aa98, 0x12835b01, 0x243185be, 0x550c7dc3,
    0x72be5d74, 0x80deb1fe, 0x9bdc06a7, 0xc19bf174, 0xe49b69c1, 0xefbe4786,
    0x0fc19dc6, 0x240ca1cc, 0x2de92c6f, 0x4a7484aa, 0x5cb0a9dc, 0x76f988da,
    0x983e5152, 0xa831c66d, 0xb00327c8, 0xbf597fc7, 0xc6e00bf3, 0xd5a79147,
    0x06ca6351, 0x14292967, 0x27b70a85, 0x2e1b2138, 0x4d2c6dfc, 0x53380d13,
    0x650a7354, 0x766a0abb, 0x81c2c92e, 0x92722c85, 0xa2bfe8a1, 0xa81a664b,
    0xc24b8b70, 0xc76c51a3, 0xd192e819, 0xd6990624, 0xf40e3585, 0x106aa070,
    0x19a4c116, 0x1e376c08, 0x2748774c, 0x34b0bcb5, 0x391c0cb3, 0x4ed8aa4a,
    0x5b9cca4f, 0x682e6ff3, 0x748f82ee, 0x78a5636f, 0x84c87814, 0x8cc70208,
    0x90befffa, 0xa4506ceb, 0xbef9a3f7, 0xc67178f2]

def rotateRight (value : Word) (count : Nat) : Word := lor (shr value count) (shl value (Nat.sub 32 count))

structure Sha256 where
  state : Words8
  buffer : Bytes
  totalBytes : BitVec 64
deriving DecidableEq

def Sha256.new : Sha256 where
  state := ⟨0x6a09e667, 0xbb67ae85, 0x3c6ef372, 0xa54ff53a, 0x510e527f, 0x9b05688c, 0x1f83d9ab, 0x5be0cd19⟩
  buffer := []
  totalBytes := 0

/-! ## `transform` -/

/-- The first sixteen words, big endian. -/
def blockWords : Bytes → List Word
  | a :: b :: c :: d :: rest =>
    lor (lor (lor (shl a.val 24) (shl b.val 16)) (shl c.val 8)) d.val :: blockWords rest
  | _ => []

/-- `n` further words behind those already computed. -/
def expandWords : Nat → List Word → List Word
  | 0, words => words
  | n + 1, words =>
    let i := words.length
    let word15 := words.getD (i - 15) 0
    let word2 := words.getD (i - 2) 0
    let s0 := lxor (lxor (rotateRight word15 7) (rotateRight word15 18)) (shr word15 3)
    let s1 := lxor (lxor (rotateRight word2 17) (rotateRight word2 19)) (shr word2 10)
    expandWords n (words ++ [add (add (add (words.getD (i - 16) 0) s0) (words.getD (i - 7) 0)) s1])

def transformRound (v : Words8) (constant word : Word) : Words8 :=
  let sum1 := lxor (lxor (rotateRight v.e 6) (rotateRight v.e 11)) (rotateRight v.e 25)
  let choice := lxor (land v.e v.f) (land (lnot v.e) v.g)
  let temporary1 := add (add (add (add v.h sum1) choice) constant) word
  let sum0 := lxor (lxor (rotateRight v.a 2) (rotateRight v.a 13)) (rotateRight v.a 22)
  let majority := lxor (lxor (land v.a v.b) (land v.a v.c)) (land v.b v.c)
  let temporary2 := add sum0 majority
  { a := add temporary1 temporary2, b := v.a, c := v.b, d := v.c,
    e := add v.d temporary1, f := v.e, g := v.f, h := v.g }

def transform (state : Words8) (block : Bytes) : Words8 :=
  let words := expandWords 48 (blockWords block)
  let v := (roundConstants.zip words).foldl (fun v kw => transformRound v kw.1 kw.2) state
  { a := add state.a v.a, b := add state.b v.b, c := add state.c v.c, d := add state.d v.d,
    e := add state.e v.e, f := add state.f v.f, g := add state.g v.g, h := add state.h v.h }

/-! ## `update` and `finalize` -/

/-- The loop over whole blocks of the data; `fuel` is the length of the data. -/
def updateBlocks : Nat → Words8 → Bytes → Words8 × Bytes
  | 0, state, data => (state, data)
  | fuel + 1, state, data =>
    if 64 ≤ data.length then updateBlocks fuel (transform state (data.take 64)) (data.drop 64)
    else (state, data)

/-- Whole blocks, then what is left goes to the buffer. -/
def Sha256.updateTail (state : Words8) (buffer : Bytes) (totalBytes : BitVec 64) (data : Bytes) : Sha256 :=
  let p := updateBlocks data.length state data
  { state := p.1, buffer := if p.2 = [] then buffer else p.2, totalBytes := totalBytes }

def Sha256.update (h : Sha256) (data : Bytes) : Sha256 :=
  if data = [] then h
  else
    let totalBytes := h.totalBytes + BitVec.ofNat 64 data.length
    if h.buffer.length ≠ 0 then
      let count := min (64 - h.buffer.length) data.length
      let buffer := h.buffer ++ data.take count
      if buffer.length = 64 then
        updateTail (transform h.state buffer) [] totalBytes (data.drop count)
      else updateTail h.state buffer totalBytes (data.drop count)
    else updateTail h.state h.buffer totalBytes data

/-- `count` zero octets behind `buffer`. -/
def fillZero (buffer : Bytes) (size : Nat) : Bytes :=
  buffer ++ List.replicate (size - buffer.length) (octet 0)

def Sha256.finalize (h : Sha256) : Bytes :=
  let messageBits := h.totalBytes * 8
  let buffer := h.buffer ++ [octet 0x80]
  let lengthBytes := [octet (messageBits >>> 56).toNat, octet (messageBits >>> 48).toNat,
    octet (messageBits >>> 40).toNat, octet (messageBits >>> 32).toNat,
    octet (messageBits >>> 24).toNat, octet (messageBits >>> 16).toNat,
    octet (messageBits >>> 8).toNat, octet messageBits.toNat]
  let p := if 56 < buffer.length then (transform h.state (fillZero buffer 64), []) else (h.state, buffer)
  (transform p.1 (fillZero p.2 56 ++ lengthBytes)).bytes

def Sha256.digest (h : Sha256) : Bytes := h.finalize

/-- `hex_digest`: two lowercase digits an octet, as ASCII. -/
def Sha256.hexDigest (h : Sha256) : Bytes := (hex h.digest).map octet

def sha256Hex (data : Bytes) : Bytes := (Sha256.new.update data).hexDigest

/-! ## One block -/

theorem roundConstants_eq : roundConstants = constants := rfl

theorem shl_byte {x k : Nat} (h : x * 2 ^ k < 0x100000000) : shl x k = 2 ^ k * x := by
  show x <<< k % 0x100000000 = _
  rw [Nat.shiftLeft_eq, Nat.mod_eq_of_lt h, Nat.mul_comm]

theorem beWord_eq (a b c d : Byte) :
    lor (lor (lor (shl a.val 24) (shl b.val 16)) (shl c.val 8)) d.val = beWord a b c d := by
  have ha := a.isLt
  have hb := b.isLt
  have hc := c.isLt
  have hd := d.isLt
  rw [shl_byte (by omega), shl_byte (by omega), shl_byte (by omega)]
  show 2 ^ 24 * a.val ||| 2 ^ 16 * b.val ||| 2 ^ 8 * c.val ||| d.val =
    a.val * 0x1000000 + b.val * 0x10000 + c.val * 0x100 + d.val
  rw [← Nat.two_pow_add_eq_or_of_lt (by omega : 2 ^ 16 * b.val < 2 ^ 24)]
  rw [show 2 ^ 24 * a.val + 2 ^ 16 * b.val = 2 ^ 16 * (2 ^ 8 * a.val + b.val) by omega,
    ← Nat.two_pow_add_eq_or_of_lt (by omega : 2 ^ 8 * c.val < 2 ^ 16),
    show 2 ^ 16 * (2 ^ 8 * a.val + b.val) + 2 ^ 8 * c.val =
      2 ^ 8 * (2 ^ 16 * a.val + 2 ^ 8 * b.val + c.val) by omega,
    ← Nat.two_pow_add_eq_or_of_lt (by omega : d.val < 2 ^ 8)]
  omega

theorem blockWords_eq (block : Bytes) : blockWords block = beWords block := by
  fun_induction blockWords block with
  | case1 a b c d rest ih => rw [beWords, beWord_eq, ih]
  | case2 block h =>
    unfold beWords
    split
    · rename_i a b c d rest
      exact absurd rfl (h a b c d rest)
    · rfl

theorem length_blockWords (n : Nat) : ∀ {block : Bytes}, block.length = 4 * n →
    (blockWords block).length = n := by
  induction n with
  | zero =>
    intro block h
    obtain rfl := List.length_eq_zero_iff.mp h
    rfl
  | succ n ih =>
    intro block h
    obtain ⟨a, b, c, d, rest, rfl⟩ : ∃ a b c d rest, block = a :: b :: c :: d :: rest := by
      match block, h with
      | a :: b :: c :: d :: rest, _ => exact ⟨a, b, c, d, rest, rfl⟩
    rw [blockWords, List.length_cons, ih (by simpa [Nat.mul_succ] using h)]

theorem getD_reverse {words : List Word} {k : Nat} (h : k < words.length) :
    words.getD (words.length - (k + 1)) 0 = words.reverse.getD k 0 := by
  rw [List.getD_eq_getElem?_getD, List.getD_eq_getElem?_getD, List.getElem?_reverse h, Nat.sub_sub,
    Nat.add_comm 1 k]

theorem sum_swap (w x y z : Nat) : add (add (add w x) y) z = add (add (add z y) x) w := by
  have h : (((w + x) % 0x100000000 + y) % 0x100000000 + z) % 0x100000000 =
      (((z + y) % 0x100000000 + x) % 0x100000000 + w) % 0x100000000 := by omega
  exact h

/-- The array the source fills from the left, read from its end. -/
theorem expandWords_eq (n : Nat) : ∀ {words : List Word}, 16 ≤ words.length →
    expandWords n words = (extend n words.reverse).reverse := by
  induction n with
  | zero => intro words _; exact words.reverse_reverse.symm
  | succ n ih =>
    intro words h
    rw [expandWords, extend, ih (by rw [List.length_append]; omega), List.reverse_append]
    simp only [getD_reverse (show 14 < words.length by omega), getD_reverse (show 15 < words.length by omega),
      getD_reverse (show 1 < words.length by omega), getD_reverse (show 6 < words.length by omega)]
    rw [List.reverse_singleton, List.singleton_append, sum_swap]
    rfl

theorem transformRound_eq (v : Words8) (constant word : Word) :
    transformRound v constant word = round v constant word := rfl

/-- `transform` is the compression function. -/
theorem transform_eq (state : Words8) {block : Bytes} (h : block.length = 64) :
    transform state block = compress state block := by
  have hwords : (beWords block).length = 16 := by rw [← blockWords_eq, length_blockWords 16 h]
  simp only [transform, compress, schedule, blockWords_eq, expandWords_eq 48 (Nat.le_of_eq hwords.symm),
    transformRound_eq, roundConstants_eq, Words8.add]

/-! ## The whole message -/

/-- The object after the octets of `m`, however they were cut into updates. -/
structure Absorbed (h : Sha256) (m : Bytes) : Prop where
  state : h.state = absorb compress (m.length / 64) initial m
  buffer : h.buffer = m.drop (64 * (m.length / 64))
  total : h.totalBytes = BitVec.ofNat 64 m.length

theorem absorbed_new : Absorbed Sha256.new [] := ⟨rfl, rfl, rfl⟩

theorem updateBlocks_eq (fuel : Nat) : ∀ (state : Words8) (data : Bytes), data.length ≤ fuel →
    updateBlocks fuel state data =
      (absorb compress (data.length / 64) state data, data.drop (64 * (data.length / 64))) := by
  induction fuel with
  | zero =>
    intro state data h
    obtain rfl := List.length_eq_zero_iff.mp (Nat.le_zero.mp h)
    rfl
  | succ fuel ih =>
    intro state data h
    rw [updateBlocks]
    split
    · rename_i hlen
      have hq : data.length / 64 = (data.length - 64) / 64 + 1 := by omega
      rw [ih _ _ (by rw [List.length_drop]; omega), List.length_drop, hq, absorb, List.drop_drop,
        transform_eq _ (by rw [List.length_take]; omega), Nat.mul_succ, Nat.add_comm 64]
    · rename_i hlen
      rw [Nat.div_eq_of_lt (by omega)]
      rfl

/-- The tail of an update, once the message so far ends at a block boundary. -/
theorem absorbed_updateTail {state : Words8} {m data : Bytes} {q : Nat} {total : BitVec 64}
    (hm : m.length = 64 * q) (hs : state = absorb compress q initial m)
    (ht : total = BitVec.ofNat 64 (m ++ data).length) :
    Absorbed (Sha256.updateTail state [] total data) (m ++ data) := by
  have hq : (m ++ data).length / 64 = q + data.length / 64 := by
    rw [List.length_append, hm]
    omega
  have hdrop : (m ++ data).drop (64 * (q + data.length / 64)) = data.drop (64 * (data.length / 64)) := by
    rw [Nat.mul_add, ← hm, List.drop_append]
    simp
  refine ⟨?_, ?_, ht⟩
  · rw [Sha256.updateTail, updateBlocks_eq _ _ _ (Nat.le_refl _), hs, hq]
    exact absorb_append_blocks compress initial m data q _ hm
  · rw [Sha256.updateTail, updateBlocks_eq _ _ _ (Nat.le_refl _), hq, hdrop]
    dsimp only
    split
    · rename_i he
      exact he.symm
    · rfl

/-- An update takes its data, whatever is already in the buffer. -/
theorem absorbed_update {h : Sha256} {m : Bytes} (hm : Absorbed h m) (data : Bytes) :
    Absorbed (h.update data) (m ++ data) := by
  have hblen : h.buffer.length = m.length % 64 := by
    rw [hm.buffer, List.length_drop]
    omega
  have htotal : h.totalBytes + BitVec.ofNat 64 data.length = BitVec.ofNat 64 (m ++ data).length := by
    rw [hm.total, List.length_append, BitVec.ofNat_add]
  rw [Sha256.update]
  split_ifs with hd h0
  · simpa [hd] using hm
  · dsimp only
    split_ifs with hfull
    · -- the buffer fills up: one more block, then the rest of the data
      have hcount : min (64 - h.buffer.length) data.length = 64 - h.buffer.length := by
        rw [List.length_append, List.length_take] at hfull
        omega
      have hle : 64 - h.buffer.length ≤ data.length := by omega
      rw [hcount]
      have hsplit : m ++ data = (m ++ data.take (64 - h.buffer.length)) ++
          data.drop (64 - h.buffer.length) := by
        rw [List.append_assoc, List.take_append_drop]
      have hlen : (m ++ data.take (64 - h.buffer.length)).length = 64 * (m.length / 64 + 1) := by
        rw [List.length_append, List.length_take]
        omega
      rw [hsplit] at htotal ⊢
      refine absorbed_updateTail hlen ?_ htotal
      have hblock : (m ++ data.take (64 - h.buffer.length)).drop (64 * (m.length / 64)) =
          h.buffer ++ data.take (64 - h.buffer.length) := by
        rw [List.drop_append_of_le_length (by omega), ← hm.buffer]
      have hwhole : (h.buffer ++ data.take (64 - h.buffer.length)).take 64 =
          h.buffer ++ data.take (64 - h.buffer.length) :=
        List.take_of_length_le (by rw [List.length_append, List.length_take]; omega)
      have hblen64 : (h.buffer ++ data.take (64 - h.buffer.length)).length = 64 := by
        rw [List.length_append, List.length_take]
        omega
      rw [absorb_add, hblock, absorb_append compress (m.length / 64) initial m _ (by omega), ← hm.state,
        transform_eq _ hblen64, absorb, absorb, hwhole]
    · -- the data ends inside the buffer
      have hshort : data.length < 64 - h.buffer.length := by
        rw [List.length_append, List.length_take] at hfull
        omega
      have hcount : min (64 - h.buffer.length) data.length = data.length := by omega
      have hq : (m ++ data).length / 64 = m.length / 64 := by
        rw [List.length_append]
        omega
      rw [hcount, List.take_length, List.drop_length]
      refine ⟨?_, ?_, htotal⟩
      · rw [hq, absorb_append _ _ _ _ _ (by omega), ← hm.state]
        rfl
      · rw [hq, List.drop_append_of_le_length (by omega), ← hm.buffer]
        rfl
  · have hnil : h.buffer = [] := List.length_eq_zero_iff.mp (by omega)
    rw [hnil]
    exact absorbed_updateTail (q := m.length / 64) (by omega) hm.state htotal

theorem octet_shiftRight (n k : Nat) (hk : k ≤ 56) :
    octet ((BitVec.ofNat 64 n * 8) >>> k).toNat = octet (8 * n / 2 ^ k) := by
  apply Fin.ext
  have h64 : (2 : Nat) ^ 64 = 2 ^ k * 2 ^ (64 - k) := by
    rw [← Nat.pow_add, Nat.add_sub_cancel' (by omega)]
  have hdvd : 256 ∣ 2 ^ (64 - k) := Nat.pow_dvd_pow 2 (by omega : 8 ≤ 64 - k)
  rw [octet_val, octet_val, BitVec.toNat_ushiftRight, Nat.shiftRight_eq_div_pow, BitVec.toNat_mul,
    BitVec.toNat_ofNat, show BitVec.toNat (8 : BitVec 64) = 8 from rfl, Nat.mod_mul_mod,
    Nat.mul_comm n 8, h64, Nat.mod_mul_right_div_self]
  exact Nat.mod_mod_of_dvd _ hdvd

/-- The eight octets `finalize` writes last are the length field of the padding. -/
theorem lengthBytes_eq (n : Nat) :
    let messageBits := BitVec.ofNat 64 n * 8
    [octet (messageBits >>> 56).toNat, octet (messageBits >>> 48).toNat,
      octet (messageBits >>> 40).toNat, octet (messageBits >>> 32).toNat,
      octet (messageBits >>> 24).toNat, octet (messageBits >>> 16).toNat,
      octet (messageBits >>> 8).toNat, octet messageBits.toNat] = lengthField n := by
  have h0 := octet_shiftRight n 0 (by omega)
  rw [BitVec.ushiftRight_zero, Nat.pow_zero, Nat.div_one] at h0
  simp only [octet_shiftRight, h0, lengthField, Nat.reduceLeDiff]

/-- Blocks of a padded message behind the ones already absorbed. -/
theorem Absorbed.hash_eq {h : Sha256} {m : Bytes} (hm : Absorbed h m) :
    Lib.Sha256.hash m =
      (absorb compress ((h.buffer ++ padding m.length).length / 64) h.state
        (h.buffer ++ padding m.length)).bytes := by
  have hdrop : (m ++ padding m.length).drop (64 * (m.length / 64)) = h.buffer ++ padding m.length := by
    rw [List.drop_append_of_le_length (by omega), hm.buffer]
  have hlen : (m ++ padding m.length).length / 64 =
      m.length / 64 + (h.buffer ++ padding m.length).length / 64 := by
    rw [← hdrop, List.length_drop, List.length_append]
    omega
  rw [Lib.Sha256.hash]
  rw [hlen, absorb_add, hdrop, absorb_append compress (m.length / 64) initial m _ (by omega), hm.state]

/-- The digest of a live object is the digest of everything it has taken. -/
theorem Absorbed.digest {h : Sha256} {m : Bytes} (hm : Absorbed h m) :
    h.digest = Lib.Sha256.hash m := by
  have hblen : h.buffer.length = m.length % 64 := by
    rw [hm.buffer, List.length_drop]
    omega
  have hfield : (lengthField m.length).length = 8 := rfl
  rw [hm.hash_eq, Sha256.digest, Sha256.finalize, hm.total]
  simp only [lengthBytes_eq]
  split_ifs with hlong
  · -- the one bit leaves no room for the length: one block of zeros, one for the length
    rw [List.length_append, List.length_singleton] at hlong
    have hzeros : (119 - m.length % 64) % 64 = (63 - m.length % 64) + 56 := by omega
    have hfirst : fillZero (h.buffer ++ [octet 0x80]) 64 =
        h.buffer ++ octet 0x80 :: List.replicate (63 - m.length % 64) (octet 0) := by
      rw [fillZero, List.length_append, hblen, List.length_singleton, List.append_assoc,
        show 64 - (m.length % 64 + 1) = 63 - m.length % 64 by omega]
      rfl
    have hpad : h.buffer ++ padding m.length = fillZero (h.buffer ++ [octet 0x80]) 64 ++
        (fillZero [] 56 ++ lengthField m.length) := by
      rw [hfirst, padding, hzeros, List.replicate_add, fillZero]
      simp
    have hlen : (fillZero (h.buffer ++ [octet 0x80]) 64).length = 64 := by
      rw [hfirst]
      simp only [List.length_append, List.length_cons, List.length_replicate]
      omega
    have hlast : (fillZero [] 56 ++ lengthField m.length).length = 64 := rfl
    rw [hpad, List.length_append, hlen, hlast, show (64 + 64) / 64 = 2 from rfl, absorb, absorb, absorb,
      List.take_append_of_le_length (by omega), List.take_of_length_le (by omega),
      List.drop_append_of_le_length (by omega), List.drop_of_length_le (by omega), List.nil_append,
      List.take_of_length_le (by omega), transform_eq _ hlen, transform_eq _ hlast]
  · rw [List.length_append, List.length_singleton] at hlong
    have hzeros : (119 - m.length % 64) % 64 = 56 - (m.length % 64 + 1) := by omega
    have hpad : h.buffer ++ padding m.length =
        fillZero (h.buffer ++ [octet 0x80]) 56 ++ lengthField m.length := by
      rw [padding, hzeros, fillZero, List.length_append, hblen]
      simp
    have hlen : (fillZero (h.buffer ++ [octet 0x80]) 56 ++ lengthField m.length).length = 64 := by
      rw [fillZero]
      simp only [List.length_append, List.length_cons, List.length_replicate, List.length_nil]
      omega
    rw [hpad, hlen, show 64 / 64 = 1 from rfl, absorb, absorb, List.take_of_length_le (by omega),
      transform_eq _ hlen]

theorem Absorbed.hexDigest {h : Sha256} {m : Bytes} (hm : Absorbed h m) :
    h.hexDigest = (hexdigest m).map octet := by
  rw [Sha256.hexDigest, hm.digest, hexdigest]

/-- `sha256_hex` is the FIPS 180-4 digest in lowercase hexadecimal. -/
theorem sha256Hex_eq (data : Bytes) : sha256Hex data = (hexdigest data).map octet := by
  have h := absorbed_update absorbed_new data
  rw [List.nil_append] at h
  rw [sha256Hex, h.hexDigest]

end GetBibleSword.Core
