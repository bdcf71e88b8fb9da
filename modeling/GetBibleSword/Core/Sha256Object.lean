import GetBibleSword.Core.Sha256

/-!
# The SHA-256 object with its buffer

The class of `src/sha256.cpp` with the array `buffer_` as it lies in memory, what earlier blocks left
behind included, and with `finalize` as the mutation it is.

* `copyN`, `take_copyN` : a store of a run of octets, and the front of the array after it;
* `Sha256Object`, `update`, `finalize`, `digest` : the members; `digest` finalizes a copy;
* `view` : the octets in use; `view_update`, `digest_eq` : the object refines `Sha256`;
* `streaming_sha256` : every digest taken in any sequence of calls.
-/

namespace GetBibleSword.Core
open GetBibleSword.Lib GetBibleSword.Lib.Sha256

/-! ## The array -/

abbrev Block := Fin 64 → Byte

/-- `std::copy_n(data, size, buffer + start)`; `std::fill` is a copy of equal octets. -/
def copyN (data : Bytes) (start : Nat) (buffer : Block) : Block := fun i =>
  if start ≤ i.val ∧ i.val < start + data.length then data.getD (i.val - start) (octet 0) else buffer i

/-- Up to the end of the store: the front as it was, then the data. -/
theorem take_copyN (data : Bytes) (start : Nat) (buffer : Block) (h : start + data.length ≤ 64) :
    (List.ofFn (copyN data start buffer)).take (start + data.length) =
      (List.ofFn buffer).take start ++ data := by
  have hlen : ((List.ofFn buffer).take start).length = start := by
    rw [List.length_take, List.length_ofFn]
    omega
  refine List.ext_getElem ?_ fun i h1 h2 => ?_
  · simp only [List.length_append, List.length_take, List.length_ofFn]
    omega
  · simp only [List.length_take, List.length_ofFn] at h1
    rw [List.getElem_take, List.getElem_ofFn, copyN]
    dsimp only
    by_cases hi : start ≤ i
    · rw [if_pos ⟨hi, by omega⟩, List.getElem_append_right (by omega)]
      simp only [hlen]
      rw [List.getD_eq_getElem]
    · rw [if_neg fun hr => hi hr.1, List.getElem_append_left (by omega), List.getElem_take,
        List.getElem_ofFn]

/-- A store that reaches the end leaves the front as it was, then the data. -/
theorem ofFn_copyN (data : Bytes) (start : Nat) (buffer : Block) (h : start + data.length = 64) :
    List.ofFn (copyN data start buffer) = (List.ofFn buffer).take start ++ data := by
  rw [← take_copyN data start buffer (by omega), h, List.take_of_length_le (by rw [List.length_ofFn])]

/-! ## The class -/

structure Sha256Object where
  state : Words8
  buffer : Block
  totalBytes : BitVec 64
  bufferSize : Nat

namespace Sha256Object

def new : Sha256Object where
  state := Sha256.new.state
  buffer := fun _ => octet 0
  totalBytes := 0
  bufferSize := 0

/-- Whole blocks, then what is left goes to the front of the buffer. -/
def updateTail (state : Words8) (buffer : Block) (totalBytes : BitVec 64) (data : Bytes) : Sha256Object :=
  let p := updateBlocks data.length state data
  { state := p.1
    buffer := if p.2 = [] then buffer else copyN p.2 0 buffer
    totalBytes := totalBytes
    bufferSize := p.2.length }

def update (h : Sha256Object) (data : Bytes) : Sha256Object :=
  if data = [] then h
  else
    let totalBytes := h.totalBytes + BitVec.ofNat 64 data.length
    if h.bufferSize ≠ 0 then
      let count := min (64 - h.bufferSize) data.length
      let buffer := copyN (data.take count) h.bufferSize h.buffer
      if h.bufferSize + count = 64 then
        updateTail (transform h.state (List.ofFn buffer)) buffer totalBytes (data.drop count)
      else { state := h.state, buffer := buffer, totalBytes := totalBytes, bufferSize := h.bufferSize + count }
    else updateTail h.state h.buffer totalBytes data

/-- The eight octets of the length, most significant first. -/
def lengthBytes (messageBits : BitVec 64) : Bytes :=
  [octet (messageBits >>> 56).toNat, octet (messageBits >>> 48).toNat, octet (messageBits >>> 40).toNat,
    octet (messageBits >>> 32).toNat, octet (messageBits >>> 24).toNat, octet (messageBits >>> 16).toNat,
    octet (messageBits >>> 8).toNat, octet messageBits.toNat]

/-- The digest, and the object `finalize` leaves. -/
def finalize (h : Sha256Object) : Bytes × Sha256Object :=
  let messageBits := h.totalBytes * 8
  let buffer := copyN [octet 0x80] h.bufferSize h.buffer
  let size := h.bufferSize + 1
  let p :=
    if 56 < size then
      let buffer := copyN (List.replicate (64 - size) (octet 0)) size buffer
      (transform h.state (List.ofFn buffer), buffer, 0)
    else (h.state, buffer, size)
  let buffer := copyN (List.replicate (56 - p.2.2) (octet 0)) p.2.2 p.2.1
  let buffer := copyN (lengthBytes messageBits) 56 buffer
  let state := transform p.1 (List.ofFn buffer)
  (state.bytes, { state := state, buffer := buffer, totalBytes := h.totalBytes, bufferSize := p.2.2 })

/-- `auto copy = *this; return copy.finalize();` -/
def digest (h : Sha256Object) : Bytes := h.finalize.1

def hexDigest (h : Sha256Object) : Bytes := (hex h.digest).map octet

/-! ## The octets in use -/

/-- The object without what lies behind `buffer_size_`. -/
def view (h : Sha256Object) : Sha256 where
  state := h.state
  buffer := (List.ofFn h.buffer).take h.bufferSize
  totalBytes := h.totalBytes

@[simp] theorem view_state (h : Sha256Object) : h.view.state = h.state := rfl

@[simp] theorem view_totalBytes (h : Sha256Object) : h.view.totalBytes = h.totalBytes := rfl

theorem length_view {h : Sha256Object} (hb : h.bufferSize ≤ 64) : h.view.buffer.length = h.bufferSize := by
  rw [view, List.length_take, List.length_ofFn]
  omega

theorem updateBlocks_length (fuel : Nat) (state : Words8) {data : Bytes} (h : data.length ≤ fuel) :
    (updateBlocks fuel state data).2.length < 64 := by
  rw [updateBlocks_eq fuel state data h, List.length_drop]
  omega

/-- The tail of an update does not look at what the buffer held. -/
theorem view_updateTail (state : Words8) (buffer : Block) (totalBytes : BitVec 64) (data : Bytes) :
    (updateTail state buffer totalBytes data).view = Sha256.updateTail state [] totalBytes data := by
  have hlen := updateBlocks_length data.length state (Nat.le_refl data.length)
  rw [updateTail, Sha256.updateTail, view]
  dsimp only
  congr 1
  by_cases hrest : (updateBlocks data.length state data).2 = []
  · rw [if_pos hrest, if_pos hrest, hrest]
    rfl
  · rw [if_neg hrest, if_neg hrest]
    have htake := take_copyN (updateBlocks data.length state data).2 0 buffer (by omega)
    rwa [Nat.zero_add, List.take_zero, List.nil_append] at htake

theorem bufferSize_update {h : Sha256Object} (hb : h.bufferSize < 64) (data : Bytes) :
    (h.update data).bufferSize < 64 := by
  have htail : ∀ state buffer totalBytes d, (updateTail state buffer totalBytes d).bufferSize < 64 :=
    fun state _ _ d => updateBlocks_length d.length state (Nat.le_refl d.length)
  rw [update]
  dsimp only
  split_ifs with hd h0 hfull
  · exact hb
  · exact htail _ _ _ _
  · show h.bufferSize + min (64 - h.bufferSize) data.length < 64
    omega
  · exact htail _ _ _ _

/-- An update of the array is an update of the octets in use. -/
theorem view_update {h : Sha256Object} (hb : h.bufferSize < 64) (data : Bytes) :
    (h.update data).view = h.view.update data := by
  have hlen := length_view (Nat.le_of_lt hb)
  rw [update, Sha256.update]
  by_cases hd : data = []
  · rw [if_pos hd, if_pos hd]
  rw [if_neg hd, if_neg hd]
  dsimp only
  rw [hlen, view_state, view_totalBytes]
  by_cases h0 : h.bufferSize = 0
  · have hnil : h.view.buffer = [] := List.length_eq_zero_iff.mp (by rw [hlen, h0])
    rw [if_neg (not_not_intro h0), if_neg (not_not_intro h0), view_updateTail, hnil]
  rw [if_pos h0, if_pos h0]
  have hcount : (data.take (min (64 - h.bufferSize) data.length)).length =
      min (64 - h.bufferSize) data.length := by
    rw [List.length_take]
    omega
  have hbuffer := take_copyN (data.take (min (64 - h.bufferSize) data.length)) h.bufferSize h.buffer (by omega)
  rw [hcount] at hbuffer
  rw [List.length_append, hcount, hlen]
  by_cases hfull : h.bufferSize + min (64 - h.bufferSize) data.length = 64
  · rw [if_pos hfull, if_pos hfull, view_updateTail, ofFn_copyN _ _ h.buffer (by omega)]
    rfl
  · -- nothing is left of the data, and the source's loop and its last copy do nothing
    have hall : min (64 - h.bufferSize) data.length = data.length := by omega
    rw [if_neg hfull, if_neg hfull, hall, List.drop_length]
    rw [hall] at hbuffer
    rw [view]
    dsimp only
    rw [hbuffer]
    rfl

/-- Finalizing a copy gives the digest of the octets in use. -/
theorem digest_eq {h : Sha256Object} (hb : h.bufferSize < 64) : h.digest = h.view.digest := by
  have hlen := length_view (Nat.le_of_lt hb)
  have hone : (List.ofFn (copyN [octet 0x80] h.bufferSize h.buffer)).take (h.bufferSize + 1) =
      h.view.buffer ++ [octet 0x80] :=
    take_copyN [octet 0x80] h.bufferSize h.buffer (by rw [List.length_singleton]; omega)
  -- the last block: what is in the buffer, zeros up to 56, the length
  have hlast : ∀ (buffer : Block) (size : Nat) (front : Bytes), size ≤ 56 →
      (List.ofFn buffer).take size = front →
      List.ofFn (copyN (lengthBytes (h.totalBytes * 8)) 56
          (copyN (List.replicate (56 - size) (octet 0)) size buffer)) =
        fillZero front 56 ++ lengthBytes (h.totalBytes * 8) := by
    intro buffer size front hsize hfront
    have hfill := take_copyN (List.replicate (56 - size) (octet 0)) size buffer
      (by rw [List.length_replicate]; omega)
    rw [List.length_replicate, Nat.add_sub_cancel' hsize] at hfill
    have hfrontLen : front.length = size := by
      rw [← hfront, List.length_take, List.length_ofFn]
      omega
    rw [ofFn_copyN _ _ _ (show 56 + 8 = 64 from rfl), hfill, hfront, fillZero, hfrontLen]
  rw [digest, finalize, Sha256.digest, Sha256.finalize, List.length_append, hlen, List.length_singleton]
  dsimp only
  by_cases hlong : 56 < h.bufferSize + 1
  · have hfirst : List.ofFn (copyN (List.replicate (64 - (h.bufferSize + 1)) (octet 0)) (h.bufferSize + 1)
        (copyN [octet 0x80] h.bufferSize h.buffer)) = fillZero (h.view.buffer ++ [octet 0x80]) 64 := by
      rw [ofFn_copyN _ _ _ (by rw [List.length_replicate]; omega), hone, fillZero, List.length_append, hlen,
        List.length_singleton]
    rw [if_pos hlong, if_pos hlong, hlast _ 0 [] (by omega) rfl, hfirst]
    rfl
  · rw [if_neg hlong, if_neg hlong, hlast _ _ _ (by omega) hone]
    rfl

/-! ## Any sequence of calls -/

/-- The object after the octets of `m`. -/
structure Taken (h : Sha256Object) (m : Bytes) : Prop where
  bufferSize : h.bufferSize < 64
  absorbed : Absorbed h.view m

theorem taken_new : Taken new [] := ⟨by decide, absorbed_new⟩

theorem Taken.update {h : Sha256Object} {m : Bytes} (hm : Taken h m) (data : Bytes) :
    Taken (h.update data) (m ++ data) where
  bufferSize := bufferSize_update hm.bufferSize data
  absorbed := by
    rw [view_update hm.bufferSize]
    exact absorbed_update hm.absorbed data

theorem Taken.digest {h : Sha256Object} {m : Bytes} (hm : Taken h m) : h.digest = Lib.Sha256.hash m := by
  rw [digest_eq hm.bufferSize, hm.absorbed.digest]

theorem Taken.hexDigest {h : Sha256Object} {m : Bytes} (hm : Taken h m) :
    h.hexDigest = (hexdigest m).map octet := by
  rw [Sha256Object.hexDigest, hm.digest, hexdigest]

inductive Call where
  | update (data : Bytes)
  | digest
  | hexDigest
deriving DecidableEq

/-- The object after a call, and what the call returns. -/
def call (h : Sha256Object) : Call → Sha256Object × List Bytes
  | .update data => (h.update data, [])
  | .digest => (h, [h.digest])
  | .hexDigest => (h, [h.hexDigest])

/-- The object after the calls, and what they returned, in order. -/
def calls (h : Sha256Object) : List Call → Sha256Object × List Bytes
  | [] => (h, [])
  | c :: rest =>
    let p := h.call c
    let q := calls p.1 rest
    (q.1, p.2 ++ q.2)

def Call.isUpdate : Call → Bool
  | .update _ => true
  | _ => false

/-- What the standard says the calls return, behind a message of octets already taken. -/
def standardAnswers (message : Bytes) : List Call → List Bytes
  | [] => []
  | .update data :: rest => standardAnswers (message ++ data) rest
  | .digest :: rest => Lib.Sha256.hash message :: standardAnswers message rest
  | .hexDigest :: rest => (hexdigest message).map octet :: standardAnswers message rest

theorem Taken.calls {h : Sha256Object} {m : Bytes} (hm : Taken h m) (cs : List Call) :
    (h.calls cs).2 = standardAnswers m cs := by
  induction cs generalizing h m with
  | nil => rfl
  | cons c rest ih =>
    cases c with
    | update data => exact ih (hm.update data)
    | digest =>
      rw [standardAnswers, ← ih hm, ← hm.digest]
      rfl
    | hexDigest =>
      rw [standardAnswers, ← ih hm, ← hm.hexDigest]
      rfl

theorem calls_filter (h : Sha256Object) (cs : List Call) :
    (h.calls (cs.filter Call.isUpdate)).1 = (h.calls cs).1 := by
  induction cs generalizing h with
  | nil => rfl
  | cons c rest ih =>
    cases c with
    | update data => exact ih (h.update data)
    | digest => exact ih h
    | hexDigest => exact ih h

/-- In any sequence of calls every digest is the FIPS 180-4 digest of the octets passed before it,
however they were cut into blocks, and the object ends as if no digest had been taken. -/
theorem streaming_sha256 (cs : List Call) :
    (new.calls cs).2 = standardAnswers [] cs ∧
      (new.calls cs).1 = (new.calls (cs.filter Call.isUpdate)).1 :=
  ⟨taken_new.calls cs, (calls_filter new cs).symm⟩

end Sha256Object

end GetBibleSword.Core
