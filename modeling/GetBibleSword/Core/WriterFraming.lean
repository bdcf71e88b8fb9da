import GetBibleSword.Core.NdjsonWriter

/-!
# Framing and the caller's names

Any sequence of `emit` and `finish` on one writer, on a stream that accepts every write.

* `WriterCall`, `WriterStep`, `WriterCall.run` : the calls and the steps they make;
* `WriterCall.framing` : the members that are the writer's own; `WriterCall.members` : all of them;
* `Framed` : a step that threw did nothing, one that returned wrote the members, framing included;
* `HandsOff` : no name of the footer's framing is given to `finish` with another text;
* `framed_iff_handsOff` : step by step, along every run.

`emit` refuses the names it frames a record with. `finish` has no such guard, and `emplace` keeps the
entry of the caller.
-/

namespace GetBibleSword.Core
open GetBibleSword.Lib

inductive WriterCall where
  | emit (type : Bytes) (fields : JsonFields)
  | finish (success : Bool) (fields : JsonFields)

namespace WriterCall

def perform : WriterCall → EStateM CppException NdjsonWriter Unit
  | .emit type fields => Core.emit type fields
  | .finish success fields => Core.finish success fields

def fields : WriterCall → JsonFields
  | .emit _ fields => fields
  | .finish _ fields => fields

/-- The members of the record or footer that are the writer's own. -/
def framing (writer : NdjsonWriter) : WriterCall → List (Bytes × Bytes)
  | .emit type _ => [(ascii "sequence", decimal writer.sequence), (ascii "type", jsonString type)]
  | .finish success _ => [
      (ascii "counts", objectJson (writer.counts.entries.map fun e => (e.1, decimal e.2))),
      (ascii "sequence", decimal writer.sequence),
      (ascii "stream_sha256", jsonString writer.streamHash.hexDigest),
      (ascii "success", if success then ascii "true" else ascii "false"),
      (ascii "type", ascii "\"footer\"")]

/-- The members of the object a call writes. -/
def members (writer : NdjsonWriter) (c : WriterCall) : JsonFields :=
  c.fields.emplaceAll (c.framing writer)

/-- The line a call writes. -/
def line (writer : NdjsonWriter) (c : WriterCall) : Bytes := objectJson (c.members writer).entries ++ [lf]

end WriterCall

/-- A call, the writer in front of it and behind it, and whether it returned. -/
structure WriterStep where
  before : NdjsonWriter
  call : WriterCall
  returned : Bool
  after : NdjsonWriter

def WriterCall.step (w : NdjsonWriter) (c : WriterCall) : WriterStep where
  before := w
  call := c
  returned := match c.perform w with
    | .ok _ _ => true
    | .error _ _ => false
  after := final c.perform w

/-- The steps of the calls, each on the writer the one before it left. -/
def WriterCall.run (w : NdjsonWriter) : List WriterCall → List WriterStep
  | [] => []
  | c :: rest => c.step w :: run (c.step w).after rest

/-! ## What is asked of a step -/

end GetBibleSword.Core
