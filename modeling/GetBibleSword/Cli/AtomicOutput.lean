import GetBibleSword.Lib.Bytes
import GetBibleSword.Lib.Program

/-!
# The output file of the command line

`FileDescriptorBuffer`, `AtomicOutput` and their use in `main`, of `src/main.cpp`.

* `World` : the directory of the target, the file that `mkstemp` makes in it, the stream over it; every answer of
  a system call and every creation of the target by another process is an event, and every moment is kept;
* `construct`, `write`, `flush`, `commit`, `destroy` : the classes;
* `Producer`, `runOutput` : what writes to the stream, and the part of `main` around it.
-/

namespace GetBibleSword.Cli
open GetBibleSword.Lib

/-! ## The world -/

/-- An entry of a directory: the file that `mkstemp` made, or anything else. -/
inductive Entry (β : Type) where
  | temporary
  | other (b : β)
deriving DecidableEq

/-- What a path holds. -/
inductive Held (β : Type) where
  | absent
  | other (b : β)
  | file (content : Bytes)
deriving DecidableEq

/-- How a system call ends: with a count (of `write`), interrupted by a signal, or with an error. -/
inductive Answer where
  | done (count : Nat)
  | interrupted
  | failed (message : Bytes)
deriving DecidableEq

inductive Event (β : Type) where
  /-- Another process creates the target. -/
  | created (b : β)
  | answered (answer : Answer)

/-- What the target holds, and what it would hold without this run. -/
structure Moment (β : Type) where
  held : Held β
  undisturbed : Option β
deriving DecidableEq

structure World (β : Type) where
  /-- Those to come. -/
  events : List (Event β)
  /-- The entries of `parent_`. -/
  directory : Bytes → Option (Entry β)
  /-- Of the file that `mkstemp` made. -/
  content : Bytes
  undisturbed : Option β
  moments : List (Moment β)
  /-- From `pbase` to `pptr`. -/
  pending : Bytes
  good : Bool
  /-- All that was to be written. -/
  attempted : Bytes
  /-- `file_descriptor_` is open. -/
  descriptor : Bool
  committed : Bool
  destroyed : Bool
  /-- The destructor could not unlink. -/
  leftover : Bool

/-- Why a step does not return: the process is stopped there, or `std::runtime_error`. -/
inductive Ending where
  | stopped
  | error (what : Bytes)
deriving DecidableEq

structure Options where
  /-- The last component of the target. -/
  target : Bytes
  force : Bool
  /-- What `mkstemp` puts for `XXXXXX`. -/
  suffix : Bytes

/-- The last component of `temporary_`. -/
def Options.temporary (options : Options) : Bytes := ascii ".getbiblesword.tmp." ++ options.suffix

abbrev Process (β : Type) := EStateM Ending (World β)

section Process
variable {β : Type} (options : Options)

def World.held (w : World β) : Held β :=
  match w.directory options.target with
  | none => .absent
  | some (.other b) => .other b
  | some .temporary => .file w.content

/-- The moment is kept. -/
def World.note (w : World β) : World β := { w with moments := w.moments ++ [⟨w.held options, w.undisturbed⟩] }

def World.link (w : World β) (name : Bytes) (entry : Option (Entry β)) : World β :=
  { w with directory := Function.update w.directory name entry }

/-- Another process creates the target if it is absent. -/
def World.arrive (w : World β) (b : β) : World β :=
  match w.directory options.target with
  | none => ({ w.link options.target (some (.other b)) with undisturbed := some b }).note options
  | some _ => w

/-! ## System calls -/

/-- Up to the next answer. -/
def arrivals : List (Event β) → World β → Option Answer × World β
  | [], w => (none, { w with events := [] })
  | .created b :: events, w => arrivals events (w.arrive options b)
  | .answered answer :: events, w => (some answer, { w with events := events })

def await : Process β Answer := fun w =>
  match arrivals options w.events w with
  | (some answer, w) => .ok answer w
  | (none, w) => .error .stopped w

/-- A system call that does `effect` if it succeeds. -/
def call (effect : World β → World β) : Process β Answer := do
  let answer ← await options
  match answer with
  | .done _ => modify fun w => (effect w).note options
  | _ => pure ()
  return answer

def existing : Answer := .failed (ascii "File exists")

/-- A system call that makes a new entry. -/
def create (name : Bytes) (effect : World β → World β) : Process β Answer := do
  let answer ← await options
  match answer with
  | .done _ =>
    if ((← get).directory name).isSome then return existing
    else do
      modify fun w => (effect (w.link name (some .temporary))).note options
      return answer
  | _ => return answer

def mkstemp : Process β Answer := create options options.temporary fun w => { w with descriptor := true }

/-- `link(temporary_, target_)`. -/
def hardLink : Process β Answer := create options options.target id

/-- `rename(temporary_, target_)`. -/
def rename : Process β Answer :=
  call options fun w => (w.link options.temporary none).link options.target (some .temporary)

/-- `unlink(temporary_)`. -/
def unlink : Process β Answer := call options fun w => w.link options.temporary none

/-- `write` until all that is pending is written; false where it fails. -/
def writePending : Bytes → List (Event β) → World β → EStateM.Result Ending (World β) Bool
  | [], events, w => .ok true { w with events := events, pending := [] }
  | _ :: _, [], w => .error .stopped { w with events := [] }
  | c :: pending, .created b :: events, w => writePending (c :: pending) events (w.arrive options b)
  | c :: pending, .answered (.done count) :: events, w =>
    writePending ((c :: pending).drop count) events
      ({ w with content := w.content ++ (c :: pending).take count }.note options)
  | c :: pending, .answered .interrupted :: events, w => writePending (c :: pending) events w
  | _ :: _, .answered (.failed _) :: events, w => .ok false { w with events := events }

/-! ## `FileDescriptorBuffer` and its stream -/

def bufferSize : Nat := 64 * 1024

def flushPending : Process β Bool := fun w => writePending options w.pending w.events w

/-- `std::streambuf::sputc` over `overflow`. -/
def sputc (c : Byte) : Process β Bool := do
  if (← get).pending.length < bufferSize then
    modify fun w => { w with pending := w.pending ++ [c] }
    return true
  else if ← flushPending options then
    modify fun w => { w with pending := w.pending ++ [c] }
    return true
  else return false

/-- `std::streambuf::sputn`: whether all is taken. -/
def sputn : Bytes → Process β Bool
  | [] => return true
  | c :: data => do
    if ← sputc options c then sputn data else return false

/-- `std::ostream::write`. -/
def write (data : Bytes) : Process β Unit := do
  modify fun w => { w with attempted := w.attempted ++ data }
  if (← get).good then do
    let taken ← sputn options data
    modify fun w => { w with good := taken }
  else return ()

/-- `std::ostream::flush`. -/
def flush : Process β Unit := do
  if (← get).good then do
    let synced ← flushPending options
    modify fun w => { w with good := synced }
  else return ()

def detach (w : World β) : World β := { w with pending := [] }

/-! ## `AtomicOutput` -/

def Answer.message : Answer → Bytes
  | .done _ => []
  | .interrupted => ascii "Interrupted system call"
  | .failed message => message

def Answer.isDone : Answer → Bool
  | .done _ => true
  | _ => false

/-- `std::runtime_error` unless the call succeeded. -/
def require (message : String) (answer : Answer) : Process β Unit :=
  if answer.isDone then return () else throw (.error (ascii message ++ answer.message))

/-- The target may not exist without `force`; `resolves` tells of an entry whether it leads to something that
exists. -/
def inspect (resolves : β → Bool) : Process β Unit :=
  if options.force then return ()
  else do
    let answer ← await options
    let w ← get
    match answer, w.held options with
    | .done _, .other b =>
      if resolves b then throw (.error (ascii "output file already exists; use --force to replace it"))
      else return ()
    | .done _, _ => return ()
    | answer, _ => require "unable to inspect output path: " answer

/-- `fcntl(file_descriptor_, F_SETFD, FD_CLOEXEC)`. -/
def secure : Process β Unit := do
  let secured ← call options id
  if secured.isDone then return ()
  else do
    let _ ← call options id
    modify fun w => { w with descriptor := false }
    let _ ← unlink options
    require "unable to secure the temporary output descriptor: " secured

/-- The constructor. -/
def construct (resolves : β → Bool) : Process β Unit := do
  inspect options resolves
  let created ← mkstemp options
  require "unable to create a secure temporary output file: " created
  secure options

def publish : Process β Unit := do
  if options.force then do
    let renamed ← rename options
    require "failed to replace output file atomically: " renamed
  else do
    let linked ← hardLink options
    require "failed to commit output without overwriting: " linked
    let unlinked ← unlink options
    require "output committed but temporary link cleanup failed: " unlinked

/-- `parent_` is opened, synchronized and closed. -/
def syncParent : Process β Unit := do
  let opened ← call options id
  require "output committed but its directory could not be opened for synchronization: " opened
  let synced ← call options id
  let closed ← call options id
  require "output committed but its directory could not be synchronized: " synced
  require "output committed but its directory could not be synchronized: " closed

def flushFile : Process β Unit := do
  flush options
  let w ← get
  if w.good then return () else throw (.error (ascii "failed to flush output file"))

/-- The part of `commit` before anything is published. -/
def finishFile : Process β Unit := do
  flushFile options
  let synced ← call options id
  require "failed to synchronize output file: " synced
  modify detach
  let closed ← call options id
  modify fun w => { w with descriptor := false }
  require "failed to close output file: " closed

def commit : Process β Unit := do
  finishFile options
  publish options
  syncParent options
  modify fun w => { w with committed := true }

def closeDescriptor : Process β Unit := do
  let w ← get
  if w.descriptor then do
    let _ ← call options id
    return ()
  else return ()

def removeTemporary : Process β Unit := do
  let w ← get
  if w.committed then return ()
  else do
    let unlinked ← unlink options
    modify fun w => { w with leftover := !unlinked.isDone }

/-- `~AtomicOutput`. -/
def destroy : Process β Unit := do
  modify detach
  closeDescriptor options
  removeTemporary options
  modify fun w => { w with destroyed := true }

/-! ## `main` -/

/-- What writes to the stream; behind each step it sees whether the stream is good. -/
inductive Producer where
  | done (success : Bool)
  | throw (what : Bytes)
  | write (data : Bytes) (next : Bool → Producer)
  | flush (next : Bool → Producer)

def Producer.run : Producer → Process β Bool
  | done success => return success
  | throw what => MonadExcept.throw (.error what)
  | write data next => do
    Cli.write options data
    let w ← get
    (next w.good).run
  | flush next => do
    Cli.flush options
    let w ← get
    (next w.good).run

/-- The extraction, then `commit`. -/
def produce (producer : Producer) : Process β Bool := do
  let success ← producer.run options
  commit options
  return success

/-- The destructor runs behind an error too; a process that is stopped does no more. -/
def unwind : Ending → Process β Bool
  | .stopped => throw .stopped
  | .error what => do
    destroy options
    throw (.error what)

/-- The branch of `main` with `--output`; it returns where `commit` does. -/
def runOutput (resolves : β → Bool) (producer : Producer) : Process β Bool := do
  construct options resolves
  let success ← tryCatch (produce options producer) (unwind options)
  destroy options
  return success

/-- The directory before the run, and what is to come. -/
def World.start (initial : Bytes → Option β) (events : List (Event β)) : World β :=
  { events := events
    directory := fun name => (initial name).map .other
    content := []
    undisturbed := initial options.target
    moments := []
    pending := []
    good := true
    attempted := []
    descriptor := false
    committed := false
    destroyed := false
    leftover := false : World β }.note options

end Process

end GetBibleSword.Cli
