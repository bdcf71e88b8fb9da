import GetBibleSword.Lib.Posix.Stage
import GetBibleSword.Tool.Validator

/-!
# Reassembly

`reassemble` of `tools/getbiblesword_v1.py`: it reads the source a second time, builds the tree of the
artifacts of the summary in a new directory and renames that.

* `int` : the conversion of a member that is read again;
* `safeSymlinkTarget` : what a target may be;
* `Locals` : the local variables, with the kernel and its open descriptors;
* `beginArtifact`, `writeChunk`, `endArtifact` : the three records; `reassemble`.
-/

namespace GetBibleSword.Tool
open GetBibleSword.Lib Posix

/-! ## Conversions -/

/-- What ends `reassemble`. -/
inductive ReassembleError where
  | python (error : PyError)
  /-- The `KeyError` of `artifact_by_id`. -/
  | missing (artifactId : Int)
  /-- The `ValueError`, `TypeError` or `OverflowError` of `int`. -/
  | conversion
  | system (error : Errno)
deriving DecidableEq

/-- The characters of decimal value zero; each is followed by those of the other values. -/
def decimalZeros : List Nat :=
  [0x30, 0x660, 0x6f0, 0x7c0, 0x966, 0x9e6, 0xa66, 0xae6, 0xb66, 0xbe6, 0xc66, 0xce6, 0xd66, 0xde6, 0xe50,
    0xed0, 0xf20, 0x1040, 0x1090, 0x17e0, 0x1810, 0x1946, 0x19d0, 0x1a80, 0x1a90, 0x1b50, 0x1bb0, 0x1c40,
    0x1c50, 0xa620, 0xa8d0, 0xa900, 0xa9d0, 0xa9f0, 0xaa50, 0xabf0, 0xff10, 0x104a0, 0x10d30, 0x11066,
    0x110f0, 0x11136, 0x111d0, 0x112f0, 0x11450, 0x114d0, 0x11650, 0x116c0, 0x11730, 0x118e0, 0x11950,
    0x11c50, 0x11d50, 0x11da0, 0x16a60, 0x16ac0, 0x16b50, 0x1d7ce, 0x1d7d8, 0x1d7e2, 0x1d7ec, 0x1d7f6,
    0x1e140, 0x1e2f0, 0x1e950, 0x1fbf0]

def decimalValue (c : Nat) : Option Nat :=
  (decimalZeros.find? fun first => decide (first ≤ c ∧ c < first + 10)).map fun first => c - first

/-- The white space `int` skips at both ends. -/
def isSpace (c : Nat) : Bool :=
  decide (0x09 ≤ c ∧ c ≤ 0x0d ∨ 0x2000 ≤ c ∧ c ≤ 0x200a) ||
    [0x20, 0x85, 0xa0, 0x1680, 0x2028, 0x2029, 0x202f, 0x205f, 0x3000].contains c

/-- Digits, with single underscores between them; `last` is whether a digit stands before. -/
def digitsValue : Nat → Bool → Text → Option Nat
  | value, last, [] => if last then some value else none
  | value, last, c :: t =>
    if c = 0x5f then if last then digitsValue value false t else none
    else
      match decimalValue c with
      | some digit => digitsValue (10 * value + digit) true t
      | none => none

def intOfText (t : Text) : Option Int :=
  match (t.dropWhile isSpace).rdropWhile isSpace with
  | [] => none
  | c :: rest =>
    if c = 0x2d then (digitsValue 0 false rest).map fun value => -(value : Int)
    else if c = 0x2b then (digitsValue 0 false rest).map Int.ofNat
    else (digitsValue 0 false (c :: rest)).map Int.ofNat

/-- The nearest integer to a fraction, the even one of two. -/
def roundHalfEven (n d : Nat) : Nat :=
  if 2 * (n % d) < d ∨ 2 * (n % d) = d ∧ n / d % 2 = 0 then n / d else n / d + 1

/-- The nearest double without its fraction; an infinite one has none. -/
def truncated (x : FloatLiteral) : Option Int :=
  let (n, d) := match x.exponent with
    | .ofNat e => (x.digits * 10 ^ e, 1)
    | .negSucc e => (x.digits, 10 ^ (e + 1))
  let bits := if n / d = 0 then 0 else Nat.log2 (n / d) + 1
  let value :=
    if 53 ≤ bits then roundHalfEven n (d * 2 ^ (bits - 53)) * 2 ^ (bits - 53)
    else roundHalfEven (n * 2 ^ (53 - bits)) d / 2 ^ (53 - bits)
  if 2 ^ 1024 ≤ value then none else some (if x.negative then -(value : Int) else value)

/-- `int(value)`. -/
def int (value : Json) : Option Int :=
  match value with
  | .int i => some i
  | .bool b => some (if b then 1 else 0)
  | .float x => truncated x
  | .str t => intOfText t
  | _ => none

/-! ## Targets of links -/

/-- The loop over the components of a target. -/
def combineTarget (artifact : Artifact) : List Bytes → List Bytes → Except PyError (List Bytes)
  | combined, [] => .ok combined
  | combined, component :: rest =>
    if component = [] ∨ component = ascii "." then combineTarget artifact combined rest
    else if component = ascii ".." then do
      failStream (combined = [])
        [.lit "artifact ", .int artifact.artifactId, .lit " symlink target escapes the output root"]
      combineTarget artifact combined.dropLast rest
    else combineTarget artifact (combined ++ [component]) rest

def safeSymlinkTarget (artifact : Artifact) : Except PyError Unit := do
  let target ← Validator.asserted artifact.target
  failStream (target = [] ∨ target.head? = some slash)
    [.lit "artifact ", .int artifact.artifactId, .lit " has an absolute or empty symlink target"]
  discard <| combineTarget artifact artifact.components.dropLast (target.splitOn slash)

/-! ## The state -/

/-- The arguments besides the summary, and the name `mkdtemp` makes up. -/
structure Request where
  /-- The parent of the absolute path of the destination, from the root down. -/
  parent : List Name
  name : Name
  suffix : Name
  allowSymlinks : Bool
  preserveSpecialModeBits : Bool

namespace Request

def destination (request : Request) : List Name := request.parent ++ [request.name]

def stageName (request : Request) : Name := ascii "." ++ request.name ++ ascii ".reassemble-" ++ request.suffix

/-- `stage`. -/
def stage (request : Request) : List Name := request.parent ++ [request.stageName]

def mask (request : Request) : Nat := if request.preserveSpecialModeBits then 0o7777 else 0o777

end Request

structure Locals where
  kernel : Kernel
  /-- The open descriptors, each with the object it is for. -/
  descriptors : List Loc
  directoryModes : List (List Name × Nat)
  activeId : Option Int
  fileDescriptor : Option Loc

def Locals.start (kernel : Kernel) : Locals := ⟨kernel, [], [], none, none⟩

abbrev Reassembly := EStateM ReassembleError Locals

/-- A call of the system. -/
def system {α : Type} (call : Call α) : Reassembly α := fun s =>
  match call s.kernel with
  | .ok a k => .ok a { s with kernel := k }
  | .error error k => .error (.system error) { s with kernel := k }

def python {α : Type} (x : Except PyError α) : Reassembly α :=
  match x with
  | .ok a => pure a
  | .error error => throw (.python error)

/-! ## The records -/

section Program
variable (env : Env) (request : Request) (artifacts : List Artifact)

/-- `os.fsync` of an open descriptor. -/
def fsync : Call Unit := tick env .fsync

/-- `os.close`: the descriptor is gone also when it fails, and is none any more for a second call. -/
def close (descriptor : Loc) : Reassembly Unit := do
  let s ← get
  set { s with descriptors := s.descriptors.erase descriptor }
  system (tick env .close)
  if s.descriptors.contains descriptor then pure () else throw (.system (.other 9))

/-- `_write_all`; `fuel` bounds the rounds, each of which writes something. -/
def writeAll (descriptor : Loc) : Nat → Bytes → Call Unit
  | 0, _ => pure ()
  | fuel + 1, data =>
    if data = [] then pure ()
    else do
      let written ← writeSome env descriptor data
      -- the `OSError` of a short write has no number
      if written = 0 then throw (.other 0)
      else writeAll descriptor fuel (data.drop written)

/-- `int(record["artifact_id"])`. -/
def recordId (record : Dict) : Reassembly Int := do
  let value ← python (dictItem record "artifact_id")
  match int value with
  | some artifactId => pure artifactId
  | none => throw .conversion

/-- `artifact_by_id.get`: of two artifacts with one number the dict holds the last. -/
def findArtifact (artifactId : Int) : Option Artifact :=
  artifacts.reverse.find? fun artifact => (artifact.artifactId : Int) == artifactId

/-- `artifact_by_id[artifact_id]`. -/
def artifactById (artifactId : Int) : Reassembly Artifact :=
  match findArtifact artifacts artifactId with
  | some artifact => pure artifact
  | none => throw (.missing artifactId)

def ensureParent (path : List Name) : Call Unit := makedirs env path.dropLast 0o700 true

def beginArtifact (record : Dict) : Reassembly Unit := do
  let activeId ← recordId record
  modify fun s => { s with activeId := some activeId }
  let artifact ← artifactById artifacts activeId
  let outputPath := request.stage ++ artifact.components
  system (ensureParent env outputPath)
  match artifact.fileType with
  | .directory => do
    system (makedirs env outputPath 0o700 false)
    modify fun s => { s with directoryModes := s.directoryModes ++ [(outputPath, artifact.mode)] }
  | .regular => do
    let descriptor ← system (createFile env outputPath 0o600)
    modify fun s => { s with descriptors := descriptor :: s.descriptors, fileDescriptor := some descriptor }
  | .symlink => do
    let target ← python (Validator.asserted artifact.target)
    system (symlink env target outputPath)

def stateChanged : ReassembleError :=
  .python (.contract [.lit "validated artifact state changed during reassembly"] none)

def writeChunk (record : Dict) (lineNumber : Nat) : Reassembly Unit := do
  let s ← get
  match s.fileDescriptor with
  | none => throw stateChanged
  | some descriptor => do
    let artifactId ← recordId record
    if s.activeId ≠ some artifactId then throw stateChanged
    else do
      let data ← python (chunkData record lineNumber)
      system (writeAll env descriptor data.length data)

/-- The block `if file_descriptor is not None` of an `artifact_end`. -/
def finishFile (artifact : Artifact) : Reassembly Unit := do
  let s ← get
  match s.fileDescriptor with
  | none => pure ()
  | some descriptor => do
    system (fsync env)
    system (changeMode env descriptor (artifact.mode &&& request.mask))
    close env descriptor
    modify fun s => { s with fileDescriptor := none }

def endArtifact (record : Dict) : Reassembly Unit := do
  let artifactId ← recordId record
  let artifact ← artifactById artifacts artifactId
  finishFile env request artifact
  modify fun s => { s with activeId := none }

/-- One round of the loop. -/
def reassembleLine (rawLine : Bytes) (lineNumber : Nat) : Reassembly Unit := do
  let record ← python (parseJsonObject rawLine.dropLast lineNumber)
  let recordType ← python (dictItem record "type")
  if isText (some recordType) "artifact_begin" then beginArtifact env request artifacts record
  else if isText (some recordType) "artifact_chunk" then writeChunk env record lineNumber
  else if isText (some recordType) "artifact_end" then endArtifact env request artifacts record
  else pure ()

/-- The loop over the lines; `lineNumber` is that of the line before the first. -/
def reassembleLines (lineNumber : Nat) : List Bytes → Reassembly Unit
  | [] => pure ()
  | rawLine :: rawLines => do
    reassembleLine env request artifacts rawLine (lineNumber + 1)
    reassembleLines (lineNumber + 1) rawLines

/-! ## The tree -/

/-- `sorted` by the number of separators, the deepest first. -/
def deepestFirst (directoryModes : List (List Name × Nat)) : List (List Name × Nat) :=
  directoryModes.mergeSort fun a b => decide (b.1.length ≤ a.1.length)

def restoreModes : List (List Name × Nat) → Reassembly Unit
  | [] => pure ()
  | (directory, mode) :: rest => do
    system (chmod env directory (mode &&& request.mask))
    restoreModes rest

/-- `os.replace`, and the new name is made durable. -/
def publish : Reassembly Unit := do
  system (renameDirectory env request.stage request.destination)
  system (openDirectory env request.parent)
  tryCatch (system (fsync env)) fun error => do
    system (tick env .close)
    throw error
  system (tick env .close)

/-- The lines of a file, the last one possibly without its LF. -/
def fileLines (source : Bytes) : List Bytes := rawLines source.length (source.length + 1) source

/-- The block `try`. -/
def build (source : Bytes) : Reassembly Unit := do
  system (tick env .open)
  reassembleLines env request artifacts 0 (fileLines source)
  let s ← get
  restoreModes env request (deepestFirst s.directoryModes)
  publish env request

/-- `os.close` of the descriptor that is left. -/
def closeLeft : Reassembly Unit := do
  let s ← get
  match s.fileDescriptor with
  | none => pure ()
  | some descriptor => close env descriptor

/-- The block `except`. -/
def abandon (error : ReassembleError) : Reassembly Unit := do
  closeLeft env
  tryCatch (system (removeTree env request.stage)) fun _ => pure ()
  throw error

/-- What `reassemble` refuses before it touches anything. -/
def refusals (summary : ValidationSummary) (fs : FileSystem) : Except PyError Unit := do
  failStream (summary.command ≠ some .extract)
    [.lit "only extract streams contain a reassemblable artifact envelope"]
  failStream (summary.success = false)
    [.lit "refusing to reassemble a stream whose footer.success is false"]
  failStream (exists_ env fs request.destination = true ∨ isLink env fs request.destination = true)
    [.lit "output path already exists: ", .reprBytes request.name]
  let symlinks := summary.artifacts.filter fun artifact => decide (artifact.fileType = .symlink)
  failStream (symlinks ≠ [] ∧ request.allowSymlinks = false)
    [.lit "stream contains symbolic links; review it and pass --allow-symlinks to recreate safe relative links"]
  checkAll symlinks safeSymlinkTarget

/-- What follows the refusals. -/
def construct (source : Bytes) : Reassembly Unit := do
  system (makeParents env request.parent)
  system (mkdir env request.stage 0o700)
  tryCatch (build env request artifacts source) (abandon env request)

/-- `reassemble`, which reads `source`. -/
def reassemble (summary : ValidationSummary) (source : Bytes) : Reassembly Unit := do
  let s ← get
  python (refusals env request summary s.kernel.fs)
  construct env request summary.artifacts source

end Program

end GetBibleSword.Tool
