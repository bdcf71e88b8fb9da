import GetBibleSword.Core.Discovery
import GetBibleSword.Core.Entries

/-!
# Configuration files

The part of `src/sword_extractor.cpp` that finds and copies the configuration of a module.

* `IfstreamAnswers`, `readFile` : `read_file` on what the stream answers;
* `definesModule` : whether a file has the section of a module;
* `ConfigurationAnswers`, `findConfigurationFiles` : the search, with its diagnostics;
* `emitConfigurationSources`, `emitInterpretedConfiguration` : the records.
-/

namespace GetBibleSword.Core
open GetBibleSword.Lib FsPath

/-! ## Reading a file -/

/-- What `input.get` finds behind the last octet. -/
inductive Behind where
  | octet
  | endOfFile
  | failure
deriving DecidableEq

/-- The answers of an `std::ifstream`. -/
structure IfstreamAnswers where
  opens : Bool
  /-- `tellg` at the end; nothing is `-1`. -/
  endPosition : Option Int
  rewinds : Bool
  /-- What `read` delivers. -/
  content : Bytes
  behind : Behind

/-- `std::numeric_limits<std::streamsize>::max()`. -/
def streamsizeMax : Nat := 2 ^ 63 - 1

/-- `read_file`; an error is its message. -/
def readFile (input : IfstreamAnswers) : Except Bytes Bytes :=
  if !input.opens then .error (ascii "Unable to open the configuration file.")
  else
    match input.endPosition with
    | none => .error (ascii "Unable to determine the configuration file size.")
    | some fileSize =>
      if fileSize < 0 ∨ fileSize > streamsizeMax then
        .error (ascii "The configuration file is too large to read safely.")
      else if !input.rewinds then .error (ascii "Unable to seek within the configuration file.")
      else
        let bytes := input.content.take fileSize.toNat
        if bytes.length ≠ fileSize.toNat then
          .error (ascii "Unable to read the complete configuration file.")
        else
          match input.behind with
          | .octet => .error (ascii "The configuration file changed while it was being read.")
          | .failure => .error (ascii "Unable to read the complete configuration file.")
          | .endOfFile => .ok bytes

/-! ## The section of a module -/

def asciiIequals (left right : Bytes) : Bool := left.map lowercaseAscii = right.map lowercaseAscii

/-- Without a carriage return at the end. -/
def stripReturn (line : Bytes) : Bytes := if line.getLast? = some (octet 0x0d) then line.dropLast else line

/-- Without a byte order mark at the start. -/
def stripMark (line : Bytes) : Bytes :=
  let mark := [octet 0xef, octet 0xbb, octet 0xbf]
  if mark.isPrefixOf line then line.drop 3 else line

def isSection (moduleName line : Bytes) : Bool :=
  line.length ≥ 2 && line.head? = some (octet 0x5b) && line.getLast? = some (octet 0x5d) &&
    asciiIequals line.tail.dropLast moduleName

/-- The loop of `defines_module` from `offset` on; each round goes to the next line. -/
def definesModuleFrom (bytes moduleName : Bytes) : Nat → Nat → Bool
  | 0, _ => false
  | rounds + 1, offset =>
    if offset ≤ bytes.length then
      let rest := bytes.drop offset
      -- up to what `bytes.find('\n', offset)` finds, or to the end
      let length := (rest.takeWhile fun byte => byte ≠ lf).length
      let line := stripReturn (rest.take length)
      let line := if offset = 0 then stripMark line else line
      if isSection moduleName line then true
      else if length = rest.length then false
      else definesModuleFrom bytes moduleName rounds (offset + length + 1)
    else false

def definesModule (bytes moduleName : Bytes) : Bool := definesModuleFrom bytes moduleName (bytes.length + 1) 0

/-! ## The search -/

/-- What `symlink_status` finds; `other` is everything else, and an error. -/
inductive FileKind where
  | regular
  | symlink
  | other
deriving DecidableEq

/-- One round of an iteration; an error is its message. -/
structure ConfigStep where
  path : Path
  status : Except Bytes FileKind
  file : IfstreamAnswers
  increment : Option Bytes

structure ConfigurationAnswers where
  masterStatus : FileKind
  masterFile : IfstreamAnswers
  /-- The iteration over `mods.d`. -/
  iterator : Except Bytes (List ConfigStep)
  /-- `std::sort` by the paths relative to a root. -/
  sort : Path → List Path → List Path
  sorting : ∀ root files, Sorting (fun path => lexicallyRelative path root) files (sort root files)
  /-- The second reading of the files found, by their position. -/
  reread : Nat → IfstreamAnswers

/-- The member `path` of a context: relative to the root. -/
def relativeContext (root path : Path) : Bytes × Bytes :=
  (ascii "path", byteValueJson (lexicallyRelative path root))

/-- The message is what `read_file` says. -/
def configReadFailed (message : Bytes) (root path : Path) : Diagnostic where
  severity := ascii "error"
  code := ascii "config.read.failed"
  message := message
  context := fieldsOf [relativeContext root path]

def masterSymlinkRefused (root path : Path) : Diagnostic :=
  errorDiagnostic "config.symlink.refused" "The active SWORD mods.conf symlink was not followed."
    [relativeContext root path]

def configSymlinkRefused (root path : Path) : Diagnostic :=
  errorDiagnostic "config.symlink.refused" "A configuration symlink was not followed." [relativeContext root path]

def configDirectoryUnreadable (detail : Bytes) : Diagnostic :=
  errorDiagnostic "config.directory.unreadable" "Unable to enumerate the SWORD mods.d directory."
    [(ascii "detail", byteValueJson detail)]

def configStatFailed (detail : Bytes) (root path : Path) : Diagnostic :=
  errorDiagnostic "config.stat.failed" "Unable to inspect a configuration candidate."
    [(ascii "detail", byteValueJson detail), relativeContext root path]

def configEnumerationFailed (detail : Bytes) : Diagnostic :=
  errorDiagnostic "config.enumeration.failed" "Configuration enumeration did not complete."
    [(ascii "detail", byteValueJson detail)]

section Search
variable (faults : Faults) (root moduleName : Bytes)

/-- A regular file: kept when it has the section. -/
def inspectFile (path : Path) (file : IfstreamAnswers) : Run (List Path) := do
  onSession (mayThrow faults .extraction)
  match readFile file with
  | .error message => do
    report faults (configReadFailed message root path)
    return []
  | .ok bytes => return if definesModule bytes moduleName then [path] else []

/-- The body of a round, its status known. -/
def inspectCandidate (step : ConfigStep) : FileKind → Run (List Path)
  | .regular => inspectFile faults root moduleName step.path step.file
  | .symlink => do
    report faults (configSymlinkRefused root step.path)
    return []
  | .other => return []

/-- `while (iterator != end)`; an increment that fails is its end. -/
def searchSteps : List ConfigStep → Run (List Path)
  | [] => pure []
  | step :: steps => do
    onSession (mayThrow faults .extraction)
    match step.status with
    | .error detail => do
      report faults (configStatFailed detail root step.path)
      if step.increment.isSome then return [] else searchSteps steps
    | .ok kind => do
      let found ← inspectCandidate faults root moduleName step kind
      match step.increment with
      | some detail => do
        report faults (configEnumerationFailed detail)
        return found
      | none => do
        let rest ← searchSteps steps
        return found ++ rest

/-- `find_configuration_files`. -/
def findConfigurationFiles (answers : ConfigurationAnswers) : Run (List Path) := do
  let master := join root (ascii "mods.conf")
  onSession (mayThrow faults .extraction)
  match answers.masterStatus with
  | .regular => inspectFile faults root moduleName master answers.masterFile
  | .symlink => do
    report faults (masterSymlinkRefused root master)
    return []
  | .other =>
    match answers.iterator with
    | .error detail => do
      report faults (configDirectoryUnreadable detail)
      return []
    | .ok steps => do
      let files ← searchSteps faults root moduleName steps
      return answers.sort root files

/-! ## The records -/

def configSourceFields (ordinal : Nat) (path bytes : Bytes) : List (Bytes × Bytes) :=
  [(ascii "ordinal", decimal ordinal), relativeContext root path, (ascii "raw", byteValueJson bytes)]

/-- The loop of `emit_configuration_sources`; `index` is the position in the list. -/
def emitConfigurationSources (reread : Nat → IfstreamAnswers) : Nat → Nat → List Path → Run Unit
  | _, _, [] => pure ()
  | index, ordinal, file :: files => do
    onSession (mayThrow faults .extraction)
    match readFile (reread index) with
    | .error message => do
      report faults (configReadFailed message root file)
      emitConfigurationSources reread (index + 1) ordinal files
    | .ok bytes => do
      onSession (emitRecord faults .configSource (fieldsOf (configSourceFields root ordinal file bytes)))
      emitConfigurationSources reread (index + 1) (ordinal + 1) files

end Search

def configEntryFields (ordinal : Nat) (entry : Bytes × Bytes) : List (Bytes × Bytes) :=
  [(ascii "name", byteValueJson entry.1), (ascii "ordinal", decimal ordinal), (ascii "value", byteValueJson entry.2)]

/-- The loop of `emit_interpreted_configuration`. -/
def emitInterpretedConfiguration (faults : Faults) : Nat → List (Bytes × Bytes) → Run Unit
  | _, [] => pure ()
  | ordinal, entry :: entries => do
    onSession (emitRecord faults .configEntry (fieldsOf (configEntryFields ordinal entry)))
    emitInterpretedConfiguration faults (ordinal + 1) entries

end GetBibleSword.Core
