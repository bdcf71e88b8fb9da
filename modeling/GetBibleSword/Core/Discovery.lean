import GetBibleSword.Core.Artifact
import GetBibleSword.Lib.FsPath
import GetBibleSword.Lib.SortUnique

/-!
# Discovering artifacts

`discover_artifacts` of `src/artifact.cpp`.

* `DiscoveryAnswers` : what the calls of `std::filesystem` answer;
* `normalizeCandidate`, `configurations`, `dataCandidates`, `discoverArtifacts` : the function;
* `Disk` : a tree that stays as it is, and what a process may do with it; `DirectoryOrder` : the order of
  an iteration; `symlinkStatus`, `directory`, `enumerate`, `discovery` : the answers over it.
-/

namespace GetBibleSword.Core
open GetBibleSword.Lib Posix FsPath

/-! ## The function -/

/-- What the calls of `std::filesystem` answer; an error is its message. -/
structure DiscoveryAnswers where
  canonical : Path → Except Bytes Path
  /-- Whether it is a directory, where something exists. -/
  symlinkStatus : Path → Option Bool
  recursiveDirectory : Path → List Path × Option Bytes
  directoryIterator : Path → List Path × Option Bytes
  /-- The `what` of an exception raised for a configuration file. -/
  configThrows : Path → Option Bytes
  /-- The number of candidates of the DataPath before an exception is raised, and its `what`. -/
  dataThrows : Option (Nat × Bytes)

def isWithinRoot (root candidate : Path) : Bool :=
  let relative := lexicallyRelative candidate root
  if relative = [] then decide (elements candidate = elements root)
  else
    match elements relative with
    | [] => false
    | first :: _ => decide (first ≠ dotdot) && !isAbsolute relative

/-- Nothing where the source throws. -/
def normalizeCandidate (root candidate : Path) : Option Path :=
  let normalized := if isAbsolute candidate then lexicallyNormal candidate else lexicallyNormal (join root candidate)
  if isWithinRoot root normalized then some normalized else none

/-- What `add_candidate` adds. -/
def candidate (root absolute : Path) (role : String) : ArtifactCandidate where
  absolutePath := absolute
  relativePath := lexicallyRelative absolute root
  role := ascii role

def escapeMessage : Bytes := ascii "artifact path escapes the SWORD root"

/-- The diagnostic of a handler: the message is the `what` of the exception. -/
def escapeDiagnostic (code : String) (what path : Bytes) : Diagnostic where
  severity := ascii "error"
  code := ascii code
  message := what
  context := fieldsOf [(ascii "path", byteValueJson path)]

def configEscape (what : Bytes) (config : Path) : Diagnostic := escapeDiagnostic "artifact.config.escape" what config

def datapathMissing : Diagnostic :=
  errorDiagnostic "artifact.datapath.missing" "The module has no interpreted DataPath." []

def enumerationFailed (detail path : Bytes) : Diagnostic :=
  errorDiagnostic "artifact.enumeration.failed" "Unable to enumerate the complete module DataPath."
    [(ascii "detail", byteValueJson detail), (ascii "path", byteValueJson path)]

def datapathUnresolved (dataPath : Bytes) : Diagnostic :=
  errorDiagnostic "artifact.datapath.unresolved"
    "DataPath does not exist and no prefix-style module files were found."
    [(ascii "path", byteValueJson dataPath)]

def datapathEscape (what dataPath : Bytes) : Diagnostic := escapeDiagnostic "artifact.datapath.escape" what dataPath

def rootInvalid (detail : Bytes) : Diagnostic :=
  errorDiagnostic "artifact.root.invalid" "Unable to canonicalize the SWORD root."
    [(ascii "detail", byteValueJson detail)]

section Discover
variable (answers : DiscoveryAnswers)

/-- The loop over the configuration files. -/
def configurations (root : Path) : List Path → List ArtifactCandidate × List Diagnostic
  | [] => ([], [])
  | config :: configs =>
    let rest := configurations root configs
    match answers.configThrows config with
    | some what => (rest.1, configEscape what config :: rest.2)
    | none =>
      match normalizeCandidate root config with
      | some normalized => (candidate root normalized "configuration" :: rest.1, rest.2)
      | none => (rest.1, configEscape escapeMessage config :: rest.2)

/-- The branch of a DataPath that exists: itself, and what is below it. -/
def existingData (root data : Path) (isDirectory : Bool) : List ArtifactCandidate × List Diagnostic :=
  if isDirectory then
    let below := answers.recursiveDirectory data
    ((data :: below.1).map fun path => candidate root path "module_data",
      match below.2 with
      | some detail => [enumerationFailed detail (lexicallyRelative data root)]
      | none => [])
  else ([candidate root data "module_data"], [])

/-- The branch of a DataPath that does not: the entries beside it that start with its name. -/
def prefixData (root data dataPath : Path) : List ArtifactCandidate × List Diagnostic :=
  let listed := answers.directoryIterator (parentPath data)
  let matched := listed.1.filter fun path => (filename data).isPrefixOf (filename path)
  (matched.map fun path => candidate root path "module_data_prefix",
    if listed.2.isSome ∨ matched = [] then [datapathUnresolved dataPath] else [])

/-- A handler behind the branches keeps what has been added. -/
def interrupted (dataPath : Path) (found : List ArtifactCandidate × List Diagnostic) :
    List ArtifactCandidate × List Diagnostic :=
  match answers.dataThrows with
  | some (added, what) => (found.1.take added, [datapathEscape what dataPath])
  | none => found

def dataCandidates (root dataPath : Path) : List ArtifactCandidate × List Diagnostic :=
  if dataPath = [] then ([], [datapathMissing])
  else
    match normalizeCandidate root dataPath with
    | none => ([], [datapathEscape escapeMessage dataPath])
    | some data =>
      match answers.symlinkStatus data with
      | some isDirectory => interrupted answers dataPath (existingData answers root data isDirectory)
      | none => interrupted answers dataPath (prefixData answers root data dataPath)

/-- `discover_artifacts`; `sort` is what `std::sort` does. -/
def discoverArtifacts (sort : List ArtifactCandidate → List ArtifactCandidate) (swordRoot dataPath : Path)
    (configurationFiles : List Path) : List ArtifactCandidate × List Diagnostic :=
  match answers.canonical swordRoot with
  | .error detail => ([], [rootInvalid detail])
  | .ok root =>
    let configs := configurations answers root configurationFiles
    let data := dataCandidates answers root dataPath
    (unique (fun c => elements c.absolutePath) (sort (configs.1 ++ data.1)), configs.2 ++ data.2)

end Discover

/-! ## A static tree -/

structure Disk where
  process : Process
  fs : FileSystem
  /-- Why the entries of a directory cannot be read. -/
  unreadable : Loc → Option Errno
  /-- `std::error_code::message`. -/
  message : Errno → Bytes

/-- The names of a directory in the order an iteration gives them. -/
abbrev DirectoryOrder := Loc → List Name

/-- An iteration gives the entries that are there. -/
def Disk.Lists (disk : Disk) (order : DirectoryOrder) : Prop :=
  ∀ loc, (order loc).Perm (disk.fs.entries loc)

/-- One name after the other, up to the first error. -/
def visit (step : Name → List Path × Option Errno) : List Name → List Path × Option Errno
  | [] => ([], none)
  | name :: names =>
    let first := step name
    match first.2 with
    | some error => (first.1, some error)
    | none => (first.1 ++ (visit step names).1, (visit step names).2)

namespace Disk
variable (disk : Disk)

/-- `std::filesystem::canonical` of an absolute path. -/
def canonical (path : Path) : Except Errno Loc :=
  (walk disk.process disk.fs true maxLinks [] (components (cString path))).map Found.loc

/-- `std::filesystem::symlink_status`, where it succeeds and something exists. -/
def symlinkStatus (path : Path) : Option Loc :=
  match walk disk.process disk.fs false maxLinks [] (components (cString path)) with
  | .ok found => some found.loc
  | .error _ => none

/-- The directory an iterator opens. -/
def directory (path : Path) : Except Errno Loc :=
  match walk disk.process disk.fs true maxLinks [] (components (cString path)) with
  | .error error => .error error
  | .ok found =>
    if disk.fs.IsDir found.loc then
      match disk.unreadable found.loc with
      | some error => .error error
      | none => .ok found.loc
    else .error .notdir

variable (order : DirectoryOrder)

/-- The directory at `loc` and those below it, no link followed; `fuel` bounds the depth. -/
def enumerate : Nat → Path → Loc → List Path × Option Errno
  | 0, _, _ => ([], none)
  | fuel + 1, path, loc =>
    visit (fun name =>
      let entry := join path name
      if disk.fs.IsDir (loc ++ [name]) then
        match disk.unreadable (loc ++ [name]) with
        | some error => ([entry], some error)
        | none =>
          let below := enumerate fuel entry (loc ++ [name])
          (entry :: below.1, below.2)
      else ([entry], none)) (order loc)

/-- `std::filesystem::recursive_directory_iterator`. -/
def recursiveDirectory (path : Path) : List Path × Option Errno :=
  match disk.directory path with
  | .error error => ([], some error)
  | .ok loc => disk.enumerate order disk.fs.support.length path loc

/-- `std::filesystem::directory_iterator`. -/
def directoryIterator (path : Path) : List Path × Option Errno :=
  match disk.directory path with
  | .error error => ([], some error)
  | .ok loc => ((order loc).map (join path), none)

/-- What it answers when nothing is raised. -/
def discovery : DiscoveryAnswers where
  canonical path := ((disk.canonical path).map fun loc => absolutePath loc false).mapError disk.message
  symlinkStatus path := (disk.symlinkStatus path).map fun loc => decide (disk.fs.IsDir loc)
  recursiveDirectory path :=
    ((disk.recursiveDirectory order path).1, (disk.recursiveDirectory order path).2.map disk.message)
  directoryIterator path :=
    ((disk.directoryIterator order path).1, (disk.directoryIterator order path).2.map disk.message)
  configThrows _ := none
  dataThrows := none

end Disk

end GetBibleSword.Core
