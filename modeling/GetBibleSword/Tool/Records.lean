import GetBibleSword.Tool.ByteValue

/-!
# Records of the contract, field by field

The checks of `tools/getbiblesword_v1.py` that read only the record, grouped as its handlers make
them between their checks against the state.

* `RecordType`, `FileType`, `Severity`, `Command` : the sets of names the source checks against;
* `headerFields`, `moduleFields`, `configSourcePayload`, `configEntryPayload`, `entryPayload`;
* `artifactBeginId`, `beginFields`, `beginContent`, `chunkIds`, `chunkData`, `endId`, `endDeclared`,
  `endStable`, `diagnosticFields`;
* `normalizedCounts`, `observedDiagnostics` : the two loops of the footer.
-/

namespace GetBibleSword.Tool
open GetBibleSword.Lib

/-! ## Names -/

inductive RecordType where
  | header
  | module
  | configSource
  | configEntry
  | entry
  | artifactBegin
  | artifactChunk
  | artifactEnd
  | diagnostic
  | footer
deriving DecidableEq

def RecordType.name : RecordType → String
  | header => "header"
  | module => "module"
  | configSource => "config_source"
  | configEntry => "config_entry"
  | entry => "entry"
  | artifactBegin => "artifact_begin"
  | artifactChunk => "artifact_chunk"
  | artifactEnd => "artifact_end"
  | diagnostic => "diagnostic"
  | footer => "footer"

def recordTypes : List RecordType :=
  [.header, .module, .configSource, .configEntry, .entry, .artifactBegin, .artifactChunk, .artifactEnd,
    .diagnostic, .footer]

inductive FileType where
  | regular
  | directory
  | symlink
deriving DecidableEq

def FileType.name : FileType → String
  | regular => "regular"
  | directory => "directory"
  | symlink => "symlink"

inductive Severity where
  | error
  | info
  | warning
deriving DecidableEq

def Severity.name : Severity → String
  | error => "error"
  | info => "info"
  | warning => "warning"

/-- `sorted(SEVERITIES)`. -/
def severities : List Severity := [.error, .info, .warning]

inductive Command where
  | list
  | extract
deriving DecidableEq

def Command.name : Command → String
  | list => "list"
  | extract => "extract"

def contract : String := "getbiblesword.ndjson/v1"

def classifications : List String :=
  ["bible", "commentary", "dictionary_or_lexicon", "general_book", "devotional", "resource", "unknown"]

/-- The member of a set of names that `t` is; fails with `message` when it is none. -/
def oneOf {α : Type} (names : List α) (name : α → String) (t : Text) (message : Message) (line : Nat) :
    Except PyError α :=
  match names.find? fun a => text (name a) == t with
  | some a => .ok a
  | none => fail message line

/-! ## Single members -/

/-- `require_integer(record[name], context, line, minimum=minimum, maximum=maximum)`, where
`minimum` is not negative. -/
def natural (record : Dict) (name : String) (context : Message) (line : Nat) (minimum : Nat)
    (maximum : Option Nat) : Except PyError Nat := do
  let i ← requireInteger (← dictItem record name) context line minimum (maximum.map fun m => (m : Int))
  return i.toNat

/-- `f"{record}.{name}"`. -/
def field (context : Message) (name : String) : Message := context ++ [.lit ".", .lit name]

/-- `decode_byte_value(record[name], f"{context}.{name}", line)`. -/
def byteValue (record : Dict) (context : Message) (name : String) (line : Nat) : Except PyError Bytes := do
  decodeByteValue (← dictItem record name) (field context name) line

/-- A loop of checks over a list. -/
def checkAll {α : Type} (xs : List α) (check : α → Except PyError Unit) : Except PyError Unit :=
  match xs with
  | [] => .ok ()
  | x :: xs => do
    check x
    checkAll xs check

/-- A loop of checks over `enumerate(values)`, from `index` on. -/
def checkEach (check : Nat → Json → Except PyError Unit) : Nat → List Json → Except PyError Unit
  | _, [] => .ok ()
  | index, value :: values => do
    check index value
    checkEach check (index + 1) values

def isTrue (value : Option Json) : Bool :=
  match value with
  | some (.bool b) => b
  | _ => false

/-- `value == 1`: a boolean is an integer in Python, and a float literal equals one when it is
nearest to it. -/
def equalsOne (value : Option Json) : Bool :=
  match value with
  | some (.int i) => i == 1
  | some (.bool b) => b
  | some (.float x) => x.roundsToOne
  | _ => false

/-- `value is not None`. -/
def present (record : Dict) (name : String) : Option Json :=
  match dictGet record name with
  | some .null => none
  | value => value

def requireList (value : Json) (context : Message) (line : Nat) : Except PyError (List Json) :=
  match value with
  | .arr xs => .ok xs
  | _ => fail (context ++ [.lit " must be an array"]) line

def requireObject (value : Json) (context : Message) (line : Nat) : Except PyError Dict :=
  match value with
  | .obj d => .ok d
  | _ => fail (context ++ [.lit " must be an object"]) line

/-! ## Header, module, configuration -/

structure HeaderFields where
  command : Command
  chunkSize : Option Nat
deriving DecidableEq

def headerFields (record : Dict) (line : Nat) : Except PyError HeaderFields := do
  let context := [.lit "header"]
  requireMembers record ["command", "contract", "contract_version", "deterministic", "producer",
    "producer_version", "sword_version"] context line
  failIf (¬ isText (dictGet record "contract") contract ∨ ¬ equalsOne (dictGet record "contract_version"))
    [.lit "unsupported contract; expected ", .lit contract] line
  failIf (¬ isText (dictGet record "producer") "getBibleSword")
    [.lit "header.producer must be 'getBibleSword'"] line
  failIf (¬ isTrue (dictGet record "deterministic")) [.lit "header.deterministic must be true"] line
  let command ← requireString (← dictItem record "command") (field context "command") line
  let command ← oneOf [.list, .extract] Command.name command
    [.lit "header.command must be 'list' or 'extract'"] line
  discard <| requireString (← dictItem record "producer_version") (field context "producer_version") line
  discard <| requireString (← dictItem record "sword_version") (field context "sword_version") line
  if command = .extract then
    requireMembers record ["artifact_chunk_size"] context line
    let chunkSize ← natural record "artifact_chunk_size" (field context "artifact_chunk_size") line 4096
      (some (16 * 1024 * 1024))
    return ⟨command, some chunkSize⟩
  else return ⟨command, none⟩

def moduleFields (record : Dict) (line : Nat) : Except PyError Unit := do
  let context := [.lit "module"]
  requireMembers record ["classification", "description", "direction", "driver", "encoding", "language",
    "markup", "name", "sword_type"] context line
  let classification ← requireString (← dictItem record "classification")
    (field context "classification") line
  discard <| oneOf classifications id classification
    [.lit "unknown module.classification ", .repr classification] line
  checkAll ["description", "driver", "language", "name", "sword_type"] fun name =>
    discard <| byteValue record context name line
  checkAll ["direction", "encoding", "markup"] fun name => do
    validateEnum (← dictItem record name) (field context name) line

/-- The ordinal of a record of the given type, behind the check of its members. -/
def ordinalField (record : Dict) (type : RecordType) (members : List String) (line : Nat) :
    Except PyError Nat := do
  requireMembers record members [.lit type.name] line
  natural record "ordinal" (field [.lit type.name] "ordinal") line 0 none

def configSourceMembers : List String := ["ordinal", "path", "raw"]

def configSourcePayload (record : Dict) (line : Nat) : Except PyError Unit := do
  let context := [.lit "config_source"]
  let path ← byteValue record context "path" line
  discard <| validateRelativePath path (field context "path") line false
  discard <| byteValue record context "raw" line

def configEntryMembers : List String := ["name", "ordinal", "value"]

def configEntryPayload (record : Dict) (line : Nat) : Except PyError Unit := do
  let context := [.lit "config_entry"]
  discard <| byteValue record context "name" line
  discard <| byteValue record context "value" line

/-! ## Entries -/

/-- The loop body over `normalized_raw` and `normalized_stripped`. -/
def normalizedField (record : Dict) (name : String) (line : Nat) : Except PyError Unit :=
  match present record name with
  | none => .ok ()
  | some value => do
    let normalized ← decodeByteValue value (field [.lit "entry"] name) line
    discard <| decodeText normalized (field [.lit "entry"] name ++ [.lit " must contain valid UTF-8"]) line

/-- The loop body over `rendered_default` and `stripped`. -/
def projectionField (record : Dict) (projections : Bool) (name : String) (line : Nat) :
    Except PyError Unit :=
  if projections then discard <| byteValue record [.lit "entry"] name line
  else
    failIf (present record name).isSome
      (field [.lit "entry"] name ++ [.lit " must be null when projections are unavailable"]) line

inductive SegmentKind where
  | text
  | markup
  | entity
deriving DecidableEq

def SegmentKind.name : SegmentKind → String
  | text => "text"
  | markup => "markup"
  | entity => "entity"

/-- One annotation segment; returns its octets. -/
def annotationSegment (segment : Json) (context : Message) (line : Nat) : Except PyError Bytes := do
  let segment ← requireObject segment context line
  requireMembers segment ["interpretation", "kind", "raw"] context line
  let kind ← requireString (← dictItem segment "kind") (field context "kind") line
  let interpretation ← requireString (← dictItem segment "interpretation")
    (field context "interpretation") line
  let kind ← oneOf [.text, .markup, .entity] SegmentKind.name kind
    (field context "kind" ++ [.lit " is unknown"]) line
  let expectedInterpretation := if kind = .text then "not_applicable" else "uninterpreted"
  failIf (interpretation ≠ text expectedInterpretation)
    (field context "interpretation" ++ [.lit " is inconsistent with its kind"]) line
  byteValue segment context "raw" line

/-- The loop over the segments; returns `reconstructed`. -/
def annotationSegments (line : Nat) : Nat → List Json → Bytes → Except PyError Bytes
  | _, [], reconstructed => .ok reconstructed
  | index, segment :: segments, reconstructed => do
    let context := [.lit "entry.annotation_segments[", .int index, .lit "]"]
    let raw ← annotationSegment segment context line
    annotationSegments line (index + 1) segments (reconstructed ++ raw)

def attributeValue (context : Message) (line : Nat) (index : Nat) (value : Json) :
    Except PyError Unit := do
  let context := context ++ [.lit ".values[", .int index, .lit "]"]
  let value ← requireObject value context line
  requireMembers value ["name", "value"] context line
  discard <| byteValue value context "name" line
  discard <| byteValue value context "value" line

def attributeList (context : Message) (line : Nat) (index : Nat) (attributeList : Json) :
    Except PyError Unit := do
  let context := context ++ [.lit ".lists[", .int index, .lit "]"]
  let attributeList ← requireObject attributeList context line
  requireMembers attributeList ["name", "values"] context line
  discard <| byteValue attributeList context "name" line
  let values ← requireList (← dictItem attributeList "values") (field context "values") line
  checkEach (attributeValue context line) 0 values

def attributeType (line : Nat) (index : Nat) (attributeType : Json) : Except PyError Unit := do
  let context := [.lit "entry.official_attributes[", .int index, .lit "]"]
  let attributeType ← requireObject attributeType context line
  requireMembers attributeType ["lists", "name"] context line
  discard <| byteValue attributeType context "name" line
  let lists ← requireList (← dictItem attributeType "lists") (field context "lists") line
  checkEach (attributeList context line) 0 lists

def validateOfficialAttributes (value : Json) (line : Nat) : Except PyError Unit := do
  checkEach (attributeType line) 0 (← requireList value [.lit "entry.official_attributes"] line)

def introScopes : List String := ["module", "testament", "book", "chapter", "verse"]

def validateScope (value : Json) (line : Nat) : Except PyError Unit := do
  let context := [.lit "entry.scope"]
  let scope ← requireObject value context line
  requireMembers scope ["index", "type"] context line
  discard <| natural scope "index" (field context "index") line 0 none
  let scopeType ← requireString (← dictItem scope "type") (field context "type") line
  if scopeType = text "sword_key" then return
  failIf (scopeType ≠ text "verse_key") [.lit "unknown entry.scope.type ", .repr scopeType] line
  requireMembers scope ["book", "book_abbreviation", "book_name", "chapter", "intro_scope",
    "osis_reference", "suffix", "testament", "verse", "versification"] context line
  checkAll ["book", "chapter", "testament", "verse"] fun name =>
    discard <| natural scope name (field context name) line 0 none
  discard <| natural scope "suffix" (field context "suffix") line 0 (some 255)
  let introScope ← requireString (← dictItem scope "intro_scope") (field context "intro_scope") line
  discard <| oneOf introScopes id introScope [.lit "entry.scope.intro_scope is unknown"] line
  checkAll ["book_abbreviation", "book_name"] fun name =>
    match present scope name with
    | none => .ok ()
    | some value => discard <| decodeByteValue value (field context name) line
  checkAll ["osis_reference", "versification"] fun name => discard <| byteValue scope context name line

def entryMembers : List String :=
  ["annotation_segments", "key", "official_attributes", "ordinal", "projections_available", "raw",
    "rendered_default", "scope", "stripped"]

def entryPayload (record : Dict) (line : Nat) : Except PyError Unit := do
  let context := [.lit "entry"]
  discard <| byteValue record context "key" line
  let raw ← byteValue record context "raw" line
  checkAll ["normalized_raw", "normalized_stripped"] fun name => normalizedField record name line
  failIf ((present record "normalized_stripped").isSome ∧ (present record "normalized_raw").isNone)
    [.lit "entry.normalized_stripped requires normalized_raw"] line
  let projections ← requireBoolean (← dictItem record "projections_available")
    (field context "projections_available") line
  checkAll ["rendered_default", "stripped"] fun name => projectionField record projections name line
  let segments ← requireList (← dictItem record "annotation_segments")
    (field context "annotation_segments") line
  let reconstructed ← annotationSegments line 0 segments []
  failIf (reconstructed ≠ raw) [.lit "entry.annotation_segments do not reconstruct entry.raw"] line
  validateOfficialAttributes (← dictItem record "official_attributes") line
  validateScope (← dictItem record "scope") line

/-! ## Artifacts and diagnostics -/

def artifactBeginId (record : Dict) (line : Nat) : Except PyError Nat := do
  let context := [.lit "artifact_begin"]
  requireMembers record ["artifact_id", "file_type", "mode", "path", "role"] context line
  natural record "artifact_id" (field context "artifact_id") line 0 none

structure BeginFields where
  fileType : FileType
  mode : Nat
  role : Text
  path : Bytes
  components : List Bytes
deriving DecidableEq

def beginFields (record : Dict) (line : Nat) : Except PyError BeginFields := do
  let context := [.lit "artifact_begin"]
  let fileType ← requireString (← dictItem record "file_type") (field context "file_type") line
  let fileType ← oneOf [.regular, .directory, .symlink] FileType.name fileType
    [.lit "unknown artifact file_type ", .repr fileType] line
  let mode ← natural record "mode" (field context "mode") line 0 (some 0o7777)
  let role ← requireString (← dictItem record "role") (field context "role") line
  let path ← byteValue record context "path" line
  let components ← validateRelativePath path (field context "path") line (fileType = .directory)
  return ⟨fileType, mode, role, path, components⟩

/-- The target of a symlink and the expected size of a regular file. -/
def beginContent (record : Dict) (fileType : FileType) (line : Nat) :
    Except PyError (Option Bytes × Option Nat) := do
  let context := [.lit "artifact_begin"]
  match fileType with
  | .regular => do
    requireMembers record ["size_expected"] context line
    let sizeExpected ← natural record "size_expected" (field context "size_expected") line 0 none
    return (none, some sizeExpected)
  | .symlink => do
    requireMembers record ["target"] context line
    let target ← byteValue record context "target" line
    failIf (target.contains nul = true) [.lit "artifact_begin.target may not contain NUL"] line
    return (some target, none)
  | .directory => return (none, none)

def chunkIds (record : Dict) (line : Nat) : Except PyError (Nat × Nat) := do
  let context := [.lit "artifact_chunk"]
  requireMembers record ["artifact_id", "data", "index"] context line
  let artifactId ← natural record "artifact_id" (field context "artifact_id") line 0 none
  let index ← natural record "index" (field context "index") line 0 none
  return (artifactId, index)

def chunkData (record : Dict) (line : Nat) : Except PyError Bytes :=
  byteValue record [.lit "artifact_chunk"] "data" line

def endId (record : Dict) (line : Nat) : Except PyError Nat := do
  let context := [.lit "artifact_end"]
  requireMembers record ["artifact_id", "sha256", "size"] context line
  natural record "artifact_id" (field context "artifact_id") line 0 none

def endDeclared (record : Dict) (line : Nat) : Except PyError (Nat × Text) := do
  let context := [.lit "artifact_end"]
  let size ← natural record "size" (field context "size") line 0 none
  let sha256 ← requireSha256 (← dictItem record "sha256") (field context "sha256") line
  return (size, sha256)

def endStable (record : Dict) (line : Nat) : Except PyError Bool := do
  let context := [.lit "artifact_end"]
  requireMembers record ["stable"] context line
  requireBoolean (← dictItem record "stable") (field context "stable") line

def diagnosticFields (record : Dict) (line : Nat) : Except PyError Severity := do
  let context := [.lit "diagnostic"]
  requireMembers record ["code", "message", "severity"] context line
  discard <| requireString (← dictItem record "code") (field context "code") line
  discard <| byteValue record context "message" line
  let severity ← requireString (← dictItem record "severity") (field context "severity") line
  oneOf severities Severity.name severity [.lit "unknown diagnostic severity ", .repr severity] line

/-! ## The footer -/

/-- The loop over `counts.items()`. -/
def normalizedCounts (line : Nat) : Dict → Except PyError (List (RecordType × Int))
  | [] => .ok []
  | (name, count) :: rest => do
    let type ← oneOf (recordTypes.filter (· ≠ .footer)) RecordType.name name
      [.lit "footer.counts contains unknown record type ", .repr name] line
    let count ← requireInteger count [.lit "footer.counts.", .text name] line 0 none
    return (type, count) :: (← normalizedCounts line rest)

/-- The loop over the severities. -/
def observedDiagnostics (diagnostics : Dict) (line : Nat) :
    List Severity → Except PyError (List (Severity × Int))
  | [] => .ok []
  | severity :: rest => do
    let context := [.lit "footer.diagnostics.", .lit severity.name]
    requireDiagnostic diagnostics severity context line
    let count ← requireInteger (← dictItem diagnostics severity.name) context line 0 none
    return (severity, count) :: (← observedDiagnostics diagnostics line rest)
where
  /-- `if severity not in diagnostics`. -/
  requireDiagnostic (diagnostics : Dict) (severity : Severity) (context : Message) (line : Nat) :
      Except PyError Unit :=
    failIf (dictGet diagnostics severity.name).isNone (context ++ [.lit " is required"]) line

/-- `set(diagnostics) - SEVERITIES`. -/
def unknownSeverity (diagnostics : Dict) : Bool :=
  diagnostics.any fun member => !(severities.map fun severity => text severity.name).contains member.1

end GetBibleSword.Tool
