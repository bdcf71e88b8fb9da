import GetBibleSword.Tool.Records

/-!
# The validator

The class `Validator` of `tools/getbiblesword_v1.py`. Nothing catches an exception between `validate`
and its caller, so a method returns the object it leaves, or raises.

* `Validator` : the fields of the object; a hash object is the octets it has been fed;
* `validateHeader`, ..., `validateFooter` : the handlers; `validateRecord` : the dispatch;
* `readline`, `rawLines`, `readRecord`, `validate` : the loop.
-/

namespace GetBibleSword.Tool
open GetBibleSword.Lib

/-! ## The object -/

structure Artifact where
  artifactId : Nat
  path : Bytes
  components : List Bytes
  fileType : FileType
  mode : Nat
  role : Text
  target : Option Bytes
  size : Nat
  sha256 : Text
deriving DecidableEq

structure ActiveArtifact where
  artifactId : Nat
  path : Bytes
  components : List Bytes
  fileType : FileType
  mode : Nat
  role : Text
  target : Option Bytes
  sizeExpected : Option Nat
  /-- What `hash` has been fed. -/
  hashed : Bytes
  size : Nat
  chunks : Nat
  shortChunkSeen : Bool
deriving DecidableEq

structure Validator where
  maximumRecordBytes : Nat
  sequence : Nat
  counts : RecordType → Nat
  /-- What `stream_hash` has been fed. -/
  streamHashed : Bytes
  header : Option Dict
  footer : Option Dict
  /-- `none` before the header, where the source has the empty string. -/
  command : Option Command
  phase : Nat
  moduleCount : Nat
  entryCount : Nat
  configSourceOrdinal : Nat
  configEntryOrdinal : Nat
  diagnostics : Severity → Nat
  artifacts : List Artifact
  activeArtifact : Option ActiveArtifact
  artifactPaths : List (List Bytes)
  chunkSize : Option Nat

/-- `__init__`. -/
def Validator.new (maximumRecordBytes : Nat) : Except PyError Validator :=
  if maximumRecordBytes < 1024 then .error (.value "maximum_record_bytes must be at least 1024")
  else .ok {
    maximumRecordBytes := maximumRecordBytes
    sequence := 0
    counts := fun _ => 0
    streamHashed := []
    header := none
    footer := none
    command := none
    phase := 0
    moduleCount := 0
    entryCount := 0
    configSourceOrdinal := 0
    configEntryOrdinal := 0
    diagnostics := fun _ => 0
    artifacts := []
    activeArtifact := none
    artifactPaths := []
    chunkSize := none }

/-- `counter[key] += 1`. -/
def increment {α : Type} [DecidableEq α] (counter : α → Nat) (key : α) : α → Nat :=
  fun k => if k = key then counter k + 1 else counter k

/-! ## Handlers -/

namespace Validator

def advance (v : Validator) (target : Nat) (type : RecordType) (line : Nat) : Except PyError Validator := do
  failIf (target < v.phase) [.lit type.name, .lit " appears outside the required record order"] line
  return { v with phase := target }

def extractOnly (v : Validator) (type : RecordType) (line : Nat) : Except PyError Unit := do
  failIf (v.command ≠ some .extract) [.lit type.name, .lit " is not permitted in a list stream"] line
  failIf (v.moduleCount ≠ 1) [.lit type.name, .lit " requires a preceding module record"] line

/-- `if ordinal != expected: fail(...)`. -/
def expect (ordinal expected : Nat) (name : String) (line : Nat) : Except PyError Unit :=
  failIf (ordinal ≠ expected) [.lit name, .lit " is ", .int ordinal, .lit ", expected ", .int expected] line

def validateHeader (v : Validator) (record : Dict) (line : Nat) : Except PyError Validator := do
  failIf (v.header.isSome ∨ v.sequence ≠ 0) [.lit "exactly one header is required at sequence 0"] line
  let fields ← headerFields record line
  return { v with
    command := some fields.command
    chunkSize := if fields.command = .extract then fields.chunkSize else v.chunkSize
    header := some record }

def validateModule (v : Validator) (record : Dict) (line : Nat) : Except PyError Validator := do
  let v ← v.advance 1 .module line
  failIf (v.command = some .extract ∧ v.moduleCount ≠ 0)
    [.lit "an extract stream may contain at most one module"] line
  moduleFields record line
  return { v with moduleCount := v.moduleCount + 1 }

/-- What the handlers of numbered records share: the command, the order, the ordinal expected next
and the rest of the fields. -/
def ordinalRecord (v : Validator) (type : RecordType) (target : Nat) (members : List String)
    (expected : Nat) (payload : Dict → Nat → Except PyError Unit) (record : Dict) (line : Nat) :
    Except PyError Validator := do
  v.extractOnly type line
  let v ← v.advance target type line
  let ordinal ← ordinalField record type members line
  expect ordinal expected (type.name ++ ".ordinal") line
  payload record line
  return v

def validateConfigSource (v : Validator) (record : Dict) (line : Nat) : Except PyError Validator := do
  let v ← v.ordinalRecord .configSource 2 configSourceMembers v.configSourceOrdinal configSourcePayload
    record line
  return { v with configSourceOrdinal := v.configSourceOrdinal + 1 }

def validateConfigEntry (v : Validator) (record : Dict) (line : Nat) : Except PyError Validator := do
  let v ← v.ordinalRecord .configEntry 3 configEntryMembers v.configEntryOrdinal configEntryPayload
    record line
  return { v with configEntryOrdinal := v.configEntryOrdinal + 1 }

def validateEntry (v : Validator) (record : Dict) (line : Nat) : Except PyError Validator := do
  let v ← v.ordinalRecord .entry 4 entryMembers v.entryCount entryPayload record line
  return { v with entryCount := v.entryCount + 1 }

def validateArtifactBegin (v : Validator) (record : Dict) (line : Nat) : Except PyError Validator := do
  v.extractOnly .artifactBegin line
  let v ← v.advance 5 .artifactBegin line
  failIf v.activeArtifact.isSome
    [.lit "artifact_begin may not occur before the active artifact ends"] line
  let artifactId ← artifactBeginId record line
  expect artifactId v.artifacts.length "artifact_id" line
  let fields ← beginFields record line
  failIf (fields.components ∈ v.artifactPaths) [.lit "artifact paths must be unique"] line
  let (target, sizeExpected) ← beginContent record fields.fileType line
  return { v with
    artifactPaths := fields.components :: v.artifactPaths
    activeArtifact := some {
      artifactId := artifactId
      path := fields.path
      components := fields.components
      fileType := fields.fileType
      mode := fields.mode
      role := fields.role
      target := target
      sizeExpected := sizeExpected
      hashed := []
      size := 0
      chunks := 0
      shortChunkSeen := false } }

/-- `if active is None: fail(...)`. -/
def requireActive (v : Validator) (message : Message) (line : Nat) : Except PyError ActiveArtifact :=
  match v.activeArtifact with
  | some active => .ok active
  | none => fail message line

/-- `assert value is not None`. -/
def asserted {α : Type} (value : Option α) : Except PyError α :=
  match value with
  | some a => .ok a
  | none => .error .assertion

def validateArtifactChunk (v : Validator) (record : Dict) (line : Nat) : Except PyError Validator := do
  let v ← v.advance 5 .artifactChunk line
  let misplaced := [.lit "artifact_chunk requires an active regular artifact"]
  let active ← v.requireActive misplaced line
  failIf (active.fileType ≠ .regular) misplaced line
  let (artifactId, index) ← chunkIds record line
  failIf (artifactId ≠ active.artifactId)
    [.lit "artifact_chunk.artifact_id does not match artifact_begin"] line
  expect index active.chunks "artifact_chunk.index" line
  let data ← chunkData record line
  let chunkSize ← asserted v.chunkSize
  failIf (data = []) [.lit "regular artifacts may not contain empty chunks"] line
  failIf (data.length > chunkSize) [.lit "artifact chunk exceeds header.artifact_chunk_size"] line
  failIf active.shortChunkSeen [.lit "a short artifact chunk must be the final chunk"] line
  return { v with
    activeArtifact := some { active with
      shortChunkSeen := if data.length < chunkSize then true else active.shortChunkSeen
      hashed := active.hashed ++ data
      size := active.size + data.length
      chunks := active.chunks + 1 } }

/-- What the end of a group is compared with: its size and digest. -/
def actualContent (active : ActiveArtifact) (record : Dict) (line : Nat) : Except PyError (Nat × Text) :=
  match active.fileType with
  | .symlink => do
    let target ← asserted active.target
    return (target.length, Sha256.hexdigest target)
  | .directory => return (0, Sha256.hexdigest [])
  | .regular => do
    let stable ← endStable record line
    failIf (stable ∧ active.sizeExpected ≠ some active.size)
      [.lit "stable artifact size does not match size_expected"] line
    return (active.size, Sha256.hexdigest active.hashed)

def validateArtifactEnd (v : Validator) (record : Dict) (line : Nat) : Except PyError Validator := do
  let v ← v.advance 5 .artifactEnd line
  let active ← v.requireActive [.lit "artifact_end requires an active artifact"] line
  let artifactId ← endId record line
  failIf (artifactId ≠ active.artifactId)
    [.lit "artifact_end.artifact_id does not match artifact_begin"] line
  let (declaredSize, declaredHash) ← endDeclared record line
  let (actualSize, actualHash) ← actualContent active record line
  failIf (declaredSize ≠ actualSize ∨ declaredHash ≠ actualHash)
    [.lit "artifact_end digest or size does not match the artifact bytes"] line
  return { v with
    artifacts := v.artifacts ++ [{
      artifactId := active.artifactId
      path := active.path
      components := active.components
      fileType := active.fileType
      mode := active.mode
      role := active.role
      target := active.target
      size := actualSize
      sha256 := actualHash }]
    activeArtifact := none }

def validateDiagnostic (v : Validator) (record : Dict) (line : Nat) : Except PyError Validator := do
  failIf v.activeArtifact.isSome [.lit "diagnostics may not split an artifact record group"] line
  let severity ← diagnosticFields record line
  return { v with diagnostics := increment v.diagnostics severity }

/-- `_validate_record`. The loop never dispatches a footer here. -/
def validateRecord (v : Validator) (type : RecordType) (record : Dict) (line : Nat) :
    Except PyError Validator := do
  failIf (v.header.isNone ∧ type ≠ .header) [.lit "the first record must be a header"] line
  match type with
  | .header => v.validateHeader record line
  | .module => v.validateModule record line
  | .configSource => v.validateConfigSource record line
  | .configEntry => v.validateConfigEntry record line
  | .entry => v.validateEntry record line
  | .artifactBegin => v.validateArtifactBegin record line
  | .artifactChunk => v.validateArtifactChunk record line
  | .artifactEnd => v.validateArtifactEnd record line
  | .diagnostic => v.validateDiagnostic record line
  | .footer => return v

/-! ## The footer -/

def checkDigest (v : Validator) (record : Dict) (line : Nat) : Except PyError Unit := do
  let declaredHash ← requireSha256 (← dictItem record "stream_sha256") (field [.lit "footer"] "stream_sha256")
    line
  failIf (declaredHash ≠ Sha256.hexdigest v.streamHashed)
    [.lit "footer.stream_sha256 does not match preceding NDJSON bytes"] line

/-- `normalized_counts == dict(self.counts)`: a counter holds a key once it has been counted. -/
def SameCounts (normalized : List (RecordType × Int)) (counts : RecordType → Nat) : Prop :=
  ∀ type ∈ recordTypes, normalized.lookup type = if counts type = 0 then none else some (counts type : Int)

instance (normalized : List (RecordType × Int)) (counts : RecordType → Nat) :
    Decidable (SameCounts normalized counts) :=
  inferInstanceAs (Decidable (∀ type ∈ recordTypes, _))

def checkCounts (v : Validator) (record : Dict) (line : Nat) : Except PyError Unit := do
  let counts ← requireObject (← dictItem record "counts") (field [.lit "footer"] "counts") line
  let normalized ← normalizedCounts line counts
  failIf (¬ SameCounts normalized v.counts)
    [.lit "footer.counts does not match observed record counts"] line

/-- `sum(artifact.size for artifact in self.artifacts)`. -/
def artifactBytes (artifacts : List Artifact) : Nat := (artifacts.map Artifact.size).sum

def checkTotals (v : Validator) (record : Dict) (line : Nat) : Except PyError Unit := do
  let context := [.lit "footer"]
  let declaredEntries ← natural record "entries" (field context "entries") line 0 none
  let declaredArtifacts ← natural record "artifacts" (field context "artifacts") line 0 none
  let declaredBytes ← natural record "artifact_bytes" (field context "artifact_bytes") line 0 none
  failIf (declaredEntries ≠ v.entryCount) [.lit "footer.entries does not match observed entries"] line
  failIf (declaredArtifacts ≠ v.artifacts.length)
    [.lit "footer.artifacts does not match observed artifacts"] line
  failIf (declaredBytes ≠ artifactBytes v.artifacts)
    [.lit "footer.artifact_bytes does not match observed artifact bytes"] line

def checkDiagnostics (v : Validator) (record : Dict) (line : Nat) : Except PyError Unit := do
  let diagnostics ← requireObject (← dictItem record "diagnostics") (field [.lit "footer"] "diagnostics") line
  let observed ← observedDiagnostics diagnostics line severities
  failIf (unknownSeverity diagnostics = true)
    [.lit "footer.diagnostics contains unknown severities"] line
  failIf (observed ≠ severities.map fun severity => (severity, (v.diagnostics severity : Int)))
    [.lit "footer.diagnostics does not match observed diagnostics"] line

def validateFooter (v : Validator) (record : Dict) (line : Nat) : Except PyError Validator := do
  failIf v.header.isNone [.lit "footer may not precede the header"] line
  failIf v.footer.isSome [.lit "exactly one footer is permitted"] line
  failIf v.activeArtifact.isSome [.lit "footer may not split an artifact record group"] line
  requireMembers record ["artifact_bytes", "artifacts", "counts", "diagnostics", "entries",
    "stream_sha256", "success"] [.lit "footer"] line
  v.checkDigest record line
  v.checkCounts record line
  v.checkTotals record line
  v.checkDiagnostics record line
  let success ← requireBoolean (← dictItem record "success") (field [.lit "footer"] "success") line
  failIf (success ≠ decide (v.diagnostics .error = 0))
    [.lit "footer.success is inconsistent with error diagnostics"] line
  return { v with footer := some record }

end Validator

/-! ## The loop -/

def lf : Byte := octet 0x0a

/-- `readline(size)`: at most `size` octets, up to and including the first LF; and what is left. -/
def readline : Nat → Bytes → Bytes × Bytes
  | 0, input => ([], input)
  | _ + 1, [] => ([], [])
  | size + 1, byte :: input =>
    if byte = lf then ([byte], input)
    else
      let p := readline size input
      (byte :: p.1, p.2)

/-- What successive calls of `readline` return up to the first empty result; `fuel` bounds them. -/
def rawLines : Nat → Nat → Bytes → List Bytes
  | 0, _, _ => []
  | fuel + 1, size, input =>
    let p := readline size input
    if p.1 = [] then [] else p.1 :: rawLines fuel size p.2

/-- The checks of the loop up to the dispatch: framing, type and sequence number. -/
def readRecord (maximumRecordBytes sequence : Nat) (rawLine : Bytes) (line : Nat) :
    Except PyError (RecordType × Dict) := do
  failIf (rawLine.length > maximumRecordBytes)
    [.lit "record exceeds the ", .int maximumRecordBytes, .lit "-byte safety limit"] line
  failIf (rawLine.getLast? ≠ some lf) [.lit "every NDJSON record must end with LF"] line
  failIf (rawLine = [lf]) [.lit "blank NDJSON records are not permitted"] line
  let record ← parseJsonObject rawLine.dropLast line
  let recordType ← requireString ((dictGet record "type").getD .null) [.lit "record.type"] line
  let type ← oneOf recordTypes RecordType.name recordType
    [.lit "unknown record type ", .repr recordType] line
  let recordSequence ← requireInteger ((dictGet record "sequence").getD .null) [.lit "record.sequence"]
    line 0 none
  failIf (recordSequence ≠ sequence)
    [.lit "record.sequence is ", .int recordSequence, .lit ", expected ", .int sequence] line
  return (type, record)

/-- The dispatch of one round: a footer, or a record that is counted and hashed. -/
def Validator.dispatch (v : Validator) (type : RecordType) (record : Dict) (rawLine : Bytes) (line : Nat) :
    Except PyError Validator :=
  if type = .footer then v.validateFooter record line
  else do
    failIf v.footer.isSome [.lit "records may not follow the footer"] line
    let v ← v.validateRecord type record line
    validateEmbeddedByteValues [.lit type.name] line (.obj record)
    return { v with counts := increment v.counts type, streamHashed := v.streamHashed ++ rawLine }

/-- One round of the loop. -/
def Validator.validateLine (v : Validator) (rawLine : Bytes) (line : Nat) : Except PyError Validator := do
  let (type, record) ← readRecord v.maximumRecordBytes v.sequence rawLine line
  let v ← v.dispatch type record rawLine line
  return { v with sequence := v.sequence + 1 }

/-- The loop over the lines; `line` is `line_number` before the first. -/
def Validator.validateLines (v : Validator) (line : Nat) : List Bytes → Except PyError Validator
  | [] => .ok v
  | rawLine :: rawLines => do
    let v ← v.validateLine rawLine (line + 1)
    v.validateLines (line + 1) rawLines

structure ValidationSummary where
  command : Option Command
  producerVersion : Text
  swordVersion : Text
  records : Nat
  modules : Nat
  entries : Nat
  artifacts : List Artifact
  artifactBytes : Nat
  diagnostics : Severity → Nat
  success : Bool
  streamSha256 : Text

/-- `if c: fail(message)`, which names no line. -/
def failStream (c : Prop) [Decidable c] (message : Message) : Except PyError Unit :=
  if c then .error (.contract message none) else .ok ()

@[simp] theorem failStream_eq_ok {c : Prop} [Decidable c] {message : Message} {u : Unit} :
    failStream c message = .ok u ↔ ¬ c := by
  unfold failStream
  split_ifs with h <;> simp [h]

/-- What follows the loop; `line` is the final `line_number`. -/
def Validator.summarize (v : Validator) (line : Nat) : Except PyError ValidationSummary := do
  failStream (line = 0) [.lit "the NDJSON stream is empty"]
  failStream v.footer.isNone [.lit "the NDJSON stream has no footer"]
  failStream v.activeArtifact.isSome
    [.lit "artifact ", .int ((v.activeArtifact.map ActiveArtifact.artifactId).getD 0),
      .lit " has no artifact_end"]
  let header ← Validator.asserted v.header
  let footer ← Validator.asserted v.footer
  let success ← requireBoolean (← dictItem footer "success") (field [.lit "footer"] "success") line
  failStream (v.command = some .extract ∧ success = true ∧ v.moduleCount ≠ 1)
    [.lit "a successful extract stream must contain exactly one module"]
  failStream (v.command = some .list ∧ (v.entryCount ≠ 0 ∨ v.artifacts ≠ []))
    [.lit "a list stream may not contain entries or artifacts"]
  let producerVersion ← requireString (← dictItem header "producer_version")
    (field [.lit "header"] "producer_version") 1
  let swordVersion ← requireString (← dictItem header "sword_version")
    (field [.lit "header"] "sword_version") 1
  let streamSha256 ← requireString (← dictItem footer "stream_sha256")
    (field [.lit "footer"] "stream_sha256") line
  return {
    command := v.command
    producerVersion := producerVersion
    swordVersion := swordVersion
    records := v.sequence
    modules := v.moduleCount
    entries := v.entryCount
    artifacts := v.artifacts
    artifactBytes := Validator.artifactBytes v.artifacts
    diagnostics := v.diagnostics
    success := success
    streamSha256 := streamSha256 }

/-- `Validator(maximum_record_bytes).validate(input_stream)`. -/
def validate (maximumRecordBytes : Nat) (input : Bytes) : Except PyError ValidationSummary := do
  let v ← Validator.new maximumRecordBytes
  let lines := rawLines input.length (maximumRecordBytes + 1) input
  let v ← v.validateLines 0 lines
  v.summarize lines.length

end GetBibleSword.Tool
