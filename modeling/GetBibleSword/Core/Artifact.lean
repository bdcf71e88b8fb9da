import GetBibleSword.Core.Session

/-!
# Emitting artifacts

`emit_artifacts` of `src/artifact.cpp`.

* `Inspection` : what the system calls on one candidate answer;
* `readLoop`, `emitArtifact`, `emitCandidates`, `emitArtifacts` : the function and its two loops;
* `Inspection.records`, ... : what a run without faults writes and counts; `emitArtifacts_noFaults`.
-/

namespace GetBibleSword.Core
open GetBibleSword.Lib

/-! ## What the system answers -/

/-- An `errno` with its message. -/
structure SystemError where
  code : Nat
  message : Bytes
deriving DecidableEq

/-- `EINTR`. -/
def interruptedCall : Nat := 4

structure Timespec where
  sec : Int
  nsec : Int
deriving DecidableEq

/-- The members of `struct stat` the source reads. -/
structure FileState where
  dev : Nat
  ino : Nat
  mode : Nat
  size : Nat
  mtim : Timespec
  ctim : Timespec
deriving DecidableEq

def permissionMask : Nat := 0o7777

/-- `S_IFMT`. -/
def typeMask : Nat := 0o170000

def FileState.isDirectory (st : FileState) : Bool := st.mode &&& typeMask = 0o040000

def FileState.isLink (st : FileState) : Bool := st.mode &&& typeMask = 0o120000

def FileState.isRegular (st : FileState) : Bool := st.mode &&& typeMask = 0o100000

def sameFileState (before after : FileState) : Bool :=
  before.dev = after.dev && before.ino = after.ino && before.mode = after.mode &&
    before.size = after.size && before.mtim.sec = after.mtim.sec && before.mtim.nsec = after.mtim.nsec &&
    before.ctim.sec = after.ctim.sec && before.ctim.nsec = after.ctim.nsec

/-- One answer of `read`; no octets is the end of the file. -/
inductive ReadResult where
  | data (bytes : Bytes)
  | fail (error : SystemError)
deriving DecidableEq

/-- The answers to the system calls on one candidate, in the order of the calls. -/
structure Inspection where
  lstat : Except SystemError FileState
  /-- The whole target; `readlink` cuts it to the size of its buffer. -/
  readlink : Except SystemError Bytes
  open_ : Except SystemError Unit
  opened : Except SystemError FileState
  /-- Behind the last answer `read` is at the end of the file. -/
  reads : List ReadResult
  after : Except SystemError FileState

structure ArtifactCandidate where
  absolutePath : Bytes
  relativePath : Bytes
  role : Bytes
deriving DecidableEq

structure Diagnostic where
  severity : Bytes
  code : Bytes
  message : Bytes
  context : JsonFields

structure ArtifactResult where
  artifacts : Nat
  bytes : Nat
  diagnostics : List Diagnostic
  success : Bool

/-! ## The records -/

/-- `std::numeric_limits<ssize_t>::max()`. -/
def ssizeMax : Nat := 2 ^ 63 - 1

/-- A diagnostic of severity `error`. -/
def errorDiagnostic (code message : String) (context : List (Bytes × Bytes)) : Diagnostic where
  severity := ascii "error"
  code := ascii code
  message := ascii message
  context := fieldsOf context

namespace ArtifactCandidate
variable (candidate : ArtifactCandidate)

/-- The member `path` of a context. -/
def pathField : Bytes × Bytes := (ascii "path", byteValueJson candidate.relativePath)

/-- A diagnostic about the candidate alone. -/
def failed (code message : String) : Diagnostic := errorDiagnostic code message [candidate.pathField]

/-- A diagnostic about a call on the candidate that failed. -/
def failedWith (code message : String) (error : SystemError) : Diagnostic :=
  errorDiagnostic code message [(ascii "detail", byteValueJson error.message), candidate.pathField]

def statFailed : SystemError → Diagnostic :=
  candidate.failedWith "artifact.stat.failed" "Unable to inspect an artifact."

def symlinkReadFailed : SystemError → Diagnostic :=
  candidate.failedWith "artifact.symlink.read_failed" "Unable to read a symbolic-link target."

def openFailed : SystemError → Diagnostic :=
  candidate.failedWith "artifact.open.failed" "Unable to open an artifact without following links."

def changedBeforeRead : Diagnostic :=
  candidate.failed "artifact.changed_before_read" "Artifact identity changed before reading."

def readFailed : SystemError → Diagnostic :=
  candidate.failedWith "artifact.read.failed" "Unable to read an artifact completely."

def changedDuringRead : Diagnostic :=
  candidate.failed "artifact.changed_during_read" "Artifact changed while it was being read."

def typeUnsupported (mode : Nat) : Diagnostic :=
  errorDiagnostic "artifact.type.unsupported" "The module tree contains an unsupported filesystem object."
    [(ascii "mode", decimal mode), candidate.pathField]

/-- The fields `common`. -/
def common (artifactId mode : Nat) : List (Bytes × Bytes) :=
  [(ascii "artifact_id", decimal artifactId), (ascii "mode", decimal (mode &&& permissionMask)),
    (ascii "path", byteValueJson candidate.relativePath), (ascii "role", jsonString candidate.role)]

/-- The fields of `artifact_begin`: `common` and those of the type. -/
def beginFields (artifactId mode : Nat) (more : List (Bytes × Bytes)) : JsonFields :=
  fieldsOf (candidate.common artifactId mode ++ more)

end ArtifactCandidate

def directoryFields : List (Bytes × Bytes) := [(ascii "file_type", ascii "\"directory\"")]

def symlinkFields (target : Bytes) : List (Bytes × Bytes) :=
  [(ascii "file_type", ascii "\"symlink\""), (ascii "target", byteValueJson target)]

def regularFields (size : Nat) : List (Bytes × Bytes) :=
  [(ascii "file_type", ascii "\"regular\""), (ascii "size_expected", decimal size)]

def chunkFields (artifactId index : Nat) (chunk : Bytes) : JsonFields :=
  fieldsOf [(ascii "artifact_id", decimal artifactId), (ascii "data", byteValueJson chunk),
    (ascii "index", decimal index)]

/-- The fields of `artifact_end` without `stable`. -/
def endFields (artifactId size : Nat) (sha256 : Bytes) : List (Bytes × Bytes) :=
  [(ascii "artifact_id", decimal artifactId), (ascii "sha256", jsonString sha256),
    (ascii "size", decimal size)]

def stableField (stable : Bool) : Bytes × Bytes :=
  (ascii "stable", if stable then ascii "true" else ascii "false")

def diagnosticFields (value : Diagnostic) : JsonFields :=
  value.context.emplaceAll [(ascii "code", jsonString value.code),
    (ascii "message", byteValueJson value.message), (ascii "severity", jsonString value.severity)]

/-! ## The function -/

section Emission
variable (faults : Faults)

/-- `result.success = false; result.diagnostics.push_back(...)`. -/
def pushFailure (result : ArtifactResult) (value : Diagnostic) : Action ArtifactResult := do
  mayThrow faults .artifacts
  return { result with success := false, diagnostics := result.diagnostics ++ [value] }

/-- What the read loop leaves: `hash`, `total` and `read_failed`, besides the result. -/
structure Reading where
  hash : Sha256
  total : Nat
  readFailed : Bool
  result : ArtifactResult

/-- The loop `while (true)` over the answers of `read`. -/
def readLoop (candidate : ArtifactCandidate) (artifactId : Nat) :
    List ReadResult → Nat → Reading → Action Reading
  | [], _, reading => pure reading
  | .fail error :: reads, chunkIndex, reading =>
    if error.code = interruptedCall then readLoop candidate artifactId reads chunkIndex reading
    else do
      let result ← pushFailure faults reading.result (candidate.readFailed error)
      return { reading with readFailed := true, result := result }
  | .data chunk :: reads, chunkIndex, reading =>
    if chunk = [] then pure reading
    else do
      emitRecord faults .artifactChunk (chunkFields artifactId chunkIndex chunk)
      readLoop candidate artifactId reads (chunkIndex + 1)
        { reading with hash := reading.hash.update chunk, total := reading.total + chunk.length }

/-- The branch of directories. -/
def emitDirectory (candidate : ArtifactCandidate) (metadata : FileState) (artifactId : Nat)
    (result : ArtifactResult) : Action (Bool × ArtifactResult) := do
  emitRecord faults .artifactBegin (candidate.beginFields artifactId metadata.mode directoryFields)
  emitRecord faults .artifactEnd (fieldsOf (endFields artifactId 0 (sha256Hex [])))
  return (true, result)

/-- The branch of symbolic links. -/
def emitSymlink (candidate : ArtifactCandidate) (answers : Inspection) (metadata : FileState)
    (artifactId : Nat) (result : ArtifactResult) : Action (Bool × ArtifactResult) := do
  mayThrow faults .artifacts
  match answers.readlink with
  | .error error => do return (false, ← pushFailure faults result (candidate.symlinkReadFailed error))
  | .ok whole => do
    let target := whole.take (metadata.size + 1)
    emitRecord faults .artifactBegin
      (candidate.beginFields artifactId metadata.mode (symlinkFields target))
    emitRecord faults .artifactEnd (fieldsOf (endFields artifactId target.length (sha256Hex target)))
    return (true, { result with bytes := result.bytes + target.length })

/-- `::fstat(...) == 0 && same_file_state(before, after)`. -/
def unchanged (before : FileState) (after : Except SystemError FileState) : Bool :=
  match after with
  | .ok after => sameFileState before after
  | .error _ => false

/-- `if (!stable)`. -/
def noteChange (candidate : ArtifactCandidate) (stable : Bool) (result : ArtifactResult) :
    Action ArtifactResult :=
  if stable then pure result else pushFailure faults result candidate.changedDuringRead

/-- The branch of regular files, behind the checks of the descriptor. -/
def emitContent (candidate : ArtifactCandidate) (answers : Inspection) (metadata opened : FileState)
    (artifactId : Nat) (result : ArtifactResult) : Action (Bool × ArtifactResult) := do
  emitRecord faults .artifactBegin
    (candidate.beginFields artifactId metadata.mode (regularFields metadata.size))
  let reading ← readLoop faults candidate artifactId answers.reads 0 ⟨Sha256.new, 0, false, result⟩
  let stable := unchanged opened answers.after
  let result ← noteChange faults candidate stable reading.result
  emitRecord faults .artifactEnd (fieldsOf (endFields artifactId reading.total reading.hash.hexDigest ++
    [stableField (stable && !reading.readFailed)]))
  return (true, { result with bytes := result.bytes + reading.total })

/-- The branch of regular files. -/
def emitRegular (candidate : ArtifactCandidate) (answers : Inspection) (metadata : FileState)
    (artifactId : Nat) (result : ArtifactResult) : Action (Bool × ArtifactResult) := do
  match answers.open_ with
  | .error error => return (false, ← pushFailure faults result (candidate.openFailed error))
  | .ok _ =>
    match answers.opened with
    | .error _ => return (false, ← pushFailure faults result candidate.changedBeforeRead)
    | .ok opened =>
      if sameFileState metadata opened then
        emitContent faults candidate answers metadata opened artifactId result
      else return (false, ← pushFailure faults result candidate.changedBeforeRead)

/-- The body of the loop over the candidates; the flag is whether it reaches its end, where the
artifact is counted. -/
def emitArtifact (candidate : ArtifactCandidate) (answers : Inspection) (artifactId : Nat)
    (result : ArtifactResult) : Action (Bool × ArtifactResult) := do
  match answers.lstat with
  | .error error => return (false, ← pushFailure faults result (candidate.statFailed error))
  | .ok metadata => do
    -- `common`
    mayThrow faults .artifacts
    if metadata.isDirectory then emitDirectory faults candidate metadata artifactId result
    else if metadata.isLink then emitSymlink faults candidate answers metadata artifactId result
    else if metadata.isRegular then emitRegular faults candidate answers metadata artifactId result
    else return (false, ← pushFailure faults result (candidate.typeUnsupported metadata.mode))

def emitCandidates : List (ArtifactCandidate × Inspection) → Nat → ArtifactResult → Action ArtifactResult
  | [], _, result => pure result
  | (candidate, answers) :: rest, artifactId, result => do
    let (counted, result) ← emitArtifact faults candidate answers artifactId result
    if counted then
      emitCandidates rest (artifactId + 1) { result with artifacts := result.artifacts + 1 }
    else emitCandidates rest artifactId result

/-- The closing loop. -/
def emitDiagnostics : Nat → List Diagnostic → Action Unit
  | _, [] => pure ()
  | index, value :: values => do
    emitRecord faults (.artifactDiagnostic index) (diagnosticFields value)
    emitDiagnostics (index + 1) values

/-- `emit_artifacts`, each candidate with the answers to the calls made on it. -/
def emitArtifacts (candidates : List (ArtifactCandidate × Inspection)) (chunkSize : Nat) :
    Action ArtifactResult := do
  let result : ArtifactResult := ⟨0, 0, [], true⟩
  if chunkSize = 0 ∨ chunkSize > ssizeMax then
    pushFailure faults result (errorDiagnostic "artifact.chunk_size.invalid"
      "Artifact chunk size is outside the supported range." [])
  else
    -- `std::vector<unsigned char> buffer(chunk_size)`
    mayThrow faults .artifacts
    let result ← emitCandidates faults candidates 0 result
    emitDiagnostics faults 0 result.diagnostics
    return result

end Emission

/-! ## Runs without faults -/

/-- The chunks the loop sees. -/
def delivered : List ReadResult → List Bytes
  | [] => []
  | .fail error :: reads => if error.code = interruptedCall then delivered reads else []
  | .data chunk :: reads => if chunk = [] then [] else chunk :: delivered reads

/-- The failure that ends the loop. -/
def readError : List ReadResult → Option SystemError
  | [] => none
  | .fail error :: reads => if error.code = interruptedCall then readError reads else some error
  | .data chunk :: reads => if chunk = [] then none else readError reads

/-- The records of the chunks, numbered from `index` on. -/
def chunkRecords (artifactId : Nat) : Nat → List Bytes → List (Bytes × JsonFields)
  | _, [] => []
  | index, chunk :: chunks =>
    (Purpose.artifactChunk.type, chunkFields artifactId index chunk) ::
      chunkRecords artifactId (index + 1) chunks

/-- What one candidate adds. -/
structure Capture where
  records : List (Bytes × JsonFields)
  counted : Bool
  bytes : Nat
  diagnostics : List Diagnostic

/-- Nothing but a diagnostic. -/
def Capture.failure (value : Diagnostic) : Capture := ⟨[], false, 0, [value]⟩

/-- A group of records. -/
def Capture.group (begin : JsonFields) (chunks : List (Bytes × JsonFields)) (ending : JsonFields)
    (bytes : Nat) (diagnostics : List Diagnostic) : Capture where
  records := (Purpose.artifactBegin.type, begin) :: (chunks ++ [(Purpose.artifactEnd.type, ending)])
  counted := true
  bytes := bytes
  diagnostics := diagnostics

/-- The result with more diagnostics, all of them failures. -/
def ArtifactResult.note (result : ArtifactResult) (values : List Diagnostic) : ArtifactResult :=
  { result with
    diagnostics := result.diagnostics ++ values
    success := result.success && values.isEmpty }

def ArtifactResult.add (result : ArtifactResult) (c : Capture) : ArtifactResult :=
  { result.note c.diagnostics with bytes := result.bytes + c.bytes }

section Capture
variable (candidate : ArtifactCandidate) (answers : Inspection)

/-- A regular file whose descriptor has passed its checks. -/
def captureContent (metadata opened : FileState) (artifactId : Nat) : Capture :=
  let chunks := delivered answers.reads
  let stable := unchanged opened answers.after
  Capture.group (candidate.beginFields artifactId metadata.mode (regularFields metadata.size))
    (chunkRecords artifactId 0 chunks)
    (fieldsOf (endFields artifactId chunks.flatten.length (sha256Hex chunks.flatten) ++
      [stableField (stable && (readError answers.reads).isNone)]))
    chunks.flatten.length
    ((readError answers.reads).toList.map candidate.readFailed ++
      if stable then [] else [candidate.changedDuringRead])

def captureRegular (metadata : FileState) (artifactId : Nat) : Capture :=
  match answers.open_ with
  | .error error => .failure (candidate.openFailed error)
  | .ok _ =>
    match answers.opened with
    | .error _ => .failure candidate.changedBeforeRead
    | .ok opened =>
      if sameFileState metadata opened then captureContent candidate answers metadata opened artifactId
      else .failure candidate.changedBeforeRead

def captureSymlink (metadata : FileState) (artifactId : Nat) : Capture :=
  match answers.readlink with
  | .error error => .failure (candidate.symlinkReadFailed error)
  | .ok whole =>
    let target := whole.take (metadata.size + 1)
    Capture.group (candidate.beginFields artifactId metadata.mode (symlinkFields target)) []
      (fieldsOf (endFields artifactId target.length (sha256Hex target))) target.length []

def captureDirectory (metadata : FileState) (artifactId : Nat) : Capture :=
  Capture.group (candidate.beginFields artifactId metadata.mode directoryFields) []
    (fieldsOf (endFields artifactId 0 (sha256Hex []))) 0 []

def capture (artifactId : Nat) : Capture :=
  match answers.lstat with
  | .error error => .failure (candidate.statFailed error)
  | .ok metadata =>
    if metadata.isDirectory then captureDirectory candidate metadata artifactId
    else if metadata.isLink then captureSymlink candidate answers metadata artifactId
    else if metadata.isRegular then captureRegular candidate answers metadata artifactId
    else .failure (candidate.typeUnsupported metadata.mode)

end Capture

/-- The captures of a list of candidates, each with the id it is given. -/
def captures : List (ArtifactCandidate × Inspection) → Nat → List Capture
  | [], _ => []
  | (candidate, answers) :: rest, artifactId =>
    let c := capture candidate answers artifactId
    c :: captures rest (if c.counted then artifactId + 1 else artifactId)

/-- The records of the closing loop. -/
def diagnosticRecords (values : List Diagnostic) : List (Bytes × JsonFields) :=
  values.map fun value => (ascii "diagnostic", diagnosticFields value)

theorem free_fieldsOf {fields : List (Bytes × Bytes)} (h : ascii "sequence" ∉ fields.map Prod.fst)
    (h' : ascii "type" ∉ fields.map Prod.fst) : Free (fieldsOf fields) := by
  unfold Free fieldsOf
  rw [Bool.eq_false_iff, Bool.eq_false_iff, ne_eq, ne_eq, OrdMap.contains_emplaceAll,
    OrdMap.contains_emplaceAll]
  exact ⟨fun hs => hs.elim h (by simp [OrdMap.contains]), fun ht => ht.elim h' (by simp [OrdMap.contains])⟩

theorem free_chunkFields (artifactId index : Nat) (chunk : Bytes) :
    Free (chunkFields artifactId index chunk) := by
  apply free_fieldsOf
  · show ascii "sequence" ∉ [ascii "artifact_id", ascii "data", ascii "index"]
    decide
  · show ascii "type" ∉ [ascii "artifact_id", ascii "data", ascii "index"]
    decide

theorem free_beginFields (candidate : ArtifactCandidate) (artifactId mode : Nat)
    {more : List (Bytes × Bytes)} (h : ascii "sequence" ∉ more.map Prod.fst)
    (h' : ascii "type" ∉ more.map Prod.fst) : Free (candidate.beginFields artifactId mode more) := by
  have hcommon : (candidate.common artifactId mode).map Prod.fst =
      [ascii "artifact_id", ascii "mode", ascii "path", ascii "role"] := rfl
  apply free_fieldsOf
  · rw [List.map_append, List.mem_append, hcommon]
    exact not_or.mpr ⟨by decide, h⟩
  · rw [List.map_append, List.mem_append, hcommon]
    exact not_or.mpr ⟨by decide, h'⟩

theorem free_endFields (artifactId size : Nat) (sha256 : Bytes) :
    Free (fieldsOf (endFields artifactId size sha256)) := by
  apply free_fieldsOf
  · show ascii "sequence" ∉ [ascii "artifact_id", ascii "sha256", ascii "size"]
    decide
  · show ascii "type" ∉ [ascii "artifact_id", ascii "sha256", ascii "size"]
    decide

theorem free_stableFields (artifactId size : Nat) (sha256 : Bytes) (stable : Bool) :
    Free (fieldsOf (endFields artifactId size sha256 ++ [stableField stable])) := by
  apply free_fieldsOf
  · show ascii "sequence" ∉ [ascii "artifact_id", ascii "sha256", ascii "size", ascii "stable"]
    decide
  · show ascii "type" ∉ [ascii "artifact_id", ascii "sha256", ascii "size", ascii "stable"]
    decide

/-- The context of a diagnostic leaves the names of the writer alone. -/
def Diagnostic.Plain (value : Diagnostic) : Prop := Free (diagnosticFields value)

theorem plain_errorDiagnostic (code message : String) {context : List (Bytes × Bytes)}
    (h : ascii "sequence" ∉ context.map Prod.fst) (h' : ascii "type" ∉ context.map Prod.fst) :
    (errorDiagnostic code message context).Plain := by
  have hnames : ∀ name, name ∉ context.map Prod.fst →
      name ∉ [ascii "code", ascii "message", ascii "severity"] →
      (diagnosticFields (errorDiagnostic code message context)).contains name = false := by
    intro name hcontext hown
    rw [Bool.eq_false_iff, ne_eq, diagnosticFields, OrdMap.contains_emplaceAll]
    rintro (hmem | hmem)
    · exact hown hmem
    · rw [errorDiagnostic, fieldsOf, OrdMap.contains_emplaceAll] at hmem
      exact hmem.elim hcontext (by simp [OrdMap.contains])
  exact ⟨hnames _ h (by decide), hnames _ h' (by decide)⟩

section Plain
variable (candidate : ArtifactCandidate) (code message : String)

theorem plain_failed : (candidate.failed code message).Plain := by
  apply plain_errorDiagnostic
  · show ascii "sequence" ∉ [ascii "path"]
    decide
  · show ascii "type" ∉ [ascii "path"]
    decide

theorem plain_failedWith (error : SystemError) : (candidate.failedWith code message error).Plain := by
  apply plain_errorDiagnostic
  · show ascii "sequence" ∉ [ascii "detail", ascii "path"]
    decide
  · show ascii "type" ∉ [ascii "detail", ascii "path"]
    decide

theorem plain_typeUnsupported (mode : Nat) : (candidate.typeUnsupported mode).Plain := by
  apply plain_errorDiagnostic
  · show ascii "sequence" ∉ [ascii "mode", ascii "path"]
    decide
  · show ascii "type" ∉ [ascii "mode", ascii "path"]
    decide

end Plain

theorem pushFailure_noFaults (result : ArtifactResult) (value : Diagnostic) {s : Session} (hs : s.Open) :
    Does (pushFailure noFaults result value) s (result.note [value]) [] := by
  have h : result.note [value] =
      { result with success := false, diagnostics := result.diagnostics ++ [value] } := by
    rw [ArtifactResult.note, List.isEmpty_cons, Bool.and_false]
  rw [h]
  exact Does.bind hs (mayThrow_noFaults .artifacts s) fun t _ => Does.pure _ t

/-- A capture that is only a diagnostic. -/
theorem failure_noFaults (result : ArtifactResult) (value : Diagnostic) {s : Session} (hs : s.Open) :
    Does (do return (false, ← pushFailure noFaults result value)) s
      ((Capture.failure value).counted, result.add (.failure value)) (Capture.failure value).records :=
  Does.bind hs (pushFailure_noFaults result value hs) fun t _ => Does.pure _ t

/-- The loop leaves the digest and the size of what it has emitted. -/
theorem readLoop_noFaults (candidate : ArtifactCandidate) (artifactId : Nat) (reads : List ReadResult) :
    ∀ (index : Nat) (reading : Reading) (done : Bytes) {s : Session}, s.Open →
    Absorbed reading.hash done → reading.total = done.length →
    ∃ after, Does (readLoop noFaults candidate artifactId reads index reading) s after
        (chunkRecords artifactId index (delivered reads)) ∧
      Absorbed after.hash (done ++ (delivered reads).flatten) ∧
      after.total = (done ++ (delivered reads).flatten).length ∧
      after.readFailed = (reading.readFailed || (readError reads).isSome) ∧
      after.result = reading.result.note ((readError reads).toList.map candidate.readFailed) := by
  induction reads with
  | nil =>
    intro index reading done s hs hhash htotal
    refine ⟨reading, Does.pure reading s, ?_, ?_, ?_, ?_⟩
    · simpa [delivered] using hhash
    · simpa [delivered] using htotal
    · simp [readError]
    · simp [readError, ArtifactResult.note]
  | cons answer reads ih =>
    intro index reading done s hs hhash htotal
    cases answer with
    | fail error =>
      rw [readLoop, delivered, readError]
      split_ifs with hcode
      · exact ih index reading done hs hhash htotal
      · refine ⟨{ reading with readFailed := true, result := reading.result.note [candidate.readFailed error] },
          ?_, ?_, ?_, ?_, ?_⟩
        · apply Does.bind hs (pushFailure_noFaults reading.result (candidate.readFailed error) hs)
          intro t _
          exact Does.pure _ t
        · simpa using hhash
        · simpa using htotal
        · simp
        · rfl
    | data chunk =>
      rw [readLoop, delivered, readError]
      split_ifs with hchunk
      · refine ⟨reading, Does.pure reading s, ?_, ?_, ?_, ?_⟩
        · simpa using hhash
        · simpa using htotal
        · simp
        · simp [ArtifactResult.note]
      · have hnext : Absorbed (reading.hash.update chunk) (done ++ chunk) := absorbed_update hhash chunk
        have htotal' : reading.total + chunk.length = (done ++ chunk).length := by
          rw [htotal, List.length_append]
        obtain ⟨t, hemit, hran⟩ := emitRecord_noFaults hs .artifactChunk
          (free_chunkFields artifactId index chunk)
        obtain ⟨after, ⟨u, hloop, hmore⟩, hhash', htotal'', hfailed, hresult⟩ := ih (index + 1)
          { reading with hash := reading.hash.update chunk, total := reading.total + chunk.length }
          (done ++ chunk) (hran.opened hs) hnext htotal'
        rw [List.append_assoc, ← List.flatten_cons] at hhash' htotal''
        refine ⟨after, ⟨u, ?_, hran.trans hmore⟩, hhash', htotal'', hfailed, hresult⟩
        rw [run_bind, hemit]
        exact hloop

section Captures
variable (candidate : ArtifactCandidate) (answers : Inspection) (metadata : FileState) (artifactId : Nat)
  (result : ArtifactResult) {s : Session}

/-- A record in front of what follows. -/
theorem emit_then {β : Type} {purpose : Purpose} {fields : JsonFields} {rest : Action β} {b : β}
    {records : List (Bytes × JsonFields)} (hs : s.Open) (hfree : Free fields)
    (h : ∀ t : Session, t.Open → Does rest t b records) :
    Does (do emitRecord noFaults purpose fields; rest) s b ((purpose.type, fields) :: records) :=
  Does.bind hs (emitRecord_noFaults hs purpose hfree) h

theorem emitDirectory_noFaults (hs : s.Open) :
    Does (emitDirectory noFaults candidate metadata artifactId result) s
      (true, result.add (captureDirectory candidate metadata artifactId))
      (captureDirectory candidate metadata artifactId).records := by
  have hadd : result.add (captureDirectory candidate metadata artifactId) = result := by
    simp [captureDirectory, Capture.group, ArtifactResult.add, ArtifactResult.note]
  rw [hadd]
  apply emit_then hs
  · apply free_beginFields
    · show ascii "sequence" ∉ [ascii "file_type"]
      decide
    · show ascii "type" ∉ [ascii "file_type"]
      decide
  intro t ht
  apply emit_then ht (free_endFields artifactId 0 (sha256Hex []))
  intro u _
  exact Does.pure _ u

theorem emitSymlink_noFaults (hs : s.Open) :
    Does (emitSymlink noFaults candidate answers metadata artifactId result) s
      ((captureSymlink candidate answers metadata artifactId).counted,
        result.add (captureSymlink candidate answers metadata artifactId))
      (captureSymlink candidate answers metadata artifactId).records := by
  unfold emitSymlink captureSymlink
  apply Does.silent hs (mayThrow_noFaults .artifacts s)
  intro t ht
  cases answers.readlink with
  | error error => exact failure_noFaults result (candidate.symlinkReadFailed error) ht
  | ok whole =>
    dsimp only
    apply emit_then ht
    · apply free_beginFields
      · show ascii "sequence" ∉ [ascii "file_type", ascii "target"]
        decide
      · show ascii "type" ∉ [ascii "file_type", ascii "target"]
        decide
    intro u hu
    apply emit_then hu (free_endFields artifactId _ _)
    intro v _
    have hadd : result.note [] = result := by simp [ArtifactResult.note]
    rw [ArtifactResult.add, Capture.group, hadd]
    exact Does.pure _ v

theorem note_note (values more : List Diagnostic) :
    (result.note values).note more = result.note (values ++ more) := by
  have hempty : (values ++ more).isEmpty = (values.isEmpty && more.isEmpty) := by
    cases values <;> rfl
  simp [ArtifactResult.note, hempty, Bool.and_assoc]

theorem emitContent_noFaults (opened : FileState) (hs : s.Open) :
    Does (emitContent noFaults candidate answers metadata opened artifactId result) s
      (true, result.add (captureContent candidate answers metadata opened artifactId))
      (captureContent candidate answers metadata opened artifactId).records := by
  unfold emitContent captureContent
  apply emit_then hs
  · apply free_beginFields
    · show ascii "sequence" ∉ [ascii "file_type", ascii "size_expected"]
      decide
    · show ascii "type" ∉ [ascii "file_type", ascii "size_expected"]
      decide
  intro t ht
  obtain ⟨after, hloop, hhash, htotal, hfailed, hresult⟩ := readLoop_noFaults candidate artifactId
    answers.reads 0 ⟨Sha256.new, 0, false, result⟩ [] ht absorbed_new rfl
  have hdigest : after.hash.hexDigest = sha256Hex (delivered answers.reads).flatten := by
    rw [hhash.hexDigest, sha256Hex_eq, List.nil_append]
  rw [List.nil_append] at htotal
  apply Does.bind ht hloop
  intro u hu
  -- the result behind the comparison of the two states
  have hstable : Does (noteChange noFaults candidate (unchanged opened answers.after) after.result) u
      (result.note ((readError answers.reads).toList.map candidate.readFailed ++
        if unchanged opened answers.after then [] else [candidate.changedDuringRead])) [] := by
    rw [hresult, noteChange]
    split_ifs with h
    · rw [List.append_nil]
      exact Does.pure _ u
    · rw [← note_note]
      exact pushFailure_noFaults _ candidate.changedDuringRead hu
  apply Does.silent hu hstable
  intro v hv
  rw [hdigest, htotal, hfailed, Bool.false_or, Option.not_isSome]
  apply emit_then hv (free_stableFields artifactId _ _ _)
  intro w _
  exact Does.pure _ w

theorem emitRegular_noFaults (hs : s.Open) :
    Does (emitRegular noFaults candidate answers metadata artifactId result) s
      ((captureRegular candidate answers metadata artifactId).counted,
        result.add (captureRegular candidate answers metadata artifactId))
      (captureRegular candidate answers metadata artifactId).records := by
  unfold emitRegular captureRegular
  cases answers.open_ with
  | error error => exact failure_noFaults result (candidate.openFailed error) hs
  | ok =>
    cases answers.opened with
    | error error => exact failure_noFaults result candidate.changedBeforeRead hs
    | ok opened =>
      dsimp only
      split_ifs
      · exact emitContent_noFaults candidate answers metadata artifactId result opened hs
      · exact failure_noFaults result candidate.changedBeforeRead hs

theorem emitArtifact_noFaults (hs : s.Open) :
    Does (emitArtifact noFaults candidate answers artifactId result) s
      ((capture candidate answers artifactId).counted, result.add (capture candidate answers artifactId))
      (capture candidate answers artifactId).records := by
  unfold emitArtifact capture
  cases answers.lstat with
  | error error => exact failure_noFaults result (candidate.statFailed error) hs
  | ok metadata =>
    apply Does.silent hs (mayThrow_noFaults .artifacts s)
    intro t ht
    dsimp only
    split_ifs
    · exact emitDirectory_noFaults candidate metadata artifactId result ht
    · exact emitSymlink_noFaults candidate answers metadata artifactId result ht
    · exact emitRegular_noFaults candidate answers metadata artifactId result ht
    · exact failure_noFaults result (candidate.typeUnsupported metadata.mode) ht

end Captures

/-- The result of the loop over the candidates. -/
def ArtifactResult.addAll (result : ArtifactResult) (cs : List Capture) : ArtifactResult :=
  cs.foldl (fun result c =>
    let result := result.add c
    if c.counted then { result with artifacts := result.artifacts + 1 } else result) result

theorem emitCandidates_noFaults (candidates : List (ArtifactCandidate × Inspection)) :
    ∀ (artifactId : Nat) (result : ArtifactResult) {s : Session}, s.Open →
    Does (emitCandidates noFaults candidates artifactId result) s
      (result.addAll (captures candidates artifactId))
      ((captures candidates artifactId).flatMap Capture.records) := by
  induction candidates with
  | nil => exact fun artifactId result s _ => Does.pure result s
  | cons first rest ih =>
    intro artifactId result s hs
    rw [emitCandidates, captures, List.flatMap_cons, ArtifactResult.addAll, List.foldl_cons,
      ← ArtifactResult.addAll]
    apply Does.bind hs (emitArtifact_noFaults first.1 first.2 artifactId result hs)
    intro t ht
    dsimp only
    split_ifs
    · exact ih (artifactId + 1) _ ht
    · exact ih artifactId _ ht

theorem emitDiagnostics_noFaults (values : List Diagnostic) : ∀ (index : Nat) {s : Session}, s.Open →
    (∀ value ∈ values, value.Plain) →
    Does (emitDiagnostics noFaults index values) s () (diagnosticRecords values) := by
  induction values with
  | nil => exact fun index s _ _ => Does.pure () s
  | cons value values ih =>
    intro index s hs hplain
    apply emit_then hs (hplain value List.mem_cons_self)
    intro t ht
    exact ih (index + 1) ht fun v hv => hplain v (List.mem_cons_of_mem _ hv)

theorem plain_capture (candidate : ArtifactCandidate) (answers : Inspection) (artifactId : Nat) :
    ∀ value ∈ (capture candidate answers artifactId).diagnostics, value.Plain := by
  have hfailure : ∀ {value : Diagnostic}, value.Plain →
      ∀ v ∈ (Capture.failure value).diagnostics, v.Plain := by
    intro value h v hv
    obtain rfl := List.mem_singleton.mp hv
    exact h
  unfold capture
  split
  · exact hfailure (plain_failedWith candidate _ _ _)
  split_ifs
  · simp [captureDirectory, Capture.group]
  · unfold captureSymlink
    split
    · exact hfailure (plain_failedWith candidate _ _ _)
    · simp [Capture.group]
  · unfold captureRegular
    split
    · exact hfailure (plain_failedWith candidate _ _ _)
    split
    · exact hfailure (plain_failed candidate _ _)
    split_ifs
    · intro value hvalue
      rcases List.mem_append.mp hvalue with hread | hchanged
      · obtain ⟨error, -, rfl⟩ := List.mem_map.mp hread
        exact plain_failedWith candidate _ _ error
      · split_ifs at hchanged
        · cases hchanged
        · obtain rfl := List.mem_singleton.mp hchanged
          exact plain_failed candidate _ _
    · exact hfailure (plain_failed candidate _ _)
  · exact hfailure (plain_typeUnsupported candidate _)

theorem plain_captures (candidates : List (ArtifactCandidate × Inspection)) : ∀ artifactId : Nat,
    ∀ c ∈ captures candidates artifactId, ∀ value ∈ c.diagnostics, value.Plain := by
  induction candidates with
  | nil => intro artifactId c hc; cases hc
  | cons first rest ih =>
    intro artifactId c hc
    rw [captures] at hc
    rcases List.mem_cons.mp hc with rfl | hrest
    · exact plain_capture first.1 first.2 artifactId
    · exact ih _ c hrest

theorem addAll_diagnostics (cs : List Capture) : ∀ result : ArtifactResult,
    (result.addAll cs).diagnostics = result.diagnostics ++ cs.flatMap Capture.diagnostics := by
  induction cs with
  | nil => intro result; simp [ArtifactResult.addAll]
  | cons c cs ih =>
    intro result
    rw [ArtifactResult.addAll, List.foldl_cons, ← ArtifactResult.addAll, ih, List.flatMap_cons,
      ← List.append_assoc]
    congr 1
    dsimp only
    split_ifs <;> rfl

/-- Without faults, on a stream that takes every record, the function writes the captures of its
candidates and then their diagnostics. -/
theorem emitArtifacts_noFaults (candidates : List (ArtifactCandidate × Inspection)) {chunkSize : Nat}
    (hsize : chunkSize ≠ 0 ∧ chunkSize ≤ ssizeMax) {s : Session} (hs : s.Open) :
    Does (emitArtifacts noFaults candidates chunkSize) s
      ((⟨0, 0, [], true⟩ : ArtifactResult).addAll (captures candidates 0))
      ((captures candidates 0).flatMap Capture.records ++
        diagnosticRecords ((captures candidates 0).flatMap Capture.diagnostics)) := by
  unfold emitArtifacts
  dsimp only
  rw [if_neg (not_or.mpr ⟨hsize.1, Nat.not_lt.mpr hsize.2⟩)]
  apply Does.silent hs (mayThrow_noFaults .artifacts s)
  intro t ht
  apply Does.bind ht (emitCandidates_noFaults candidates 0 ⟨0, 0, [], true⟩ ht)
  intro u hu
  have hdiagnostics := addAll_diagnostics (captures candidates 0) ⟨0, 0, [], true⟩
  rw [List.nil_append] at hdiagnostics
  have hplain : ∀ value ∈ (captures candidates 0).flatMap Capture.diagnostics, value.Plain := by
    intro value hvalue
    obtain ⟨c, hc, hv⟩ := List.mem_flatMap.mp hvalue
    exact plain_captures candidates 0 c hc value hv
  rw [hdiagnostics, ← List.append_nil (diagnosticRecords _)]
  apply Does.bind hu (emitDiagnostics_noFaults _ 0 hu hplain)
  intro v _
  exact Does.pure _ v

end GetBibleSword.Core
