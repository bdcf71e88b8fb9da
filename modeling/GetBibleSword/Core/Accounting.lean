import GetBibleSword.Core.ArtifactGroups
import GetBibleSword.Core.Dictionary
import GetBibleSword.Core.Extractor

/-!
# What the records amount to

The counters of `emit_artifacts` against the records it writes, whatever is raised in it.

* `Tally`, `Session.tally` : what the records written so far amount to;
* `Tolerated site tally` : the exceptions that leave the counters true;
* `Writing`, `Tallied` : the invariant of a writer; `tallied_emitRecord`, ..., `tallied_emitArtifacts`.
-/

namespace GetBibleSword.Core
open GetBibleSword.Lib FsPath

/-! ## What the records amount to -/

structure Tally where
  entries : Nat
  artifacts : Nat
  artifactBytes : Nat
  diagnostics : DiagnosticCounts
  /-- Behind an `artifact_begin` whose `artifact_end` is to come. -/
  inside : Bool
  /-- No diagnostic has stood there. -/
  apart : Bool
deriving DecidableEq

/-- A member that is a number; `0` where it is missing. -/
def numberOf (name : String) (fields : JsonFields) : Nat :=
  digitsValue (latin1 ((fields.find (ascii name)).getD []))

/-- The severity that a diagnostic record shows. -/
def severityOf (fields : JsonFields) : Bytes :=
  let severity := (fields.find (ascii "severity")).getD []
  if severity = jsonString (ascii "error") then ascii "error"
  else if severity = jsonString (ascii "warning") then ascii "warning"
  else ascii "info"

def Tally.next (t : Tally) (record : Bytes × JsonFields) : Tally :=
  if record.1 = ascii "entry" then { t with entries := t.entries + 1 }
  else if record.1 = ascii "diagnostic" then
    { t with
      diagnostics := t.diagnostics.count (severityOf record.2)
      apart := t.apart && !t.inside }
  else if record.1 = ascii "artifact_begin" then { t with inside := true }
  else if record.1 = ascii "artifact_end" then
    { t with
      artifacts := t.artifacts + 1
      artifactBytes := t.artifactBytes + numberOf "size" record.2
      inside := false }
  else t

def Session.tally (s : Session) : Tally := s.emitted.foldl Tally.next ⟨0, 0, 0, ⟨0, 0, 0⟩, false, true⟩

/-- Nothing of an artifact is out. -/
structure Tally.Untouched (t : Tally) : Prop where
  artifacts : t.artifacts = 0
  artifactBytes : t.artifactBytes = 0
  inside : t.inside = false

/-- The exceptions that leave the counters true; `tally` is that of the records before. -/
def Tolerated (tally : Tally) : Site → Prop
  | .extraction => True
  | .artifacts => tally.Untouched
  -- counted before the record is composed
  | .compose .diagnostic => False
  | .compose .artifactBegin => tally.Untouched
  | .compose .artifactChunk => False
  | .compose .artifactEnd => False
  | .compose (.artifactDiagnostic index) => index = 0 ∧ tally.Untouched
  | .compose _ => True
  -- the record is out and not counted
  | .book .entry => False
  | .book .artifactBegin => False
  | .book .artifactChunk => False
  | .book .artifactEnd => False
  | .book (.artifactDiagnostic _) => False
  | .book _ => True

/-- Only such exceptions are raised. -/
def Tolerable (faults : Faults) : Prop := ∀ site s, faults site s ≠ none → Tolerated s.tally site

/-! ## Diagnostics -/

/-- A diagnostic that the writer takes, and that shows its severity. -/
structure Reportable (value : Diagnostic) : Prop where
  plain : value.Plain
  severity : severityOf (diagnosticFields value) = value.severity

/-- The names that `emit` and `emit_diagnostic` write themselves. -/
def reservedNames : List Bytes := [ascii "sequence", ascii "type", ascii "severity"]

theorem reportable_of {value : Diagnostic} {context : List (Bytes × Bytes)} (names : List String)
    (hseverity : value.severity = ascii "error" ∨ value.severity = ascii "warning")
    (hcontext : value.context = fieldsOf context) (hnames : context.map Prod.fst = names.map ascii)
    (hfree : ∀ name ∈ reservedNames, name ∉ names.map ascii) : Reportable value := by
  have hown : ∀ name, name ∈ reservedNames → name ∉ [ascii "code", ascii "message", ascii "severity"] →
      (diagnosticFields value).contains name = false := by
    intro name hreserved hnot
    rw [Bool.eq_false_iff, ne_eq, diagnosticFields, OrdMap.contains_emplaceAll, hcontext, fieldsOf,
      OrdMap.contains_emplaceAll, hnames]
    exact fun h => h.elim hnot fun h => h.elim (hfree name hreserved) (by simp [OrdMap.contains])
  have hfind : value.context.find (ascii "severity") = none := by
    rw [hcontext]
    exact find_context context (hnames ▸ hfree _ (by decide))
  refine ⟨⟨hown _ (by decide) (by decide), hown _ (by decide) (by decide)⟩, ?_⟩
  unfold severityOf
  rw [find_severity hfind, Option.getD_some]
  rcases hseverity with h | h
  · rw [h]
    decide
  · rw [h]
    decide

theorem reportable_error (code message : String) {context : List (Bytes × Bytes)} (names : List String)
    (hnames : context.map Prod.fst = names.map ascii) (hfree : ∀ name ∈ reservedNames, name ∉ names.map ascii) :
    Reportable (errorDiagnostic code message context) :=
  reportable_of names (.inl rfl) rfl hnames hfree

theorem reportable_warning (code message : String) {context : List (Bytes × Bytes)} (names : List String)
    (hnames : context.map Prod.fst = names.map ascii) (hfree : ∀ name ∈ reservedNames, name ∉ names.map ascii) :
    Reportable (warningDiagnostic code message context) :=
  reportable_of names (.inr rfl) rfl hnames hfree

/-- The diagnostic of a handler: its message is that of the exception. -/
theorem reportable_exception (code : String) (e : CppException) : Reportable (exceptionDiagnostic code e) :=
  @reportable_of _ [] [] (.inl rfl) rfl rfl (by decide)

/-! ## The writer -/

/-- The lines of the records are on the stream, each with some number. -/
def Logged (start : Bytes) (s : Session) : Prop :=
  ∃ numbers : List Nat, numbers.length = s.emitted.length ∧
    s.writer.output.written =
      start ++ (List.zipWith (fun n record => recordLine n record.1 record.2) numbers s.emitted).flatten

structure Writing (start : Bytes) (s : Session) : Prop where
  logged : Logged start s
  opened : s.Open
  types : ∀ record ∈ s.emitted, record.1 ≠ ascii "footer"

structure Tallied (start : Bytes) (tally : Tally) (s : Session) : Prop where
  writing : Writing start s
  tally : s.tally = tally

section Writer
variable {faults : Faults} {start : Bytes} {tally : Tally} {fields : JsonFields}

theorem tally_append {s t : Session} {record : Bytes × JsonFields} (h : t.emitted = s.emitted ++ [record]) :
    t.tally = s.tally.next record := by
  unfold Session.tally
  rw [h, List.foldl_append]
  rfl

theorem tally_of_emitted {s t : Session} (h : t.emitted = s.emitted) : t.tally = s.tally := by
  unfold Session.tally
  rw [h]

theorem logged_append {s t : Session} {record : Bytes × JsonFields} {n : Nat} (hs : Logged start s)
    (hemitted : t.emitted = s.emitted ++ [record])
    (hwritten : t.writer.output.written = s.writer.output.written ++ recordLine n record.1 record.2) :
    Logged start t := by
  obtain ⟨numbers, hlength, hlines⟩ := hs
  refine ⟨numbers ++ [n], ?_, ?_⟩
  · rw [hemitted, List.length_append, List.length_append, hlength]
    rfl
  · rw [hwritten, hlines, hemitted, List.zipWith_append hlength, List.flatten_append, List.append_assoc]
    simp

theorem type_ne_footer (purpose : Purpose) : purpose.type ≠ ascii "footer" := by
  cases purpose with
  | artifactDiagnostic index =>
    show ascii "diagnostic" ≠ ascii "footer"
    decide
  | _ => decide

theorem tallied_mayThrow (hfaults : Tolerable faults) (site : Site) :
    Triple (Tallied start tally) (mayThrow faults site) (fun _ => Tallied start tally)
      fun _ t => Tolerated tally site ∧ Tallied start tally t := by
  intro s hs
  have hnext : Tallied start tally { s with clock := s.clock + 1 } :=
    ⟨⟨hs.writing.logged, ⟨hs.writing.opened.accepting, hs.writing.opened.unfinished⟩, hs.writing.types⟩, hs.tally⟩
  unfold mayThrow
  rw [run_bind, run_get]
  dsimp only
  rw [run_bind, run_set]
  dsimp only
  cases hfault : faults site s with
  | none => exact hnext
  | some e =>
    refine ⟨?_, hnext⟩
    rw [← hs.tally]
    exact hfaults site s (by rw [hfault]; exact Option.some_ne_none e)

/-- A record is written and counted, or not written, or written and not counted. -/
theorem tallied_emitRecord (hfaults : Tolerable faults) (purpose : Purpose) (hfree : Free fields) :
    Triple (Tallied start tally) (emitRecord faults purpose fields)
      (fun _ => Tallied start (tally.next (purpose.type, fields)))
      fun _ t => (Tolerated tally (.compose purpose) ∧ Tallied start tally t) ∨
        (Tolerated tally (.book purpose) ∧ Tallied start (tally.next (purpose.type, fields)) t) := by
  unfold emitRecord
  refine Triple.bind ((tallied_mayThrow hfaults _).conseq (fun _ h => h) (fun _ _ h => h) fun _ _ h => .inl h)
    fun _ => Triple.get fun s hs => ?_
  have hopened := hs.writing.opened
  have hgood := hopened.accepting.write (recordLine s.writer.sequence purpose.type fields)
  have hemit : emit purpose.type fields s.writer = .ok () (s.writer.emitted purpose.type fields) :=
    emit_ok.mpr ⟨hopened.unfinished, hfree.1, hfree.2, hgood.good, rfl⟩
  have hwritten := OStream.write_written hgood.good
  have htypes : ∀ record ∈ s.emitted ++ [(purpose.type, fields)], record.1 ≠ ascii "footer" := by
    intro record hrecord
    rcases List.mem_append.mp hrecord with hrecord | hrecord
    · exact hs.writing.types record hrecord
    · rw [List.mem_singleton.mp hrecord]
      exact type_ne_footer purpose
  rw [hemit]
  intro s' hs'
  subst s'
  unfold bookRecord
  dsimp only
  rw [run_bind, run_get]
  dsimp only
  cases hfault : faults (.book purpose) s with
  | none =>
    refine ⟨⟨logged_append hs.writing.logged rfl hwritten, ⟨hgood, hopened.unfinished⟩, htypes⟩, ?_⟩
    rw [← hs.tally]
    exact tally_append rfl
  | some e =>
    refine .inr ⟨?_, ⟨logged_append hs.writing.logged rfl hwritten, ⟨hgood, hopened.unfinished⟩, htypes⟩, ?_⟩
    · rw [← hs.tally]
      exact hfaults _ s (by rw [hfault]; exact Option.some_ne_none e)
    · rw [← hs.tally]
      exact tally_append rfl

end Writer

/-! ## Artifacts -/

/-- Between the groups: no artifact is open. -/
def Tally.outside (entries : Nat) (counts : DiagnosticCounts) (artifacts bytes : Nat) : Tally :=
  ⟨entries, artifacts, bytes, counts, false, true⟩

/-- In a group. -/
def Tally.within (entries : Nat) (counts : DiagnosticCounts) (artifacts bytes : Nat) : Tally :=
  ⟨entries, artifacts, bytes, counts, true, true⟩

/-- Diagnostics that will be written. -/
def ArtifactResult.Reportable (result : ArtifactResult) : Prop := ∀ value ∈ result.diagnostics, Core.Reportable value

/-- More diagnostics, and nothing else. -/
structure Noted (result result' : ArtifactResult) : Prop where
  artifacts : result'.artifacts = result.artifacts
  bytes : result'.bytes = result.bytes
  reportable : result'.Reportable

theorem numberOf_endFields (artifactId size : Nat) (sha256 : Bytes) :
    numberOf "size" (fieldsOf (endFields artifactId size sha256)) = size := by
  have hnodup : ((endFields artifactId size sha256).map Prod.fst).Nodup := by
    show [ascii "artifact_id", ascii "sha256", ascii "size"].Nodup
    decide
  unfold numberOf
  rw [@find_fieldsOf_mem _ (ascii "size") (decimal size) hnodup (by simp [endFields]), Option.getD_some,
    latin1_decimal, digitsValue_decimalText]

theorem numberOf_stableFields (artifactId size : Nat) (sha256 : Bytes) (stable : Bool) :
    numberOf "size" (fieldsOf (endFields artifactId size sha256 ++ [stableField stable])) = size := by
  have hnodup : ((endFields artifactId size sha256 ++ [stableField stable]).map Prod.fst).Nodup := by
    show [ascii "artifact_id", ascii "sha256", ascii "size", ascii "stable"].Nodup
    decide
  unfold numberOf
  rw [@find_fieldsOf_mem _ (ascii "size") (decimal size) hnodup (by simp [endFields]), Option.getD_some,
    latin1_decimal, digitsValue_decimalText]

section Artifacts
variable {faults : Faults} {start : Bytes} {tally : Tally} {entries artifacts bytes : Nat} {counts : DiagnosticCounts}
variable {candidate : ArtifactCandidate} {artifactId : Nat} {result : ArtifactResult}

theorem next_diagnostic {value : Diagnostic} (h : Reportable value) :
    (Tally.outside entries counts artifacts bytes).next (ascii "diagnostic", diagnosticFields value) =
      .outside entries (counts.count value.severity) artifacts bytes := by
  rw [← h.severity]
  rfl

theorem tallied_pushFailure (hfaults : Tolerable faults) (hresult : result.Reportable) {value : Diagnostic}
    (hvalue : Reportable value) :
    Triple (Tallied start tally) (pushFailure faults result value)
      (fun result' s => Noted result result' ∧ Tallied start tally s)
      fun _ s => tally.Untouched ∧ Tallied start tally s := by
  refine Triple.bind (tallied_mayThrow hfaults .artifacts) fun _ => Triple.pure fun s hs => ⟨⟨rfl, rfl, ?_⟩, hs⟩
  intro v hv
  rcases List.mem_append.mp hv with hv | hv
  · exact hresult v hv
  · rwa [List.mem_singleton.mp hv]

/-! ### Inside a group -/

/-- In a group nothing may be raised. -/
theorem tallied_chunk (hfaults : Tolerable faults) {fields : JsonFields} (hfree : Free fields) :
    Triple (Tallied start (.within entries counts artifacts bytes)) (emitRecord faults .artifactChunk fields)
      (fun _ => Tallied start (.within entries counts artifacts bytes)) fun _ _ => False :=
  (tallied_emitRecord hfaults .artifactChunk hfree).conseq (fun _ h => h) (fun _ _ h => h)
    fun _ _ h => h.elim And.left And.left

theorem tallied_end (hfaults : Tolerable faults) {fields : JsonFields} (hfree : Free fields) :
    Triple (Tallied start (.within entries counts artifacts bytes)) (emitRecord faults .artifactEnd fields)
      (fun _ => Tallied start (.outside entries counts (artifacts + 1) (bytes + numberOf "size" fields)))
      fun _ _ => False :=
  (tallied_emitRecord hfaults .artifactEnd hfree).conseq (fun _ h => h) (fun _ _ h => h)
    fun _ _ h => h.elim And.left And.left

theorem tallied_failure (hfaults : Tolerable faults) (hresult : result.Reportable) {value : Diagnostic}
    (hvalue : Reportable value) :
    Triple (Tallied start (.within entries counts artifacts bytes)) (pushFailure faults result value)
      (fun result' s => Noted result result' ∧ Tallied start (.within entries counts artifacts bytes) s)
      fun _ _ => False :=
  (tallied_pushFailure hfaults hresult hvalue).conseq (fun _ h => h) (fun _ _ h => h)
    fun _ _ h => Bool.noConfusion h.1.inside

theorem reportable_failed (code message : String) : Reportable (candidate.failed code message) :=
  reportable_error code message ["path"] rfl (by decide)

theorem reportable_failedWith (code message : String) (error : SystemError) :
    Reportable (candidate.failedWith code message error) :=
  reportable_error code message ["detail", "path"] rfl (by decide)

theorem tallied_readLoop (hfaults : Tolerable faults) (reads : List ReadResult) :
    ∀ (chunkIndex : Nat) (reading : Reading), reading.result.Reportable →
    Triple (Tallied start (.within entries counts artifacts bytes))
      (readLoop faults candidate artifactId reads chunkIndex reading)
      (fun reading' s => Noted reading.result reading'.result ∧
        Tallied start (.within entries counts artifacts bytes) s) fun _ _ => False := by
  induction reads with
  | nil => exact fun _ _ hreading => Triple.pure fun _ hs => ⟨⟨rfl, rfl, hreading⟩, hs⟩
  | cons answer reads ih =>
    intro chunkIndex reading hreading
    cases answer with
    | fail error =>
      rw [readLoop]
      split_ifs
      · exact ih chunkIndex reading hreading
      · exact Triple.bind (tallied_failure hfaults hreading (reportable_failedWith _ _ error)) fun _ =>
          Triple.pure fun _ hs => hs
    | data chunk =>
      rw [readLoop]
      split_ifs
      · exact Triple.pure fun _ hs => ⟨⟨rfl, rfl, hreading⟩, hs⟩
      · refine Triple.bind (tallied_chunk hfaults (free_chunkFields artifactId chunkIndex chunk)) fun _ => ?_
        exact ih (chunkIndex + 1) _ hreading

/-! ### One candidate -/

/-- What is left of a candidate: its diagnostics, and what is counted of it. -/
def Left (start : Bytes) (entries : Nat) (counts : DiagnosticCounts) (artifacts : Nat) (result : ArtifactResult)
    (r : Bool × ArtifactResult) (s : Session) : Prop :=
  r.2.artifacts = result.artifacts ∧ r.2.Reportable ∧
    Tallied start (.outside entries counts (if r.1 then artifacts + 1 else artifacts) r.2.bytes) s

/-- Nothing of an artifact is out. -/
def Unwritten (start : Bytes) (entries : Nat) (counts : DiagnosticCounts) (s : Session) : Prop :=
  Tallied start (.outside entries counts 0 0) s

theorem unwritten_of {s : Session} (h : (Tally.outside entries counts artifacts bytes).Untouched)
    (hs : Tallied start (.outside entries counts artifacts bytes) s) : Unwritten start entries counts s := by
  obtain rfl : artifacts = 0 := h.artifacts
  obtain rfl : bytes = 0 := h.artifactBytes
  exact hs

theorem tallied_begin (hfaults : Tolerable faults) {fields : JsonFields} (hfree : Free fields) :
    Triple (Tallied start (.outside entries counts artifacts bytes)) (emitRecord faults .artifactBegin fields)
      (fun _ => Tallied start (.within entries counts artifacts bytes)) fun _ => Unwritten start entries counts :=
  (tallied_emitRecord hfaults .artifactBegin hfree).conseq (fun _ h => h) (fun _ _ h => h)
    fun _ _ h => h.elim (fun h => unwritten_of h.1 h.2) fun h => h.1.elim

/-- A candidate of which only a diagnostic is left. -/
theorem tallied_refused (hfaults : Tolerable faults) (hresult : result.Reportable) {value : Diagnostic}
    (hvalue : Reportable value) :
    Triple (Tallied start (.outside entries counts artifacts result.bytes))
      (do return (false, ← pushFailure faults result value))
      (Left start entries counts artifacts result) fun _ => Unwritten start entries counts := by
  refine Triple.bind ((tallied_pushFailure hfaults hresult hvalue).conseq (fun _ h => h) (fun _ _ h => h)
    fun _ _ h => unwritten_of h.1 h.2) fun result' => Triple.pure fun s hs => ?_
  obtain ⟨hnoted, hs⟩ := hs
  refine ⟨hnoted.artifacts, hnoted.reportable, ?_⟩
  rw [hnoted.bytes]
  exact hs

theorem tallied_emitDirectory (hfaults : Tolerable faults) (metadata : FileState) (hresult : result.Reportable) :
    Triple (Tallied start (.outside entries counts artifacts result.bytes))
      (emitDirectory faults candidate metadata artifactId result)
      (Left start entries counts artifacts result) fun _ => Unwritten start entries counts := by
  have hfree : Free (candidate.beginFields artifactId metadata.mode directoryFields) :=
    free_beginFields candidate artifactId metadata.mode (by decide) (by decide)
  unfold emitDirectory
  refine Triple.bind (tallied_begin hfaults hfree) fun _ => ?_
  refine Triple.bind ((tallied_end hfaults (free_endFields artifactId 0 _)).conseq (fun _ h => h) (fun _ _ h => h)
    fun _ _ h => h.elim) fun _ => Triple.pure fun s hs => ⟨rfl, hresult, ?_⟩
  rwa [numberOf_endFields] at hs

theorem tallied_emitSymlink (hfaults : Tolerable faults) (answers : Inspection) (metadata : FileState)
    (hresult : result.Reportable) :
    Triple (Tallied start (.outside entries counts artifacts result.bytes))
      (emitSymlink faults candidate answers metadata artifactId result)
      (Left start entries counts artifacts result) fun _ => Unwritten start entries counts := by
  unfold emitSymlink
  refine Triple.bind ((tallied_mayThrow hfaults .artifacts).conseq (fun _ h => h) (fun _ _ h => h)
    fun _ _ h => unwritten_of h.1 h.2) fun _ => ?_
  cases answers.readlink with
  | error error => exact tallied_refused hfaults hresult (reportable_failedWith _ _ error)
  | ok whole =>
    have hfree : Free (candidate.beginFields artifactId metadata.mode
        (symlinkFields (whole.take (metadata.size + 1)))) := by
      apply free_beginFields
      · show ascii "sequence" ∉ [ascii "file_type", ascii "target"]
        decide
      · show ascii "type" ∉ [ascii "file_type", ascii "target"]
        decide
    refine Triple.bind (tallied_begin hfaults hfree) fun _ => ?_
    refine Triple.bind ((tallied_end hfaults (free_endFields artifactId _ _)).conseq (fun _ h => h) (fun _ _ h => h)
      fun _ _ h => h.elim) fun _ => Triple.pure fun s hs => ⟨rfl, hresult, ?_⟩
    rwa [numberOf_endFields] at hs

theorem tallied_emitContent (hfaults : Tolerable faults) (answers : Inspection) (metadata opened : FileState)
    (hresult : result.Reportable) :
    Triple (Tallied start (.outside entries counts artifacts result.bytes))
      (emitContent faults candidate answers metadata opened artifactId result)
      (Left start entries counts artifacts result) fun _ => Unwritten start entries counts := by
  have hfree : Free (candidate.beginFields artifactId metadata.mode (regularFields metadata.size)) := by
    apply free_beginFields
    · show ascii "sequence" ∉ [ascii "file_type", ascii "size_expected"]
      decide
    · show ascii "type" ∉ [ascii "file_type", ascii "size_expected"]
      decide
  unfold emitContent
  refine Triple.bind (tallied_begin hfaults hfree) fun _ => ?_
  refine Triple.bind ((tallied_readLoop hfaults answers.reads 0 _ hresult).conseq (fun _ h => h) (fun _ _ h => h)
    fun _ _ h => h.elim) fun reading => Triple.each fun s hs => ?_
  obtain ⟨hread, hs⟩ := hs
  dsimp only at hread
  have hchange : Triple (Tallied start (.within entries counts artifacts result.bytes))
      (noteChange faults candidate (unchanged opened answers.after) reading.result)
      (fun result' t => Noted result result' ∧ Tallied start (.within entries counts artifacts result.bytes) t)
      fun _ => Unwritten start entries counts := by
    unfold noteChange
    split_ifs
    · exact Triple.pure fun t ht => ⟨hread, ht⟩
    · refine (tallied_failure hfaults hread.reportable (reportable_failed _ _)).conseq (fun _ h => h)
        (fun result' t ht => ⟨⟨?_, ?_, ht.1.reportable⟩, ht.2⟩) fun _ _ h => h.elim
      · exact ht.1.artifacts.trans hread.artifacts
      · exact ht.1.bytes.trans hread.bytes
  refine Triple.bind (hchange.conseq (fun t ht => ht ▸ hs) (fun _ _ h => h) fun _ _ h => h) fun result' =>
    Triple.each fun t ht => ?_
  obtain ⟨hnoted, ht⟩ := ht
  refine Triple.bind ((tallied_end hfaults (free_stableFields artifactId _ _ _)).conseq (fun u hu => hu ▸ ht)
    (fun _ _ h => h) fun _ _ h => h.elim) fun _ => Triple.pure fun u hu => ⟨hnoted.artifacts, hnoted.reportable, ?_⟩
  rw [numberOf_stableFields] at hu
  dsimp only
  rwa [hnoted.bytes]

theorem tallied_emitArtifact (hfaults : Tolerable faults) (answers : Inspection) (hresult : result.Reportable) :
    Triple (Tallied start (.outside entries counts artifacts result.bytes))
      (emitArtifact faults candidate answers artifactId result)
      (Left start entries counts artifacts result) fun _ => Unwritten start entries counts := by
  unfold emitArtifact
  cases answers.lstat with
  | error error => exact tallied_refused hfaults hresult (reportable_failedWith _ _ error)
  | ok metadata =>
    refine Triple.bind ((tallied_mayThrow hfaults .artifacts).conseq (fun _ h => h) (fun _ _ h => h)
      fun _ _ h => unwritten_of h.1 h.2) fun _ => ?_
    split_ifs
    · exact tallied_emitDirectory hfaults metadata hresult
    · exact tallied_emitSymlink hfaults answers metadata hresult
    · unfold emitRegular
      cases answers.open_ with
      | error error => exact tallied_refused hfaults hresult (reportable_failedWith _ _ error)
      | ok =>
        cases answers.opened with
        | error error => exact tallied_refused hfaults hresult (reportable_failed _ _)
        | ok opened =>
          dsimp only
          split_ifs
          · exact tallied_emitContent hfaults answers metadata opened hresult
          · exact tallied_refused hfaults hresult (reportable_failed _ _)
    · exact tallied_refused hfaults hresult (reportable_error _ _ ["mode", "path"] rfl (by decide))

theorem tallied_emitCandidates (hfaults : Tolerable faults) (candidates : List (ArtifactCandidate × Inspection)) :
    ∀ (artifactId : Nat) (result : ArtifactResult), result.Reportable →
    Triple (Tallied start (.outside entries counts result.artifacts result.bytes))
      (emitCandidates faults candidates artifactId result)
      (fun result' s => result'.Reportable ∧
        Tallied start (.outside entries counts result'.artifacts result'.bytes) s)
      fun _ => Unwritten start entries counts := by
  induction candidates with
  | nil => exact fun _ _ hresult => Triple.pure fun _ hs => ⟨hresult, hs⟩
  | cons first rest ih =>
    intro artifactId result hresult
    rw [emitCandidates]
    refine Triple.bind (tallied_emitArtifact hfaults first.2 hresult) fun r => Triple.each fun s hs => ?_
    obtain ⟨counted, result'⟩ := r
    obtain ⟨hartifacts, hreportable, hs⟩ := hs
    dsimp only at hartifacts hreportable hs ⊢
    cases counted with
    | true =>
      refine (ih (artifactId + 1) { result' with artifacts := result'.artifacts + 1 } hreportable).conseq
        (fun t ht => ?_) (fun _ _ h => h) fun _ _ h => h
      subst ht
      dsimp only
      rw [hartifacts]
      exact hs
    | false =>
      refine (ih artifactId result' hreportable).conseq (fun t ht => ?_) (fun _ _ h => h) fun _ _ h => h
      subst ht
      rw [hartifacts]
      exact hs

/-! ### The whole call -/

/-- Only before its first record may the closing loop fail. -/
theorem tallied_emitDiagnostics (hfaults : Tolerable faults) (values : List Diagnostic) :
    ∀ (index : Nat) (counts : DiagnosticCounts), (∀ value ∈ values, Reportable value) →
    Triple (Tallied start (.outside entries counts artifacts bytes)) (emitDiagnostics faults index values)
      (fun _ => Tallied start
        (.outside entries (counts.countAll (values.map Diagnostic.severity)) artifacts bytes))
      fun _ s => index = 0 ∧ Unwritten start entries counts s := by
  induction values with
  | nil => exact fun _ _ _ => Triple.pure fun _ hs => hs
  | cons value values ih =>
    intro index counts hvalues
    have hvalue := hvalues value List.mem_cons_self
    rw [emitDiagnostics]
    refine Triple.bind ((tallied_emitRecord hfaults (.artifactDiagnostic index) hvalue.plain).conseq (fun _ h => h)
      (fun _ _ h => h) fun _ s h => ?_) fun _ => ?_
    · rcases h with ⟨⟨hindex, huntouched⟩, hs⟩ | ⟨hbook, -⟩
      · exact ⟨hindex, unwritten_of huntouched hs⟩
      · exact hbook.elim
    · refine (ih (index + 1) (counts.count value.severity) fun v hv => hvalues v (List.mem_cons_of_mem _ hv)).conseq
        (fun s hs => ?_) (fun _ _ h => h) fun _ _ h => absurd h.1 (Nat.succ_ne_zero index)
      rw [← next_diagnostic hvalue]
      exact hs

/-- The call counts what it writes; where it throws, nothing of it is out. -/
theorem tallied_emitArtifacts (hfaults : Tolerable faults) (candidates : List (ArtifactCandidate × Inspection))
    {chunkSize : Nat} (hsize : chunkSize ≠ 0 ∧ chunkSize ≤ ssizeMax) :
    Triple (Unwritten start entries counts) (emitArtifacts faults candidates chunkSize)
      (fun result => Tallied start (.outside entries
        (counts.countAll (result.diagnostics.map Diagnostic.severity)) result.artifacts result.bytes))
      fun _ => Unwritten start entries counts := by
  unfold emitArtifacts
  dsimp only
  rw [if_neg (not_or.mpr ⟨hsize.1, Nat.not_lt.mpr hsize.2⟩)]
  refine Triple.bind ((tallied_mayThrow hfaults .artifacts).conseq (fun _ h => h) (fun _ _ h => h)
    fun _ _ h => h.2) fun _ => ?_
  refine Triple.bind (tallied_emitCandidates hfaults candidates 0 ⟨0, 0, [], true⟩
    fun value hvalue => absurd hvalue List.not_mem_nil) fun result => Triple.each fun s hs => ?_
  refine Triple.bind ((tallied_emitDiagnostics hfaults result.diagnostics 0 counts hs.1).conseq
    (fun t ht => ht ▸ hs.2) (fun _ _ h => h) fun _ _ h => h.2) fun _ => Triple.pure fun _ ht => ht

end Artifacts

end GetBibleSword.Core
