import GetBibleSword.Core.Accounting

/-!
# Footer accounting

The counters of `extract_module` against the records it writes, whatever is raised inside its `try`.

* `Balanced` : the invariant of the functions with counters; `balanced_step`, `balanced_record`, `triple_report`,
  and one lemma for each function;
* `Accounted` : what a run that has returned leaves; `triple_finishRun`, `triple_extractBody`;
* `footer_accounting` : the result.
-/

namespace GetBibleSword.Core
open GetBibleSword.Lib FsPath

/-! ## The counters -/

/-- What the counters say, where no artifact is open. -/
structure Balanced (start : Bytes) (artifacts bytes : Nat) (s : Extraction) : Prop where
  session : Tallied start (.outside s.entries s.diagnostics artifacts bytes) s.session
  artifacts : s.artifacts = artifacts
  artifactBytes : s.artifactBytes = bytes

theorem triple_onSession {α : Type} {x : Action α} {P : Session → Prop} {Q : α → Session → Prop}
    {E : CppException → Session → Prop} (h : Triple P x Q E) {s : Extraction} (hs : P s.session) :
    Triple (fun t => t = s) (onSession x) (fun a t => ∃ session, t = { s with session := session } ∧ Q a session)
      fun e t => ∃ session, t = { s with session := session } ∧ E e session := by
  intro t ht
  subst ht
  unfold onSession
  cases hx : x t.session with
  | ok a session => exact ⟨session, rfl, h.ok hs hx⟩
  | error e session => exact ⟨session, rfl, h.error hs hx⟩

section Counters
variable {faults : Faults} {start : Bytes} {artifacts bytes : Nat} {ordinal : Nat}

theorem balanced_step (hfaults : Tolerable faults) :
    Keeps (Balanced start artifacts bytes) (onSession (mayThrow faults .extraction)) fun _ => True := by
  intro s hs
  have h := triple_onSession (tallied_mayThrow hfaults .extraction) hs.session s rfl
  cases hrun : onSession (mayThrow faults .extraction) s with
  | ok _ t =>
    rw [hrun] at h
    obtain ⟨session, rfl, hsession⟩ := h
    exact ⟨trivial, hsession, hs.artifacts, hs.artifactBytes⟩
  | error _ t =>
    rw [hrun] at h
    obtain ⟨session, rfl, -, hsession⟩ := h
    exact ⟨hsession, hs.artifacts, hs.artifactBytes⟩

/-- A record that nothing counts. -/
theorem balanced_record (hfaults : Tolerable faults) (purpose : Purpose) {fields : List (Bytes × Bytes)}
    (names : List String) (hnames : fields.map Prod.fst = names.map ascii)
    (hfree : ∀ name ∈ reservedNames, name ∉ names.map ascii)
    (hneutral : ∀ tally : Tally, tally.next (purpose.type, fieldsOf fields) = tally) :
    Keeps (Balanced start artifacts bytes) (onSession (emitRecord faults purpose (fieldsOf fields)))
      fun _ => True := by
  have hplain : Free (fieldsOf fields) :=
    free_fieldsOf (hnames ▸ hfree _ (by decide)) (hnames ▸ hfree _ (by decide))
  intro s hs
  have h := triple_onSession (tallied_emitRecord hfaults purpose hplain) hs.session s rfl
  cases hrun : onSession (emitRecord faults purpose (fieldsOf fields)) s with
  | ok _ t =>
    rw [hrun] at h
    obtain ⟨session, rfl, hsession⟩ := h
    rw [hneutral] at hsession
    exact ⟨trivial, hsession, hs.artifacts, hs.artifactBytes⟩
  | error _ t =>
    rw [hrun] at h
    obtain ⟨session, rfl, ⟨-, hsession⟩ | ⟨-, hsession⟩⟩ := h
    · exact ⟨hsession, hs.artifacts, hs.artifactBytes⟩
    · rw [hneutral] at hsession
      exact ⟨hsession, hs.artifacts, hs.artifactBytes⟩

theorem error_count (counts : DiagnosticCounts) : (counts.count (ascii "error")).error ≠ 0 :=
  Nat.succ_ne_zero counts.error

/-- A diagnostic is counted and then written; its record may be out where the call throws. -/
theorem triple_emitDiagnostic (hfaults : Tolerable faults) {value : Diagnostic} (hvalue : Reportable value) :
    Triple (Balanced start artifacts bytes) (emitDiagnostic faults value)
      (fun _ s => Balanced start artifacts bytes s ∧ (value.severity = ascii "error" → s.diagnostics.error ≠ 0))
      fun _ => Balanced start artifacts bytes := by
  unfold emitDiagnostic
  intro s hs
  rw [run_bind, run_modify]
  dsimp only
  have h := triple_onSession (s := { s with diagnostics := s.diagnostics.count value.severity })
    (tallied_emitRecord hfaults .diagnostic hvalue.plain) hs.session _ rfl
  have hnext : (Tally.outside s.entries s.diagnostics artifacts bytes).next
      (Purpose.diagnostic.type, diagnosticFields value) =
        .outside s.entries (s.diagnostics.count value.severity) artifacts bytes := next_diagnostic hvalue
  rw [hnext] at h
  cases hrun : onSession (emitRecord faults .diagnostic (diagnosticFields value))
      { s with diagnostics := s.diagnostics.count value.severity } with
  | ok _ t =>
    rw [hrun] at h
    obtain ⟨session, rfl, hsession⟩ := h
    refine ⟨⟨hsession, hs.artifacts, hs.artifactBytes⟩, fun hseverity => ?_⟩
    dsimp only
    rw [hseverity]
    exact error_count s.diagnostics
  | error _ t =>
    rw [hrun] at h
    obtain ⟨session, rfl, ⟨hcompose, -⟩ | ⟨-, hsession⟩⟩ := h
    · exact hcompose.elim
    · exact ⟨hsession, hs.artifacts, hs.artifactBytes⟩

theorem triple_report (hfaults : Tolerable faults) {value : Diagnostic} (hvalue : Reportable value) :
    Triple (Balanced start artifacts bytes) (report faults value)
      (fun _ s => Balanced start artifacts bytes s ∧ (value.severity = ascii "error" → s.diagnostics.error ≠ 0))
      fun _ => Balanced start artifacts bytes := by
  unfold report
  refine Triple.bind ((balanced_step hfaults).triple.conseq (fun _ h => h) (fun _ _ h => h.2) fun _ _ h => h)
    fun _ => triple_emitDiagnostic hfaults hvalue

theorem balanced_report (hfaults : Tolerable faults) {value : Diagnostic} (hvalue : Reportable value) :
    Keeps (Balanced start artifacts bytes) (report faults value) fun _ => True :=
  (triple_report hfaults hvalue).conseq (fun _ h => h) (fun _ _ h => ⟨trivial, h.1⟩) fun _ _ h => h

/-- A report with what follows it. -/
theorem balanced_reporting {α : Type} (hfaults : Tolerable faults) {value : Diagnostic} {x : Run α}
    (hvalue : Reportable value) (hx : Keeps (Balanced start artifacts bytes) x fun _ => True) :
    Keeps (Balanced start artifacts bytes) (do report faults value; x) fun _ => True := by
  apply Keeps.bind (balanced_report hfaults hvalue)
  intro _ _
  exact hx

/-! ### Entries -/

/-- The record of an entry and its count. -/
theorem balanced_entry (hfaults : Tolerable faults) {fields : JsonFields} (hfree : Free fields) :
    Keeps (Balanced start artifacts bytes) (do
      onSession (emitRecord faults .entry fields)
      modify fun s => { s with entries := s.entries + 1 }
      return true) fun _ => True := by
  intro s hs
  rw [run_bind]
  have h := triple_onSession (tallied_emitRecord hfaults .entry hfree) hs.session s rfl
  cases hrun : onSession (emitRecord faults .entry fields) s with
  | ok _ t =>
    rw [hrun] at h
    obtain ⟨session, rfl, hsession⟩ := h
    exact ⟨trivial, hsession, hs.artifacts, hs.artifactBytes⟩
  | error _ t =>
    rw [hrun] at h
    obtain ⟨session, rfl, ⟨-, hsession⟩ | ⟨hbook, -⟩⟩ := h
    · exact ⟨hsession, hs.artifacts, hs.artifactBytes⟩
    · exact hbook.elim

theorem balanced_swordLength (hfaults : Tolerable faults) (size : Nat) :
    Keeps (Balanced start artifacts bytes) (swordLength faults size ordinal) fun _ => True := by
  unfold swordLength
  split_ifs
  · exact balanced_reporting hfaults (reportable_error _ _ ["entry_ordinal", "size"] rfl (by decide)) (Keeps.pure trivial)
  · exact Keeps.pure trivial

theorem balanced_normalizedStripped (hfaults : Tolerable faults) (answers : EntryAnswers) (normalized : Option Bytes) :
    Keeps (Balanced start artifacts bytes) (normalizedStripped faults answers normalized ordinal) fun _ => True := by
  unfold normalizedStripped
  cases normalized with
  | none => exact Keeps.pure trivial
  | some utf8 =>
    dsimp only
    by_cases hzero : utf8.contains zeroByte = true
    · rw [if_pos hzero]
      exact balanced_reporting hfaults (reportable_warning _ _ ["entry_ordinal"] rfl (by decide)) (Keeps.pure trivial)
    · rw [if_neg hzero]
      apply Keeps.bind (balanced_swordLength hfaults utf8.length)
      intro fits _
      cases fits with
      | false => exact Keeps.pure trivial
      | true =>
        apply Keeps.bind (balanced_step hfaults)
        intro _ _
        unfold checkStripped
        split_ifs
        · exact Keeps.pure trivial
        · exact balanced_reporting hfaults (reportable_warning _ _ ["entry_ordinal"] rfl (by decide))
            (Keeps.pure trivial)

theorem balanced_emitEntry (hfaults : Tolerable faults) (icu : Icu) (answers : EntryAnswers) :
    Keeps (Balanced start artifacts bytes) (emitEntry faults icu answers) fun _ => True := by
  unfold emitEntry
  apply Keeps.bind Keeps.get
  intro s _
  dsimp only
  by_cases hread : answers.readError ≠ zeroByte
  · rw [if_pos hread]
    exact balanced_reporting hfaults (reportable_error _ _ ["entry_ordinal", "key", "sword_error"] rfl (by decide))
      (Keeps.pure trivial)
  · rw [if_neg hread]
    apply Keeps.bind (balanced_swordLength hfaults answers.raw.length)
    intro projections _
    have hchecked : Keeps (Balanced start artifacts bytes) (checkNormalized faults
        (sourceUtf8 icu answers.raw (safeCString answers.encoding)) (safeCString answers.encoding) s.entries)
        fun _ => True := by
      unfold checkNormalized
      split_ifs
      · exact balanced_report hfaults (reportable_warning _ _ ["entry_ordinal", "encoding"] rfl (by decide))
      · exact Keeps.pure trivial
    apply Keeps.bind hchecked
    intro _ _
    apply Keeps.bind (balanced_step hfaults)
    intro _ _
    apply Keeps.bind (balanced_normalizedStripped hfaults answers _)
    intro stripped _
    exact balanced_entry hfaults (free_entryFields answers s.entries _ stripped projections)

section Traversal
variable {Position : Type} {engine : Engine Position}

theorem balanced_navigate (hfaults : Tolerable faults) (position : Position) :
    Keeps (Balanced start artifacts bytes) (navigate faults engine position) fun _ => True := by
  unfold navigate
  apply Keeps.bind Keeps.get
  intro s _
  dsimp only
  by_cases hfull : engine.full s.entries = true
  · rw [if_pos hfull]
    exact Keeps.pure trivial
  rw [if_neg hfull]
  apply Keeps.bind (balanced_step hfaults)
  intro _ _
  by_cases hnone : (engine.increment position).1 = zeroByte
  · rw [if_pos hnone]
    exact Keeps.pure trivial
  rw [if_neg hnone]
  unfold navigationError
  by_cases hbounds : (engine.increment position).1 = keyErrOutOfBounds
  · rw [if_pos hbounds]
    cases engine.limit with
    | none => exact Keeps.pure trivial
    | some declared =>
      dsimp only
      split_ifs
      · exact balanced_reporting hfaults
          (reportable_error _ _ ["declared_entries", "emitted_entries"] rfl (by decide)) (Keeps.pure trivial)
      · exact Keeps.pure trivial
  · rw [if_neg hbounds]
    exact balanced_reporting hfaults (reportable_error _ _ ["entry_ordinal", "sword_error"] rfl (by decide))
      (Keeps.pure trivial)

theorem balanced_traverse (hfaults : Tolerable faults) (icu : Icu) (fuel : Nat) :
    ∀ (position : Position) (previousKey : Bytes) (previousIndex : Int),
    Keeps (Balanced start artifacts bytes) (traverse faults icu engine fuel position previousKey previousIndex)
      fun _ => True := by
  induction fuel with
  | zero => exact fun _ _ _ => Keeps.pure trivial
  | succ fuel ih =>
    intro position previousKey previousIndex
    rw [traverse]
    apply Keeps.bind (balanced_step hfaults)
    intro _ _
    apply Keeps.bind Keeps.get
    intro s _
    dsimp only
    split_ifs
    · exact balanced_reporting hfaults (reportable_error _ _ ["entry_ordinal", "key"] rfl (by decide))
        (Keeps.pure trivial)
    · apply Keeps.bind (balanced_emitEntry hfaults icu _)
      intro read _
      cases read with
      | false => exact Keeps.pure trivial
      | true =>
        apply Keeps.bind (balanced_navigate hfaults position)
        intro navigation _
        cases navigation with
        | ended success => exact Keeps.pure trivial
        | moved next => exact ih _ _ _

theorem balanced_emitEntries (hfaults : Tolerable faults) (icu : Icu) (fuel : Nat) :
    Keeps (Balanced start artifacts bytes) (emitEntries faults icu engine fuel) fun _ => True := by
  unfold emitEntries
  apply Keeps.bind (balanced_step hfaults)
  intro _ _
  split_ifs
  · exact balanced_reporting hfaults (reportable_warning _ _ [] rfl (by decide)) (Keeps.pure trivial)
  · exact balanced_traverse hfaults icu fuel _ _ _

end Traversal

/-! ### Configuration -/

section Configuration
variable {root moduleName : Bytes}

theorem reportable_configReadFailed (message path : Bytes) : Reportable (configReadFailed message root path) :=
  reportable_of ["path"] (.inl rfl) rfl rfl (by decide)

theorem balanced_inspectFile (hfaults : Tolerable faults) (path : Bytes) (file : IfstreamAnswers) :
    Keeps (Balanced start artifacts bytes) (inspectFile faults root moduleName path file) fun _ => True := by
  unfold inspectFile
  apply Keeps.bind (balanced_step hfaults)
  intro _ _
  cases readFile file with
  | error message => exact balanced_reporting hfaults (reportable_configReadFailed message path) (Keeps.pure trivial)
  | ok bytes => exact Keeps.pure trivial

theorem balanced_inspectCandidate (hfaults : Tolerable faults) (step : ConfigStep) (kind : FileKind) :
    Keeps (Balanced start artifacts bytes) (inspectCandidate faults root moduleName step kind) fun _ => True := by
  cases kind with
  | regular => exact balanced_inspectFile hfaults step.path step.file
  | symlink =>
    exact balanced_reporting hfaults (reportable_error _ _ ["path"] rfl (by decide)) (Keeps.pure trivial)
  | other => exact Keeps.pure trivial

theorem balanced_searchSteps (hfaults : Tolerable faults) (steps : List ConfigStep) :
    Keeps (Balanced start artifacts bytes) (searchSteps faults root moduleName steps) fun _ => True := by
  induction steps with
  | nil => exact Keeps.pure trivial
  | cons step steps ih =>
    rw [searchSteps]
    apply Keeps.bind (balanced_step hfaults)
    intro _ _
    cases step.status with
    | error detail =>
      refine balanced_reporting hfaults (reportable_error _ _ ["detail", "path"] rfl (by decide)) ?_
      split_ifs
      · exact Keeps.pure trivial
      · exact ih
    | ok kind =>
      apply Keeps.bind (balanced_inspectCandidate hfaults step kind)
      intro found _
      cases step.increment with
      | some detail =>
        exact balanced_reporting hfaults (reportable_error _ _ ["detail"] rfl (by decide)) (Keeps.pure trivial)
      | none =>
        apply Keeps.bind ih
        intro rest _
        exact Keeps.pure trivial

theorem balanced_findConfigurationFiles (hfaults : Tolerable faults) (answers : ConfigurationAnswers) :
    Keeps (Balanced start artifacts bytes) (findConfigurationFiles faults root moduleName answers) fun _ => True := by
  unfold findConfigurationFiles
  dsimp only
  apply Keeps.bind (balanced_step hfaults)
  intro _ _
  cases answers.masterStatus with
  | regular => exact balanced_inspectFile hfaults _ _
  | symlink =>
    exact balanced_reporting hfaults (reportable_error _ _ ["path"] rfl (by decide)) (Keeps.pure trivial)
  | other =>
    dsimp only
    cases answers.iterator with
    | error detail =>
      exact balanced_reporting hfaults (reportable_error _ _ ["detail"] rfl (by decide)) (Keeps.pure trivial)
    | ok steps =>
      apply Keeps.bind (balanced_searchSteps hfaults steps)
      intro files _
      exact Keeps.pure trivial

theorem balanced_emitConfigurationSources (hfaults : Tolerable faults) (reread : Nat → IfstreamAnswers)
    (files : List Bytes) : ∀ index ordinal,
    Keeps (Balanced start artifacts bytes) (emitConfigurationSources faults root reread index ordinal files)
      fun _ => True := by
  induction files with
  | nil => exact fun _ _ => Keeps.pure trivial
  | cons file files ih =>
    intro index ordinal
    rw [emitConfigurationSources]
    apply Keeps.bind (balanced_step hfaults)
    intro _ _
    cases readFile (reread index) with
    | error message => exact balanced_reporting hfaults (reportable_configReadFailed message file) (ih _ _)
    | ok bytes =>
      refine Keeps.bind (balanced_record hfaults .configSource ["ordinal", "path", "raw"] rfl (by decide)
        fun _ => rfl) fun _ _ => ?_
      exact ih _ _

theorem balanced_emitInterpretedConfiguration (hfaults : Tolerable faults) (entries : List (Bytes × Bytes)) :
    ∀ ordinal, Keeps (Balanced start artifacts bytes) (emitInterpretedConfiguration faults ordinal entries)
      fun _ => True := by
  induction entries with
  | nil => exact fun _ => Keeps.pure trivial
  | cons entry entries ih =>
    intro ordinal
    rw [emitInterpretedConfiguration]
    refine Keeps.bind (balanced_record hfaults .configEntry ["name", "ordinal", "value"] rfl (by decide)
      fun _ => rfl) fun _ _ => ?_
    exact ih _

end Configuration

/-! ### Discovery -/

section Discovery
variable {answers : DiscoveryAnswers} {root dataPath : Bytes}

theorem reportable_escape (code : String) (what path : Bytes) : Reportable (escapeDiagnostic code what path) :=
  reportable_of ["path"] (.inl rfl) rfl rfl (by decide)

theorem reportable_configurations (configs : List Bytes) :
    ∀ value ∈ (configurations answers root configs).2, Reportable value := by
  induction configs with
  | nil => exact fun value hvalue => absurd hvalue List.not_mem_nil
  | cons config configs ih =>
    intro value hvalue
    unfold configurations at hvalue
    dsimp only at hvalue
    have hescape : ∀ what, value ∈ configEscape what config :: (configurations answers root configs).2 →
        Reportable value := by
      intro what hmem
      rcases List.mem_cons.mp hmem with rfl | hmem
      · exact reportable_escape _ what config
      · exact ih value hmem
    cases hthrows : answers.configThrows config with
    | some what =>
      rw [hthrows] at hvalue
      exact hescape what hvalue
    | none =>
      rw [hthrows] at hvalue
      cases hnormal : normalizeCandidate root config with
      | none =>
        rw [hnormal] at hvalue
        exact hescape escapeMessage hvalue
      | some normalized =>
        rw [hnormal] at hvalue
        exact ih value hvalue

theorem reportable_interrupted {found : List ArtifactCandidate × List Diagnostic}
    (h : ∀ value ∈ found.2, Reportable value) : ∀ value ∈ (interrupted answers dataPath found).2, Reportable value := by
  unfold interrupted
  cases answers.dataThrows with
  | none => exact h
  | some thrown =>
    intro value hvalue
    rw [List.mem_singleton.mp hvalue]
    exact reportable_escape _ _ dataPath

theorem reportable_dataCandidates : ∀ value ∈ (dataCandidates answers root dataPath).2, Reportable value := by
  have hone : ∀ value : Diagnostic, Reportable value → ∀ v ∈ [value], Reportable v := by
    intro value hvalue v hv
    rwa [List.mem_singleton.mp hv]
  unfold dataCandidates
  by_cases hempty : dataPath = []
  · rw [if_pos hempty]
    exact hone _ (reportable_error _ _ [] rfl (by decide))
  rw [if_neg hempty]
  cases normalizeCandidate root dataPath with
  | none => exact hone _ (reportable_escape _ _ _)
  | some data =>
    dsimp only
    cases answers.symlinkStatus data with
    | some isDirectory =>
      refine reportable_interrupted fun value hvalue => ?_
      unfold existingData at hvalue
      cases isDirectory with
      | false => exact absurd hvalue List.not_mem_nil
      | true =>
        cases herror : (answers.recursiveDirectory data).2 with
        | none =>
          simp only [herror] at hvalue
          exact absurd hvalue List.not_mem_nil
        | some detail =>
          simp only [herror] at hvalue
          exact hone _ (reportable_error _ _ ["detail", "path"] rfl (by decide)) value hvalue
    | none =>
      refine reportable_interrupted fun value hvalue => ?_
      unfold prefixData at hvalue
      dsimp only at hvalue
      split_ifs at hvalue
      · exact hone _ (reportable_error _ _ ["path"] rfl (by decide)) value hvalue
      · exact absurd hvalue List.not_mem_nil

theorem reportable_discoverArtifacts {sort : List ArtifactCandidate → List ArtifactCandidate} (swordRoot : Bytes)
    (configs : List Bytes) :
    ∀ value ∈ (discoverArtifacts answers sort swordRoot dataPath configs).2, Reportable value := by
  intro value hvalue
  unfold discoverArtifacts at hvalue
  cases hroot : answers.canonical swordRoot with
  | error detail =>
    rw [hroot] at hvalue
    rw [List.mem_singleton.mp hvalue]
    exact reportable_error _ _ ["detail"] rfl (by decide)
  | ok root =>
    rw [hroot] at hvalue
    rcases List.mem_append.mp hvalue with hvalue | hvalue
    · exact reportable_configurations configs value hvalue
    · exact reportable_dataCandidates value hvalue

end Discovery

theorem balanced_reportAll (hfaults : Tolerable faults) (values : List Diagnostic)
    (h : ∀ value ∈ values, Reportable value) :
    Keeps (Balanced start artifacts bytes) (reportAll faults values) fun _ => True := by
  induction values with
  | nil => exact Keeps.pure trivial
  | cons value values ih =>
    rw [reportAll]
    exact balanced_reporting hfaults (h value List.mem_cons_self) (ih fun v hv => h v (List.mem_cons_of_mem _ hv))

end Counters

/-! ## The run -/

/-- What a run that has returned leaves: the lines of its records, behind them one footer that says what they
amount to, and no diagnostic in a group. -/
structure Accounted (start : Bytes) (success : Bool) (t : Extraction) : Prop where
  closed : ∃ (numbers : List Nat) (w : NdjsonWriter), numbers.length = t.session.emitted.length ∧
    t.session.writer.output.written =
      start ++ (List.zipWith (fun n record => recordLine n record.1 record.2) numbers t.session.emitted).flatten ++
        footerLine w success (fieldsOf (footerFields t))
  records : ∀ record ∈ t.session.emitted, record.1 ≠ ascii "footer"
  tally : t.session.tally = .outside t.entries t.diagnostics t.artifacts t.artifactBytes
  success : success = true ↔ t.session.tally.diagnostics.error = 0

section Functions
variable {faults : Faults} {Position : Type} {env : Environment Position} {start : Bytes} {artifacts bytes : Nat}

/-- The footer says what the counters say. -/
theorem triple_finishRun (hfaults : Tolerable faults) (success : Bool) :
    Triple (fun s => Balanced start artifacts bytes s ∧ (success = true ↔ s.diagnostics.error = 0))
      (finishRun faults success) (fun _ => Accounted start success) fun _ => Balanced start artifacts bytes := by
  unfold finishRun
  have hstep : Triple (fun s => Balanced start artifacts bytes s ∧ (success = true ↔ s.diagnostics.error = 0))
      (onSession (mayThrow faults .extraction))
      (fun _ s => Balanced start artifacts bytes s ∧ (success = true ↔ s.diagnostics.error = 0))
      fun _ => Balanced start artifacts bytes := by
    intro s hs
    have h := triple_onSession (tallied_mayThrow hfaults .extraction) hs.1.session s rfl
    cases hrun : onSession (mayThrow faults .extraction) s with
    | ok _ t =>
      rw [hrun] at h
      obtain ⟨session, rfl, hsession⟩ := h
      exact ⟨⟨hsession, hs.1.artifacts, hs.1.artifactBytes⟩, hs.2⟩
    | error _ t =>
      rw [hrun] at h
      obtain ⟨session, rfl, -, hsession⟩ := h
      exact ⟨hsession, hs.1.artifacts, hs.1.artifactBytes⟩
  refine Triple.bind hstep fun _ => Triple.get fun s hs => ?_
  obtain ⟨⟨⟨hwriting, htally⟩, hartifacts, hbytes⟩, hsuccess⟩ := hs
  intro s' hs'
  subst s'
  obtain ⟨numbers, hlength, hwritten⟩ := hwriting.logged
  have hgood := hwriting.opened.accepting.write
    (footerLine s.session.writer success (fieldsOf (footerFields s)))
  have hfinish : finish success (fieldsOf (footerFields s)) s.session.writer =
      .ok () (s.session.writer.footed success (fieldsOf (footerFields s))) :=
    finish_ok.mpr ⟨hwriting.opened.unfinished, by rw [hgood.flush]; exact hgood.good, rfl⟩
  unfold onSession finishSession
  rw [hfinish]
  refine ⟨⟨numbers, s.session.writer, hlength, ?_⟩, hwriting.types, ?_, ?_⟩
  · show ((s.session.writer.output.write _).flush).written = _
    rw [hgood.flush, OStream.write_written hgood.good, hwritten]
    rfl
  · rw [hartifacts, hbytes]
    exact htally
  · rw [hsuccess]
    show s.diagnostics.error = 0 ↔ s.session.tally.diagnostics.error = 0
    rw [htally]
    rfl

/-- How the body of the `try` ends. -/
def Finishes (start : Bytes) : BodyEnd → Extraction → Prop
  | .returned, s => Accounted start false s
  | .diverged, _ => True
  | .finished, s => ∃ artifacts bytes, Balanced start artifacts bytes s

/-- An error, and the footer of a run that has failed. -/
theorem triple_refused {α : Type} (hfaults : Tolerable faults) {value : Diagnostic} (hvalue : Reportable value)
    (hseverity : value.severity = ascii "error") (behind : α) :
    Triple (Balanced start 0 0) (do
      report faults value
      finishRun faults false
      return behind) (fun a s => a = behind ∧ Accounted start false s) fun _ => Balanced start 0 0 := by
  refine Triple.bind (triple_report hfaults hvalue) fun _ => ?_
  refine Triple.bind ((triple_finishRun hfaults false).conseq (fun s hs => ⟨hs.1, ?_⟩) (fun _ _ h => h)
    fun _ _ h => h) fun _ => Triple.pure fun _ hs => ⟨rfl, hs⟩
  exact iff_of_false Bool.false_ne_true (hs.2 hseverity)

theorem triple_extractArtifacts (hfaults : Tolerable faults) (module : ModuleAnswers Position)
    {options : ExtractionOptions} (hsize : options.artifactChunkSize ≠ 0 ∧ options.artifactChunkSize ≤ ssizeMax)
    (root : Path) (files : List Path) :
    Triple (Balanced start 0 0) (extractArtifacts faults env module options root files)
      (fun _ s => ∃ artifacts bytes, Balanced start artifacts bytes s) fun _ => Balanced start 0 0 := by
  have hfirst : Keeps (Balanced start 0 0) (do
      onSession (mayThrow faults .extraction)
      reportAll faults (discoverArtifacts env.discovery env.sort root (artifactDataPath module) files).2)
      fun _ => True := by
    apply Keeps.bind (balanced_step hfaults)
    intro _ _
    exact balanced_reportAll hfaults _ (reportable_discoverArtifacts root files)
  unfold extractArtifacts
  refine Triple.bind ((balanced_step hfaults).triple.conseq (fun _ h => h) (fun _ _ h => h.2) fun _ _ h => h)
    fun _ => ?_
  refine Triple.bind ((balanced_reportAll hfaults _ (reportable_discoverArtifacts root files)).triple.conseq
    (fun _ h => h) (fun _ _ h => h.2) fun _ _ h => h) fun _ => Triple.each fun s hs => ?_
  obtain ⟨hsession, hartifacts, hbytes⟩ := hs
  refine Triple.bind ((triple_onSession (tallied_emitArtifacts hfaults
    ((discoverArtifacts env.discovery env.sort root (artifactDataPath module) files).1.zipIdx.map
      fun c => (c.1, env.inspection c.2)) hsize) hsession).conseq (fun _ h => h) (fun _ _ h => h) fun _ t ht => ?_)
    fun result => Triple.modify fun t ht => ?_
  · obtain ⟨session, rfl, hunwritten⟩ := ht
    exact ⟨hunwritten, hartifacts, hbytes⟩
  · obtain ⟨session, rfl, htallied⟩ := ht
    exact ⟨result.artifacts, result.bytes, htallied, rfl, rfl⟩

theorem triple_extractBody (hfaults : Tolerable faults) (fuel : Nat) {options : ExtractionOptions}
    (hsize : options.artifactChunkSize ≠ 0 ∧ options.artifactChunkSize ≤ ssizeMax) (root : Path) :
    Triple (Balanced start 0 0) (extractBody faults env fuel options root) (Finishes start)
      fun _ => Balanced start 0 0 := by
  have hkept : ∀ {α : Type} {x : Run α}, Keeps (Balanced start 0 0) x (fun _ => True) →
      Triple (Balanced start 0 0) x (fun _ => Balanced start 0 0) fun _ => Balanced start 0 0 :=
    fun h => h.triple.conseq (fun _ hs => hs) (fun _ _ hs => hs.2) fun _ _ hs => hs
  unfold extractBody
  refine Triple.bind (hkept (balanced_step hfaults)) fun _ => ?_
  cases env.getModule options.moduleName with
  | none =>
    have hmissing : Reportable (moduleNotFound options.moduleName) :=
      reportable_error _ _ ["module"] rfl (by decide)
    refine (triple_refused hfaults hmissing rfl BodyEnd.returned).conseq (fun _ h => h) (fun ending s hs => ?_)
      fun _ _ h => h
    rw [hs.1]
    exact hs.2
  | some module =>
    dsimp only
    unfold extractFound
    refine Triple.bind (hkept (balanced_record hfaults .module
      ["classification", "description", "direction", "driver", "encoding", "language", "markup", "name", "sword_type"]
      rfl (by decide) fun _ => rfl)) fun _ => ?_
    have htype : Keeps (Balanced start 0 0) (checkType faults env module) fun _ => True := by
      unfold checkType
      split_ifs
      · exact balanced_report hfaults (reportable_warning _ _ ["sword_type"] rfl (by decide))
      · exact Keeps.pure trivial
    refine Triple.bind (hkept htype) fun _ => ?_
    refine Triple.bind (hkept (balanced_findConfigurationFiles hfaults env.configuration)) fun files => ?_
    have hfiles : Keeps (Balanced start 0 0) (checkFiles faults files) fun _ => True := by
      unfold checkFiles
      split_ifs
      · exact balanced_report hfaults (reportable_warning _ _ [] rfl (by decide))
      · exact Keeps.pure trivial
    refine Triple.bind (hkept hfiles) fun _ => ?_
    refine Triple.bind (hkept (balanced_emitConfigurationSources hfaults _ files 0 0)) fun _ => ?_
    refine Triple.bind (hkept (balanced_emitInterpretedConfiguration hfaults module.config 0)) fun _ => ?_
    refine Triple.bind (hkept (balanced_emitEntries hfaults env.icu fuel)) fun success => ?_
    cases success with
    | none => exact Triple.pure fun _ _ => trivial
    | some success =>
      exact Triple.bind (triple_extractArtifacts hfaults module hsize root files) fun _ => Triple.pure fun _ hs => hs

/-- A run in which only tolerated exceptions are raised, on a stream that takes every write, is accounted for
when it returns. -/
theorem footer_accounting (hfaults : Tolerable faults) (env : Environment Position) (fuel : Nat)
    {options : ExtractionOptions} (hsize : options.artifactChunkSize ≠ 0 ∧ options.artifactChunkSize ≤ ssizeMax)
    {output : OStream} (houtput : output.Accepting) {success : Bool} {t : Extraction}
    (h : extractModule faults env fuel options (Extraction.start output) = .ok (some success) t) :
    Accounted output.written success t := by
  have hkept : ∀ {α : Type} {x : Run α}, Keeps (Balanced output.written 0 0) x (fun _ => True) →
      Triple (Balanced output.written 0 0) x (fun _ => Balanced output.written 0 0) fun _ _ => True :=
    fun h => h.triple.conseq (fun _ hs => hs) (fun _ _ hs => hs.2) fun _ _ _ => trivial
  have hrun : Triple (Balanced output.written 0 0) (extractModule faults env fuel options)
      (fun ending t => ∀ success, ending = some success → Accounted output.written success t) fun _ _ => True := by
    unfold extractModule
    have hnames : (headerFields env.sword "extract" options.artifactChunkSize).map Prod.fst =
        ["command", "contract", "contract_version", "deterministic", "producer", "producer_version",
          "sword_version", "artifact_chunk_size"].map ascii := by
      unfold headerFields
      rw [if_pos hsize.1]
      rfl
    refine Triple.bind (hkept (balanced_record hfaults .header _ hnames (by decide) fun _ => rfl)) fun _ => ?_
    refine Triple.bind (hkept (balanced_step hfaults)) fun _ => ?_
    cases env.canonicalRoot options.swordPath with
    | error detail =>
      have hinvalid : Reportable (swordRootInvalid detail) := reportable_error _ _ ["detail"] rfl (by decide)
      refine Triple.bind ((triple_refused hfaults hinvalid rfl false).conseq (fun _ h => h) (fun _ _ h => h)
        fun _ _ _ => trivial) fun success => Triple.pure fun t ht success' hsuccess => ?_
      rw [← Option.some.inj hsuccess, ht.1]
      exact ht.2
    | ok root =>
      have hguarded : Triple (Balanced output.written 0 0)
          (guarded faults "extraction.exception" (extractBody faults env fuel options root) .finished)
          (Finishes output.written) fun _ _ => True := by
        refine Triple.tryCatch (triple_extractBody hfaults fuel hsize root) fun e => ?_
        refine Triple.bind ((triple_emitDiagnostic hfaults (reportable_exception _ e)).conseq (fun _ h => h)
          (fun _ _ h => h) fun _ _ _ => trivial) fun _ => Triple.pure fun s hs => ⟨0, 0, hs.1⟩
      refine Triple.bind hguarded fun ending => ?_
      cases ending with
      | returned =>
        refine Triple.pure fun t ht success hsuccess => ?_
        rw [← Option.some.inj hsuccess]
        exact ht
      | diverged =>
        refine Triple.pure fun t _ success hsuccess => ?_
        cases hsuccess
      | finished =>
        refine Triple.each fun s hs => ?_
        obtain ⟨artifacts, bytes, hbalanced⟩ := hs
        unfold close
        refine Triple.bind (Q := fun success => Accounted output.written success)
          (Triple.get fun u hu => ?_) fun success => Triple.pure fun t ht success' hsuccess => ?_
        · subst hu
          have hfinish := @triple_finishRun faults output.written artifacts bytes hfaults
            (decide (u.diagnostics.error = 0))
          have hcounted : Triple (fun v => v = u) (finishRun faults (decide (u.diagnostics.error = 0)))
              (fun _ => Accounted output.written (decide (u.diagnostics.error = 0))) fun _ _ => True := by
            refine hfinish.conseq (fun v hv => ?_) (fun _ _ h => h) fun _ _ _ => trivial
            subst hv
            exact ⟨hbalanced, decide_eq_true_iff⟩
          exact Triple.bind hcounted fun _ => Triple.pure fun v hv => hv
        · rw [← Option.some.inj hsuccess]
          exact ht
  have hstart : Balanced output.written 0 0 (Extraction.start output) := by
    refine ⟨⟨⟨⟨[], rfl, (List.append_nil _).symm⟩, ⟨houtput, rfl⟩, ?_⟩, rfl⟩, rfl, rfl⟩
    exact fun record hrecord => absurd hrecord List.not_mem_nil
  exact hrun.ok hstart h success rfl

end Functions

/-! ### A module of two directories -/

/-- A sort that leaves a sorted list alone. -/
def sortIfNeeded {α κ : Type} [LinearOrder κ] (key : α → κ) (l : List α) : List α :=
  if l.Pairwise fun a b => key a ≤ key b then l else l.mergeSort fun a b => decide (key a ≤ key b)

theorem sorting_sortIfNeeded {α κ : Type} [LinearOrder κ] (key : α → κ) (l : List α) :
    Sorting key l (sortIfNeeded key l) := by
  unfold sortIfNeeded
  split_ifs with h
  · exact ⟨.refl l, h⟩
  · exact sorting_mergeSort key l

/-- A directory. -/
def directoryAnswers : Inspection where
  lstat := .ok ⟨1, 1, 0o040755, 0, ⟨0, 0⟩, ⟨0, 0⟩⟩
  readlink := .error ⟨22, ascii "Invalid argument"⟩
  open_ := .ok ()
  opened := .error ⟨22, ascii "Invalid argument"⟩
  reads := []
  after := .error ⟨22, ascii "Invalid argument"⟩

/-- A module without entries, its `DataPath` a directory with one directory in it. -/
def twoDirectories : Environment Unit where
  sword := {
    modtypeBibles := ascii "Biblical Texts"
    modtypeCommentaries := ascii "Commentaries"
    modtypeLexdicts := ascii "Lexicons / Dictionaries"
    modtypeDailydevos := ascii "Daily Devotional"
    modtypeGenbooks := ascii "Generic Books"
    directionLtr := octet 0
    directionRtl := octet 1
    directionBidi := octet 2
    encLatin1 := octet 1
    encUtf8 := octet 2
    encScsu := octet 3
    encUtf16 := octet 4
    encRtf := octet 5
    encHtml := octet 6
    fmtPlain := octet 1
    fmtThml := octet 2
    fmtGbf := octet 3
    fmtHtml := octet 4
    fmtHtmlhref := octet 5
    fmtRtf := octet 6
    fmtOsis := octet 7
    fmtWebif := octet 8
    fmtTei := octet 9
    fmtXhtml := octet 10
    fmtLatex := octet 11
    swordVersion := ascii "1.9.0"
    swordVersion_valid := by decide
    producerVersion := ascii "1.0.0"
    producerVersion_valid := by decide }
  icu := noIcu
  canonicalRoot := fun _ => .ok (ascii "/s")
  getModule := fun _ => some {
    name := some (ascii "M")
    type := some (ascii "Biblical Texts")
    description := none
    language := none
    direction := octet 0
    encoding := octet 2
    markup := octet 7
    config := []
    getConfigEntry := fun name => if name = "DataPath" then some (ascii "d") else none
    engine := { fixedIndex with top := (octet 1, ()) } }
  modules := []
  configuration := {
    masterStatus := .other
    masterFile := ⟨false, none, false, [], .endOfFile⟩
    iterator := .ok []
    sort := fun root => sortIfNeeded fun path => lexicallyRelative path root
    sorting := fun root => sorting_sortIfNeeded fun path => lexicallyRelative path root
    reread := fun _ => ⟨false, none, false, [], .endOfFile⟩ }
  discovery := {
    canonical := fun path => .ok path
    symlinkStatus := fun _ => some true
    recursiveDirectory := fun data => ([data ++ ascii "/a"], none)
    directoryIterator := fun _ => ([], none)
    configThrows := fun _ => none
    dataThrows := none }
  sort := sortIfNeeded ArtifactCandidate.relativePath
  sorting := sorting_sortIfNeeded ArtifactCandidate.relativePath
  inspection := fun _ => directoryAnswers

def moduleOptions : ExtractionOptions := ⟨ascii "/s", ascii "M", 4096⟩

/-- The allocations for the second `artifact_begin` fail. -/
def failsBetween : Faults := fun site s =>
  if site = .compose .artifactBegin ∧ s.tally.artifacts = 1 then some (.other (ascii "std::bad_alloc")) else none

/-- Behind a run that has returned: the artifacts of the footer, and those of the records. -/
def countedArtifacts (faults : Faults) : Option (Nat × Nat) :=
  match extractModule faults twoDirectories 1 moduleOptions (Extraction.start openStream) with
  | .ok (some _) t => some (t.artifacts, t.session.tally.artifacts)
  | _ => none

theorem exists_run {faults : Faults} {footer records : Nat} (h : countedArtifacts faults = some (footer, records)) :
    ∃ success t, extractModule faults twoDirectories 1 moduleOptions (Extraction.start openStream) =
      .ok (some success) t ∧ t.artifacts = footer ∧ t.session.tally.artifacts = records := by
  unfold countedArtifacts at h
  cases hrun : extractModule faults twoDirectories 1 moduleOptions (Extraction.start openStream) with
  | error e t =>
    rw [hrun] at h
    cases h
  | ok ending t =>
    rw [hrun] at h
    cases ending with
    | none => cases h
    | some success =>
      obtain ⟨hfooter, hrecords⟩ := Prod.mk.inj (Option.some.inj h)
      exact ⟨success, t, rfl, hfooter, hrecords⟩

theorem footer_accounting_twoDirectories : ∃ success t,
    extractModule noFaults twoDirectories 1 moduleOptions (Extraction.start openStream) = .ok (some success) t ∧
      Accounted openStream.written success t := by
  have hcounted : countedArtifacts noFaults = some (2, 2) := by decide +kernel
  obtain ⟨success, t, hrun, -⟩ := exists_run hcounted
  exact ⟨success, t, hrun, footer_accounting (fun _ _ h => absurd rfl h) twoDirectories 1 (by decide)
    ⟨rfl, rfl, rfl⟩ hrun⟩

/-- Between two groups an allocation fails: the artifact that is out is not in the footer. -/
theorem failsBetween_not_accounted : ∃ success t,
    extractModule failsBetween twoDirectories 1 moduleOptions (Extraction.start openStream) = .ok (some success) t ∧
      ¬ Accounted openStream.written success t := by
  have hcounted : countedArtifacts failsBetween = some (0, 1) := by decide +kernel
  obtain ⟨success, t, hrun, hfooter, hrecords⟩ := exists_run hcounted
  refine ⟨success, t, hrun, fun h => ?_⟩
  have hartifacts := congrArg Tally.artifacts h.tally
  rw [hrecords] at hartifacts
  exact absurd (hartifacts.trans hfooter) (by decide)


end GetBibleSword.Core
