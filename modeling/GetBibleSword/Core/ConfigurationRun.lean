import GetBibleSword.Core.ConfigurationLines
import GetBibleSword.Core.Dictionary
import GetBibleSword.Core.DiscoveryOrder
import GetBibleSword.Core.Extractor

/-!
# The run over the configuration

What `find_configuration_files` and `emit_configuration_sources` do on the answers of the system, without faults.

* `Failure` : a diagnostic that is written as an error;
* `configurationFound` : the files that are found, and what is reported meanwhile;
* `sourceEmissions`, `configurationEmissions` : what is written; `captureConfiguration_noFaults`;
* `sources` : the files whose second reading succeeds; `filter_sourceEmissions`, `error_configurationEmissions`.
-/

namespace GetBibleSword.Core
open GetBibleSword.Lib Posix FsPath

/-! ## What is reported -/

/-- A diagnostic that can be written, of severity `error`. -/
def Failure (value : Diagnostic) : Prop := value.Plain ∧ IsErrorRecord (Emission.diagnostic value).written

theorem failure_of {value : Diagnostic} {context : List (Bytes × Bytes)} (hseverity : value.severity = ascii "error")
    (hcontext : value.context = fieldsOf context)
    (hnames : ∀ name ∈ context.map Prod.fst, name = ascii "path" ∨ name = ascii "detail") : Failure value := by
  have hfree : ∀ name, name ≠ ascii "path" → name ≠ ascii "detail" → name ∉ context.map Prod.fst := by
    intro name hpath hdetail hmem
    exact (hnames name hmem).elim hpath hdetail
  constructor
  · have hown : ∀ name, name ∉ context.map Prod.fst → name ∉ [ascii "code", ascii "message", ascii "severity"] →
        (diagnosticFields value).contains name = false := by
      intro name hmem hnot
      rw [Bool.eq_false_iff, ne_eq, diagnosticFields, OrdMap.contains_emplaceAll, hcontext, fieldsOf,
        OrdMap.contains_emplaceAll]
      exact fun h => h.elim hnot fun h => h.elim hmem (by simp [OrdMap.contains])
    exact ⟨hown _ (hfree _ (by decide) (by decide)) (by decide), hown _ (hfree _ (by decide) (by decide)) (by decide)⟩
  · rw [isErrorRecord_iff (by rw [hcontext]; exact find_context context (hfree _ (by decide) (by decide))), hseverity]

section Failures
variable (root path detail : Bytes)

theorem failure_configReadFailed (message : Bytes) : Failure (configReadFailed message root path) :=
  failure_of rfl rfl fun _ h => .inl (List.mem_singleton.mp h)

theorem failure_masterSymlinkRefused : Failure (masterSymlinkRefused root path) :=
  failure_of rfl rfl fun _ h => .inl (List.mem_singleton.mp h)

theorem failure_configSymlinkRefused : Failure (configSymlinkRefused root path) :=
  failure_of rfl rfl fun _ h => .inl (List.mem_singleton.mp h)

theorem failure_configDirectoryUnreadable : Failure (configDirectoryUnreadable detail) :=
  failure_of rfl rfl fun _ h => .inr (List.mem_singleton.mp h)

theorem failure_configStatFailed : Failure (configStatFailed detail root path) := by
  refine @failure_of _ [_, _] rfl rfl fun name h => ?_
  rcases List.mem_cons.mp h with h | h
  · exact .inr h
  · exact .inl (List.mem_singleton.mp h)

theorem failure_configEnumerationFailed : Failure (configEnumerationFailed detail) :=
  failure_of rfl rfl fun _ h => .inr (List.mem_singleton.mp h)

end Failures

/-! ## The run -/

section Found
variable (root moduleName : Bytes)

/-- The file if it is kept, and what is reported. -/
def fileFound (path : Path) (file : IfstreamAnswers) : List Path × List Diagnostic :=
  match readFile file with
  | .error message => ([], [configReadFailed message root path])
  | .ok bytes => (if definesModule bytes moduleName then [path] else [], [])

def candidateFound (step : ConfigStep) : FileKind → List Path × List Diagnostic
  | .regular => fileFound root moduleName step.path step.file
  | .symlink => ([], [configSymlinkRefused root step.path])
  | .other => ([], [])

def stepsFound : List ConfigStep → List Path × List Diagnostic
  | [] => ([], [])
  | step :: steps =>
    match step.status with
    | .error detail =>
      let rest := if step.increment.isSome then ([], []) else stepsFound steps
      (rest.1, configStatFailed detail root step.path :: rest.2)
    | .ok kind =>
      let here := candidateFound root moduleName step kind
      match step.increment with
      | some detail => (here.1, here.2 ++ [configEnumerationFailed detail])
      | none => (here.1 ++ (stepsFound steps).1, here.2 ++ (stepsFound steps).2)

def configurationFound (answers : ConfigurationAnswers) : List Path × List Diagnostic :=
  let master := join root (ascii "mods.conf")
  match answers.masterStatus with
  | .regular => fileFound root moduleName master answers.masterFile
  | .symlink => ([], [masterSymlinkRefused root master])
  | .other =>
    match answers.iterator with
    | .error detail => ([], [configDirectoryUnreadable detail])
    | .ok steps => (answers.sort root (stepsFound root moduleName steps).1, (stepsFound root moduleName steps).2)

/-- What the loop over the files writes. -/
def sourceEmissions (reread : Nat → IfstreamAnswers) : Nat → Nat → List Path → List Emission
  | _, _, [] => []
  | index, ordinal, file :: files =>
    match readFile (reread index) with
    | .error message =>
      .diagnostic (configReadFailed message root file) :: sourceEmissions reread (index + 1) ordinal files
    | .ok bytes =>
      .record .configSource (fieldsOf (configSourceFields root ordinal file bytes)) ::
        sourceEmissions reread (index + 1) (ordinal + 1) files

/-- The part of `extract_module` from the search to the last source. -/
def captureConfiguration (faults : Faults) (answers : ConfigurationAnswers) : Run Unit := do
  let files ← findConfigurationFiles faults root moduleName answers
  checkFiles faults files
  emitConfigurationSources faults root answers.reread 0 0 files

def configurationEmissions (answers : ConfigurationAnswers) : List Emission :=
  let found := configurationFound root moduleName answers
  found.2.map .diagnostic ++
    ((if found.1 = [] then [.diagnostic configSourceNotFound] else []) ++
      sourceEmissions root answers.reread 0 0 found.1)

variable {root moduleName} {s : Extraction}

theorem failure_fileFound {path : Path} {file : IfstreamAnswers} :
    ∀ value ∈ (fileFound root moduleName path file).2, Failure value := by
  intro value hvalue
  unfold fileFound at hvalue
  cases hread : readFile file with
  | error message =>
    rw [hread] at hvalue
    rw [List.mem_singleton.mp hvalue]
    exact failure_configReadFailed root path message
  | ok bytes =>
    rw [hread] at hvalue
    exact absurd hvalue List.not_mem_nil

theorem failure_candidateFound {step : ConfigStep} {kind : FileKind} :
    ∀ value ∈ (candidateFound root moduleName step kind).2, Failure value := by
  intro value hvalue
  cases kind with
  | regular => exact failure_fileFound value hvalue
  | symlink =>
    rw [List.mem_singleton.mp hvalue]
    exact failure_configSymlinkRefused root step.path
  | other => exact absurd hvalue List.not_mem_nil

theorem failure_stepsFound (steps : List ConfigStep) : ∀ value ∈ (stepsFound root moduleName steps).2, Failure value := by
  induction steps with
  | nil => exact fun value hvalue => absurd hvalue List.not_mem_nil
  | cons step steps ih =>
    intro value hvalue
    rw [stepsFound] at hvalue
    cases hstatus : step.status with
    | error detail =>
      rw [hstatus] at hvalue
      rcases List.mem_cons.mp hvalue with rfl | hvalue
      · exact failure_configStatFailed root step.path detail
      · split_ifs at hvalue
        · exact absurd hvalue List.not_mem_nil
        · exact ih value hvalue
    | ok kind =>
      rw [hstatus] at hvalue
      cases hincrement : step.increment with
      | some detail =>
        rw [hincrement] at hvalue
        rcases List.mem_append.mp hvalue with hvalue | hvalue
        · exact failure_candidateFound value hvalue
        · rw [List.mem_singleton.mp hvalue]
          exact failure_configEnumerationFailed detail
      | none =>
        rw [hincrement] at hvalue
        rcases List.mem_append.mp hvalue with hvalue | hvalue
        · exact failure_candidateFound value hvalue
        · exact ih value hvalue

theorem failure_configurationFound (answers : ConfigurationAnswers) :
    ∀ value ∈ (configurationFound root moduleName answers).2, Failure value := by
  intro value hvalue
  unfold configurationFound at hvalue
  cases hmaster : answers.masterStatus with
  | regular =>
    rw [hmaster] at hvalue
    exact failure_fileFound value hvalue
  | symlink =>
    rw [hmaster] at hvalue
    rw [List.mem_singleton.mp hvalue]
    exact failure_masterSymlinkRefused root _
  | other =>
    rw [hmaster] at hvalue
    cases hiterator : answers.iterator with
    | error detail =>
      rw [hiterator] at hvalue
      rw [List.mem_singleton.mp hvalue]
      exact failure_configDirectoryUnreadable detail
    | ok steps =>
      rw [hiterator] at hvalue
      exact failure_stepsFound steps value hvalue

theorem inspectFile_noFaults (hs : s.session.Open) (path : Path) (file : IfstreamAnswers) :
    Runs (inspectFile noFaults root moduleName path file) s (fileFound root moduleName path file).1
      ((fileFound root moduleName path file).2.map .diagnostic) := by
  unfold inspectFile fileFound
  apply Runs.silent hs (runs_mayThrow s)
  intro t ht _
  cases readFile file with
  | error message =>
    apply Runs.bind ht (runs_report ht (failure_configReadFailed root path message).1)
    exact fun u _ _ => Runs.pure _ u
  | ok bytes => exact Runs.pure _ t

theorem inspectCandidate_noFaults (hs : s.session.Open) (step : ConfigStep) (kind : FileKind) :
    Runs (inspectCandidate noFaults root moduleName step kind) s (candidateFound root moduleName step kind).1
      ((candidateFound root moduleName step kind).2.map .diagnostic) := by
  cases kind with
  | regular => exact inspectFile_noFaults hs step.path step.file
  | symlink =>
    apply Runs.bind hs (runs_report hs (failure_configSymlinkRefused root step.path).1)
    exact fun u _ _ => Runs.pure _ u
  | other => exact Runs.pure _ s

/-- A program behind which only its value changes. -/
theorem Runs.returned {α β : Type} {x : Run α} {a : α} {emitted : List Emission} (g : α → β) (hs : s.session.Open)
    (h : Runs x s a emitted) : Runs (x >>= fun a => return g a) s (g a) emitted := by
  have hrest := @Runs.bind _ _ _ _ _ a (g a) x (fun a => return g a) hs h fun t _ _ => Runs.pure (g a) t
  rwa [List.append_nil] at hrest

theorem searchSteps_noFaults (steps : List ConfigStep) : ∀ {s : Extraction}, s.session.Open →
    Runs (searchSteps noFaults root moduleName steps) s (stepsFound root moduleName steps).1
      ((stepsFound root moduleName steps).2.map .diagnostic) := by
  induction steps with
  | nil => exact fun {s} _ => Runs.pure _ s
  | cons step steps ih =>
    intro s hs
    rw [searchSteps, stepsFound]
    apply Runs.silent hs (runs_mayThrow s)
    intro t ht _
    cases step.status with
    | error detail =>
      apply Runs.bind ht (runs_report ht (failure_configStatFailed root step.path detail).1)
      intro u hu _
      by_cases hincrement : step.increment.isSome = true
      · rw [if_pos hincrement, if_pos hincrement]
        exact Runs.pure _ u
      · rw [if_neg hincrement, if_neg hincrement]
        exact ih hu
    | ok kind =>
      cases step.increment with
      | some detail =>
        show Runs _ t _ ((candidateFound root moduleName step kind).2 ++ [configEnumerationFailed detail] |>.map _)
        rw [List.map_append]
        apply Runs.bind ht (inspectCandidate_noFaults ht step kind)
        intro u hu _
        apply Runs.bind hu (runs_report hu (failure_configEnumerationFailed detail).1)
        exact fun v _ _ => Runs.pure _ v
      | none =>
        show Runs _ t _ ((candidateFound root moduleName step kind).2 ++ (stepsFound root moduleName steps).2 |>.map _)
        rw [List.map_append]
        apply Runs.bind ht (inspectCandidate_noFaults ht step kind)
        intro u hu _
        exact (ih hu).returned (fun rest => (candidateFound root moduleName step kind).1 ++ rest) hu

theorem findConfigurationFiles_noFaults (hs : s.session.Open) (answers : ConfigurationAnswers) :
    Runs (findConfigurationFiles noFaults root moduleName answers) s (configurationFound root moduleName answers).1
      ((configurationFound root moduleName answers).2.map .diagnostic) := by
  unfold findConfigurationFiles configurationFound
  dsimp only
  apply Runs.silent hs (runs_mayThrow s)
  intro t ht _
  cases answers.masterStatus with
  | regular => exact inspectFile_noFaults ht _ answers.masterFile
  | symlink =>
    apply Runs.bind ht (runs_report ht (failure_masterSymlinkRefused root _).1)
    exact fun u _ _ => Runs.pure _ u
  | other =>
    cases answers.iterator with
    | error detail =>
      apply Runs.bind ht (runs_report ht (failure_configDirectoryUnreadable detail).1)
      exact fun u _ _ => Runs.pure _ u
    | ok steps =>
      exact (searchSteps_noFaults steps ht).returned (answers.sort root) ht

theorem checkFiles_noFaults (hs : s.session.Open) (files : List Path) :
    Runs (checkFiles noFaults files) s () (if files = [] then [.diagnostic configSourceNotFound] else []) := by
  unfold checkFiles
  by_cases hnil : files = []
  · rw [if_pos hnil, if_pos hnil]
    exact runs_report hs (plain_warningDiagnostic _ _ List.not_mem_nil List.not_mem_nil)
  · rw [if_neg hnil, if_neg hnil]
    exact Runs.pure () s

theorem runs_configSource (hs : s.session.Open) (ordinal : Nat) (path bytes : Bytes) :
    Runs (onSession (emitRecord noFaults .configSource (fieldsOf (configSourceFields root ordinal path bytes)))) s ()
      [.record .configSource (fieldsOf (configSourceFields root ordinal path bytes))] := by
  have hfree : Free (fieldsOf (configSourceFields root ordinal path bytes)) := by
    apply free_fieldsOf
    · show ascii "sequence" ∉ [ascii "ordinal", ascii "path", ascii "raw"]
      decide
    · show ascii "type" ∉ [ascii "ordinal", ascii "path", ascii "raw"]
      decide
  obtain ⟨t, ht, hran⟩ := emitRecord_noFaults hs .configSource hfree
  refine ⟨{ s with session := t }, ?_, hran, rfl, rfl, rfl, rfl⟩
  rw [onSession, ht]

theorem emitConfigurationSources_noFaults (reread : Nat → IfstreamAnswers) (files : List Path) :
    ∀ {index ordinal : Nat} {s : Extraction}, s.session.Open →
    Runs (emitConfigurationSources noFaults root reread index ordinal files) s ()
      (sourceEmissions root reread index ordinal files) := by
  induction files with
  | nil => exact fun {_ _ s} _ => Runs.pure () s
  | cons file files ih =>
    intro index ordinal s hs
    rw [emitConfigurationSources, sourceEmissions]
    apply Runs.silent hs (runs_mayThrow s)
    intro t ht _
    cases readFile (reread index) with
    | error message =>
      apply Runs.bind ht (runs_report ht (failure_configReadFailed root file message).1)
      exact fun u hu _ => ih hu
    | ok bytes =>
      apply Runs.bind ht (runs_configSource ht ordinal file bytes)
      exact fun u hu _ => ih hu

theorem captureConfiguration_noFaults (hs : s.session.Open) (answers : ConfigurationAnswers) :
    Runs (captureConfiguration root moduleName noFaults answers) s () (configurationEmissions root moduleName answers) := by
  apply Runs.bind hs (findConfigurationFiles_noFaults hs answers)
  intro t ht _
  apply Runs.bind ht (checkFiles_noFaults ht _)
  exact fun u hu _ => emitConfigurationSources_noFaults answers.reread _ hu

/-! ## What the records hold -/

/-- The files whose second reading succeeds, with their octets. -/
def sources (reread : Nat → IfstreamAnswers) : Nat → List Path → List (Path × Bytes)
  | _, [] => []
  | index, file :: files =>
    match readFile (reread index) with
    | .error _ => sources reread (index + 1) files
    | .ok bytes => (file, bytes) :: sources reread (index + 1) files

/-- The record of a source. -/
def sourceRecord (root : Bytes) (ordinal : Nat) (source : Path × Bytes) : Bytes × JsonFields :=
  (Purpose.configSource.type, fieldsOf (configSourceFields root ordinal source.1 source.2))

/-- The records of type `config_source`. -/
def sourceRecords (records : List (Bytes × JsonFields)) : List (Bytes × JsonFields) :=
  records.filter fun record => record.1 = Purpose.configSource.type

theorem sourceRecords_diagnostics (values : List Diagnostic) :
    sourceRecords ((values.map Emission.diagnostic).map Emission.written) = [] := by
  unfold sourceRecords
  rw [List.filter_eq_nil_iff]
  intro record hrecord
  rw [List.map_map] at hrecord
  obtain ⟨value, -, rfl⟩ := List.mem_map.mp hrecord
  show ¬ decide (Purpose.diagnostic.type = Purpose.configSource.type) = true
  decide

/-- The sources are numbered on from the ordinal. -/
theorem sourceRecords_sourceEmissions (reread : Nat → IfstreamAnswers) (files : List Path) : ∀ index ordinal : Nat,
    sourceRecords ((sourceEmissions root reread index ordinal files).map Emission.written) =
      (sources reread index files).mapIdx fun i source => sourceRecord root (ordinal + i) source := by
  induction files with
  | nil => exact fun _ _ => rfl
  | cons file files ih =>
    intro index ordinal
    rw [sourceEmissions, sources]
    cases readFile (reread index) with
    | error message =>
      have hskip : sourceRecords ([(Emission.diagnostic (configReadFailed message root file)).written] ++
          (sourceEmissions root reread (index + 1) ordinal files).map Emission.written) = _ := List.filter_append _ _
      rw [show [(Emission.diagnostic (configReadFailed message root file)).written].filter _ = _ from
        sourceRecords_diagnostics [configReadFailed message root file]] at hskip
      exact hskip.trans (ih (index + 1) ordinal)
    | ok bytes =>
      rw [List.mapIdx_cons, Nat.add_zero]
      show sourceRecord root ordinal (file, bytes) :: sourceRecords _ = _
      rw [ih (index + 1) (ordinal + 1)]
      congr 1
      apply List.mapIdx_eq_iff.mpr
      intro i
      rw [List.getElem?_mapIdx, Nat.add_right_comm]
      rfl

theorem sourceRecords_configurationEmissions (answers : ConfigurationAnswers) :
    sourceRecords ((configurationEmissions root moduleName answers).map Emission.written) =
      (sources answers.reread 0 (configurationFound root moduleName answers).1).mapIdx (sourceRecord root) := by
  have happend : ∀ records more : List (Bytes × JsonFields),
      sourceRecords (records ++ more) = sourceRecords records ++ sourceRecords more := List.filter_append
  have hwarning : sourceRecords ((if (configurationFound root moduleName answers).1 = [] then
      [Emission.diagnostic configSourceNotFound] else []).map Emission.written) = [] := by
    split_ifs
    · exact sourceRecords_diagnostics [configSourceNotFound]
    · rfl
  unfold configurationEmissions
  dsimp only
  rw [List.map_append, List.map_append, happend, happend, sourceRecords_diagnostics, hwarning,
    sourceRecords_sourceEmissions]
  simp only [List.nil_append, Nat.zero_add]

/-- The loop reports an error exactly where a reading fails. -/
theorem error_sourceEmissions (reread : Nat → IfstreamAnswers) (files : List Path) : ∀ index ordinal : Nat,
    (∃ record ∈ (sourceEmissions root reread index ordinal files).map Emission.written, IsErrorRecord record) ↔
      ∃ i < files.length, ∀ bytes, readFile (reread (index + i)) ≠ .ok bytes := by
  induction files with
  | nil =>
    intro index ordinal
    refine iff_of_false (fun h => ?_) (fun h => ?_)
    · obtain ⟨record, hmem, -⟩ := h
      exact List.not_mem_nil hmem
    · obtain ⟨i, hi, -⟩ := h
      exact Nat.not_lt_zero i hi
  | cons file files ih =>
    intro index ordinal
    rw [sourceEmissions]
    cases hread : readFile (reread index) with
    | error message =>
      refine iff_of_true ⟨_, List.mem_cons_self, (failure_configReadFailed root file message).2⟩ ?_
      refine ⟨0, Nat.succ_pos _, fun bytes hok => ?_⟩
      rw [Nat.add_zero, hread] at hok
      cases hok
    | ok bytes =>
      have hrest := ih (index + 1) (ordinal + 1)
      constructor
      · intro h
        obtain ⟨record, hmem, herror⟩ := h
        rcases List.mem_cons.mp hmem with rfl | hmem
        · exact absurd herror.1 (by decide : Purpose.configSource.type ≠ Purpose.diagnostic.type)
        · obtain ⟨i, hi, hfails⟩ := hrest.mp ⟨record, hmem, herror⟩
          refine ⟨i + 1, Nat.succ_lt_succ hi, ?_⟩
          rwa [Nat.add_right_comm] at hfails
      · intro h
        obtain ⟨i, hi, hfails⟩ := h
        cases i with
        | zero => exact absurd hread (hfails bytes)
        | succ i =>
          rw [← Nat.add_assoc, Nat.add_right_comm] at hfails
          obtain ⟨record, hmem, herror⟩ := hrest.mpr ⟨i, Nat.lt_of_succ_lt_succ hi, hfails⟩
          exact ⟨record, List.mem_cons_of_mem _ hmem, herror⟩

/-- An error is reported exactly where the search reports something or a second reading fails. -/
theorem error_configurationEmissions (answers : ConfigurationAnswers) :
    (∃ record ∈ (configurationEmissions root moduleName answers).map Emission.written, IsErrorRecord record) ↔
      (configurationFound root moduleName answers).2 ≠ [] ∨
        ∃ i < (configurationFound root moduleName answers).1.length, ∀ bytes, readFile (answers.reread i) ≠ .ok bytes := by
  have hsearch : (∃ record ∈ ((configurationFound root moduleName answers).2.map Emission.diagnostic).map
      Emission.written, IsErrorRecord record) ↔ (configurationFound root moduleName answers).2 ≠ [] := by
    rw [exists_error_diagnostics]
    constructor
    · intro h
      obtain ⟨value, hvalue, -⟩ := h
      exact List.ne_nil_of_mem hvalue
    · intro h
      obtain ⟨value, hvalue⟩ := List.exists_mem_of_ne_nil _ h
      exact ⟨value, hvalue, (failure_configurationFound answers value hvalue).2⟩
  have hwarning : ¬ ∃ record ∈ (if (configurationFound root moduleName answers).1 = [] then
      [Emission.diagnostic configSourceNotFound] else []).map Emission.written, IsErrorRecord record := by
    intro h
    obtain ⟨record, hmem, herror⟩ := h
    split_ifs at hmem
    · rw [List.map_singleton, List.mem_singleton] at hmem
      rw [hmem] at herror
      exact not_isErrorRecord_warning _ _ List.not_mem_nil herror
    · exact List.not_mem_nil hmem
  unfold configurationEmissions
  dsimp only
  rw [List.map_append, List.map_append, exists_error_append, exists_error_append, hsearch, or_iff_right hwarning,
    error_sourceEmissions]
  simp only [Nat.zero_add]

end Found

end GetBibleSword.Core
