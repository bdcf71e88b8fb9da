import GetBibleSword.Core.Traversal

/-!
# The traversal of a dictionary

The loop of `emit_entries` on a module whose driver declares how many entries it has.

* `entryOrdinals`, `IsErrorRecord` : the ordinals of the entry records, and error diagnostics;
* `traverse_full`, `traverse_stopped`, `traverse_advanced` : what one round does behind its record;
* `traverse_dictionary` : the loop ends, numbers its entries from the counter on, and reports an error
  unless it stops at the declared count, or at one where nothing is declared;
* `Accounts`, `Accountable`, `accounts_iff` : when the count of the records is the declared one.
-/

namespace GetBibleSword.Core
open GetBibleSword.Lib

/-! ## Records -/

/-- The member `ordinal` of each entry record. -/
def entryOrdinals (records : List (Bytes × JsonFields)) : List (Option Bytes) :=
  (records.filter fun record => record.1 = Purpose.entry.type).map fun record =>
    record.2.find (ascii "ordinal")

/-- A diagnostic with severity `error`. -/
def IsErrorRecord (record : Bytes × JsonFields) : Prop :=
  record.1 = Purpose.diagnostic.type ∧ record.2.find (ascii "severity") = some (jsonString (ascii "error"))

theorem entryOrdinals_append (records more : List (Bytes × JsonFields)) :
    entryOrdinals (records ++ more) = entryOrdinals records ++ entryOrdinals more := by
  unfold entryOrdinals
  rw [List.filter_append, List.map_append]

theorem entryOrdinals_diagnostics (diagnostics : List Diagnostic) :
    entryOrdinals ((diagnostics.map Emission.diagnostic).map Emission.written) = [] := by
  have hnone := List.countP_eq_zero.mp (entryRecords_diagnostics diagnostics)
  unfold entryOrdinals
  rw [List.filter_eq_nil_iff.mpr hnone, List.map_nil]

theorem entryOrdinals_entryEmissions (icu : Icu) (answers : EntryAnswers) (ordinal : Nat) :
    entryOrdinals ((entryEmissions icu answers ordinal).map Emission.written) = [some (decimal ordinal)] := by
  have hfind : (fieldsOf (entryRecord icu answers ordinal)).find (ascii "ordinal") = some (decimal ordinal) := by
    have hnodup : (["annotation_segments", "key", "normalized_raw", "normalized_stripped",
        "official_attributes", "ordinal", "projections_available", "raw", "rendered_default", "scope",
        "stripped"].map ascii).Nodup := by decide
    exact OrdMap.find_emplaceAll_mem (m := OrdMap.empty) _ hnodup (List.mem_of_getElem? (i := 5) rfl)
  unfold entryEmissions
  rw [List.map_append, entryOrdinals_append, entryOrdinals_diagnostics]
  show [(fieldsOf (entryRecord icu answers ordinal)).find (ascii "ordinal")] = _
  rw [hfind]

theorem find_severity {value : Diagnostic} (h : value.context.find (ascii "severity") = none) :
    (diagnosticFields value).find (ascii "severity") = some (jsonString value.severity) := by
  have hnodup : ([ascii "code", ascii "message", ascii "severity"]).Nodup := by decide
  have hfind := OrdMap.find_emplaceAll_mem (m := value.context)
    [(ascii "code", jsonString value.code), (ascii "message", byteValueJson value.message),
      (ascii "severity", jsonString value.severity)] hnodup (List.mem_of_getElem? (i := 2) rfl)
  rwa [h] at hfind

/-- The context of a diagnostic has no `severity`. -/
theorem find_context (context : List (Bytes × Bytes)) (h : ascii "severity" ∉ context.map Prod.fst) :
    (fieldsOf context).find (ascii "severity") = none :=
  OrdMap.find_emplaceAll_notMem (m := OrdMap.empty) context h

theorem isErrorRecord_iff {value : Diagnostic} (h : value.context.find (ascii "severity") = none) :
    IsErrorRecord (Emission.diagnostic value).written ↔
      jsonString value.severity = jsonString (ascii "error") := by
  show _ ∧ (diagnosticFields value).find (ascii "severity") = _ ↔ _
  rw [find_severity h, Option.some.injEq]
  exact and_iff_right rfl

theorem isErrorRecord_error (code message : String) {context : List (Bytes × Bytes)}
    (h : ascii "severity" ∉ context.map Prod.fst) :
    IsErrorRecord (Emission.diagnostic (errorDiagnostic code message context)).written :=
  (isErrorRecord_iff (find_context context h)).mpr rfl

theorem not_isErrorRecord_warning (code message : String) {context : List (Bytes × Bytes)}
    (h : ascii "severity" ∉ context.map Prod.fst) :
    ¬ IsErrorRecord (Emission.diagnostic (warningDiagnostic code message context)).written := by
  rw [isErrorRecord_iff (find_context context h)]
  show jsonString (ascii "warning") ≠ jsonString (ascii "error")
  decide

/-! ### What an entry reports -/

section Reported
variable (icu : Icu) (answers : EntryAnswers) (ordinal : Nat)

/-- The read fails, or a text of the entry is too long for an `int`. -/
def Unreadable : Prop :=
  answers.readError ≠ zeroByte ∨ answers.raw.length > intMax ∨
    ∃ utf8, sourceUtf8 icu answers.raw (safeCString answers.encoding) = some utf8 ∧
      utf8.contains zeroByte = false ∧ utf8.length > intMax

theorem isErrorRecord_lengthUnsupported (size : Nat) :
    IsErrorRecord (Emission.diagnostic (lengthUnsupported ordinal size)).written := by
  apply isErrorRecord_error
  show ascii "severity" ∉ [ascii "entry_ordinal", ascii "size"]
  decide

theorem isErrorRecord_entryReadFailed (key : Bytes) (error : Byte) :
    IsErrorRecord (Emission.diagnostic (entryReadFailed ordinal key error)).written := by
  apply isErrorRecord_error
  show ascii "severity" ∉ [ascii "entry_ordinal", ascii "key", ascii "sword_error"]
  decide

theorem isErrorRecord_entryCountMismatch (declared emitted : Nat) :
    IsErrorRecord (Emission.diagnostic (entryCountMismatch declared emitted)).written := by
  apply isErrorRecord_error
  show ascii "severity" ∉ [ascii "declared_entries", ascii "emitted_entries"]
  decide

theorem isErrorRecord_navigationFailed (error : Byte) :
    IsErrorRecord (Emission.diagnostic (navigationFailed ordinal error)).written := by
  apply isErrorRecord_error
  show ascii "severity" ∉ [ascii "entry_ordinal", ascii "sword_error"]
  decide

theorem not_isErrorRecord_moduleEmpty : ¬ IsErrorRecord (Emission.diagnostic moduleEmpty).written :=
  not_isErrorRecord_warning _ _ List.not_mem_nil

theorem not_isErrorRecord_ordinal (code message : String) :
    ¬ IsErrorRecord (Emission.diagnostic (warningDiagnostic code message [ordinalContext ordinal])).written := by
  apply not_isErrorRecord_warning
  show ascii "severity" ∉ [ascii "entry_ordinal"]
  decide

theorem not_isErrorRecord_encodingUnavailable (encoding : Bytes) :
    ¬ IsErrorRecord (Emission.diagnostic (encodingUnavailable ordinal encoding)).written := by
  apply not_isErrorRecord_warning
  show ascii "severity" ∉ [ascii "entry_ordinal", ascii "encoding"]
  decide

theorem error_of_length (size : Nat) :
    (∃ value ∈ lengthDiagnostics ordinal size, IsErrorRecord (Emission.diagnostic value).written) ↔
      size > intMax := by
  unfold lengthDiagnostics
  split_ifs with h
  · exact iff_of_true ⟨_, List.mem_singleton_self _, isErrorRecord_lengthUnsupported ordinal size⟩ h
  · exact iff_of_false (fun ⟨_, hmem, _⟩ => List.not_mem_nil hmem) h

theorem error_of_stripped :
    (∃ value ∈ (entryStripped icu answers ordinal).2, IsErrorRecord (Emission.diagnostic value).written) ↔
      ∃ utf8, sourceUtf8 icu answers.raw (safeCString answers.encoding) = some utf8 ∧
        utf8.contains zeroByte = false ∧ utf8.length > intMax := by
  unfold entryStripped entryNormalized
  cases sourceUtf8 icu answers.raw (safeCString answers.encoding) with
  | none => simp
  | some utf8 =>
    dsimp only
    simp only [Option.some.injEq, exists_eq_left']
    split_ifs with hnul hlong hvalid
    · refine iff_of_false ?_ fun h => Bool.false_ne_true (h.1.symm.trans hnul)
      rintro ⟨value, hmem, herror⟩
      rw [List.mem_singleton.mp hmem] at herror
      exact not_isErrorRecord_ordinal ordinal _ _ herror
    · exact iff_of_true ⟨_, List.mem_singleton_self _, isErrorRecord_lengthUnsupported ordinal _⟩
        ⟨Bool.eq_false_iff.mpr hnul, hlong⟩
    · exact iff_of_false (fun ⟨_, hmem, _⟩ => List.not_mem_nil hmem) fun h => hlong h.2
    · refine iff_of_false ?_ fun h => hlong h.2
      rintro ⟨value, hmem, herror⟩
      rw [List.mem_singleton.mp hmem] at herror
      exact not_isErrorRecord_ordinal ordinal _ _ herror

theorem exists_error_append {records more : List (Bytes × JsonFields)} :
    (∃ record ∈ records ++ more, IsErrorRecord record) ↔
      (∃ record ∈ records, IsErrorRecord record) ∨ ∃ record ∈ more, IsErrorRecord record := by
  simp only [List.mem_append, or_and_right, exists_or]

theorem exists_error_diagnostics {values : List Diagnostic} :
    (∃ record ∈ (values.map Emission.diagnostic).map Emission.written, IsErrorRecord record) ↔
      ∃ value ∈ values, IsErrorRecord (Emission.diagnostic value).written := by
  simp only [List.map_map, List.mem_map, Function.comp_apply, exists_exists_and_eq_and]

/-- The diagnostics of an entry that is read hold an error exactly for a text that is too long. -/
theorem error_of_entryEmissions :
    (∃ record ∈ (entryEmissions icu answers ordinal).map Emission.written, IsErrorRecord record) ↔
      answers.raw.length > intMax ∨
        ∃ utf8, sourceUtf8 icu answers.raw (safeCString answers.encoding) = some utf8 ∧
          utf8.contains zeroByte = false ∧ utf8.length > intMax := by
  have hentry : ¬ ∃ record ∈ [Emission.entry (entryRecord icu answers ordinal)].map Emission.written,
      IsErrorRecord record := by
    rintro ⟨record, hmem, herror⟩
    rw [List.map_singleton, List.mem_singleton] at hmem
    rw [hmem] at herror
    exact absurd herror.1 (by decide : Purpose.entry.type ≠ Purpose.diagnostic.type)
  have hencoding : ¬ ∃ value ∈ (if (entryNormalized icu answers).isNone then
      [encodingUnavailable ordinal (safeCString answers.encoding)] else []),
      IsErrorRecord (Emission.diagnostic value).written := by
    rintro ⟨value, hmem, herror⟩
    split_ifs at hmem
    · rw [List.mem_singleton.mp hmem] at herror
      exact not_isErrorRecord_encodingUnavailable ordinal _ herror
    · exact List.not_mem_nil hmem
  unfold entryEmissions entryDiagnostics
  rw [List.map_append, exists_error_append, or_iff_left hentry, List.map_append, List.map_append,
    List.map_append, List.map_append, exists_error_append, exists_error_append, exists_error_diagnostics,
    exists_error_diagnostics, exists_error_diagnostics, or_iff_left hencoding, error_of_length,
    error_of_stripped]

end Reported

/-! ## A round -/

section Round
variable (icu : Icu) {Position : Type} {engine : Engine Position} {declared : Nat}
variable {s : Extraction} {position : Position} {previousKey : Bytes} {previousIndex : Int}

theorem not_stalls (hlimit : engine.limit = some declared) (answers : EntryAnswers) (entries : Nat)
    (previousKey : Bytes) (previousIndex : Int) :
    stalls engine answers entries previousKey previousIndex = false := by
  unfold stalls
  rw [hlimit]
  rfl

theorem full_iff (hlimit : engine.limit = some declared) (entries : Nat) :
    engine.full entries = true ↔ declared ≤ entries := by
  unfold Engine.full
  rw [hlimit]
  exact decide_eq_true_iff

variable (fuel : Nat) (hlimit : engine.limit = some declared) (hs : s.session.Open)
variable (hread : (engine.answers position).readError = zeroByte)
include hlimit hs hread

/-- Behind the last declared record the loop ends. -/
theorem traverse_full (previousKey : Bytes) (previousIndex : Int) (hfull : declared ≤ s.entries + 1) :
    Runs (traverse noFaults icu engine (fuel + 1) position previousKey previousIndex) s (some true)
      (entryEmissions icu (engine.answers position) s.entries) := by
  obtain ⟨t, ht, hran, heq⟩ := traverse_read icu fuel hs (not_stalls hlimit _ _ _ _) hread
  refine ⟨t, ?_, hran⟩
  rw [heq, run_bind]
  unfold navigate
  rw [run_bind, run_get]
  dsimp only
  rw [if_pos ((full_iff hlimit _).mpr (by rw [hran.entries, countP_entryEmissions]; exact hfull)), run_pure]
  rfl

variable (hmore : s.entries + 1 < declared)
include hmore

/-- An increment that fails in front of the declared count is reported. -/
theorem traverse_stopped (herror : (engine.increment position).1 ≠ zeroByte) :
    ∃ value, IsErrorRecord (Emission.diagnostic value).written ∧
      Runs (traverse noFaults icu engine (fuel + 1) position previousKey previousIndex) s (some false)
        (entryEmissions icu (engine.answers position) s.entries ++ [.diagnostic value]) := by
  obtain ⟨t, ht, hran, heq⟩ := traverse_read icu fuel hs (not_stalls hlimit _ _ _ _) hread
  have hentries : t.entries = s.entries + 1 := by rw [hran.entries, countP_entryEmissions]
  have hfull : ¬ engine.full t.entries = true := by
    rw [full_iff hlimit, hentries]
    omega
  obtain ⟨value, hvalue, u, hu, hreport⟩ : ∃ value, IsErrorRecord (Emission.diagnostic value).written ∧
      Runs (navigate noFaults engine position) t (.ended false) [.diagnostic value] := by
    by_cases hbounds : (engine.increment position).1 = keyErrOutOfBounds
    · refine ⟨_, isErrorRecord_entryCountMismatch declared t.entries, ?_⟩
      unfold navigate navigationError
      apply Runs.get
      dsimp only
      rw [if_neg hfull]
      apply Runs.silent ht (runs_mayThrow t)
      intro u hu _
      rw [if_neg herror, if_pos hbounds, hlimit]
      dsimp only
      rw [if_pos (by omega)]
      apply Runs.bind hu (runs_report hu (plain_entryCountMismatch declared t.entries))
      intro v _ _
      exact Runs.pure _ v
    · refine ⟨_, isErrorRecord_navigationFailed t.entries (engine.increment position).1, ?_⟩
      unfold navigate navigationError
      apply Runs.get
      dsimp only
      rw [if_neg hfull]
      apply Runs.silent ht (runs_mayThrow t)
      intro u hu _
      rw [if_neg herror, if_neg hbounds]
      apply Runs.bind hu (runs_report hu (plain_navigationFailed t.entries _))
      intro v _ _
      exact Runs.pure _ v
  refine ⟨value, hvalue, u, ?_, hran.trans hreport⟩
  rw [heq, run_bind, hu]
  rfl

theorem traverse_advanced (herror : (engine.increment position).1 = zeroByte) :
    ∃ t : Extraction, t.session.Open ∧ s.Ran t (entryEmissions icu (engine.answers position) s.entries) ∧
      traverse noFaults icu engine (fuel + 1) position previousKey previousIndex s =
        traverse noFaults icu engine fuel (engine.increment position).2
          (safeCString (engine.answers position).keyText) (engine.answers position).index t := by
  obtain ⟨t, ht, hran, heq⟩ := traverse_read icu fuel hs (not_stalls hlimit _ _ _ _) hread
  obtain ⟨u, hu, htick⟩ := runs_mayThrow t
  have hfull : ¬ engine.full t.entries = true := by
    rw [full_iff hlimit, hran.entries, countP_entryEmissions]
    omega
  refine ⟨u, htick.session.opened ht, ?_, ?_⟩
  · have hrun := hran.trans htick
    rwa [List.append_nil] at hrun
  · rw [heq, run_bind]
    unfold navigate
    rw [run_bind, run_get]
    dsimp only
    rw [if_neg hfull, run_bind, hu]
    dsimp only
    rw [if_pos herror, run_pure]

end Round

/-! ## The loop -/

section Loop
variable (icu : Icu) {Position : Type} {engine : Engine Position} {declared : Nat}

/-- From `s` to `t` the entries are numbered by the counter; short of `expected` there is an error. -/
structure Numbered (s t : Extraction) (records : List (Bytes × JsonFields)) (expected : Nat) : Prop where
  emitted : t.session.emitted = s.session.emitted ++ records
  le : s.entries ≤ t.entries
  ordinals : entryOrdinals records =
    (List.range' s.entries (t.entries - s.entries)).map fun n => some (decimal n)
  reported : t.entries = expected ∨ ∃ record ∈ records, IsErrorRecord record

theorem Extraction.Ran.numbered_one {s t : Extraction} {answers : EntryAnswers} {emitted : List Emission}
    (h : s.Ran t (entryEmissions icu answers s.entries ++ emitted)) (hnone : emitted.countP Emission.isEntry = 0)
    (hordinals : entryOrdinals (emitted.map Emission.written) = []) {expected : Nat}
    (hreported : s.entries + 1 = expected ∨ ∃ record ∈ emitted.map Emission.written, IsErrorRecord record) :
    Numbered s t ((entryEmissions icu answers s.entries ++ emitted).map Emission.written) expected := by
  have hentries : t.entries = s.entries + 1 := by
    rw [h.entries, List.countP_append, countP_entryEmissions, hnone]
  refine ⟨h.session.emitted, by omega, ?_, ?_⟩
  · rw [List.map_append, entryOrdinals_append, entryOrdinals_entryEmissions, hordinals, hentries,
      Nat.add_sub_cancel_left]
    rfl
  · rw [hentries, List.map_append]
    exact hreported.imp_right fun herror => exists_error_append.mpr (.inr herror)

theorem Numbered.cons {s t u : Extraction} {answers : EntryAnswers} {records : List (Bytes × JsonFields)}
    {expected : Nat} (h : Numbered t u records expected) (hran : s.Ran t (entryEmissions icu answers s.entries)) :
    Numbered s u ((entryEmissions icu answers s.entries).map Emission.written ++ records) expected := by
  have hentries : t.entries = s.entries + 1 := by rw [hran.entries, countP_entryEmissions]
  have hle := h.le
  refine ⟨?_, by omega, ?_, ?_⟩
  · rw [h.emitted, hran.session.emitted, List.append_assoc]
  · rw [entryOrdinals_append, entryOrdinals_entryEmissions, h.ordinals, hentries,
      show u.entries - s.entries = (u.entries - (s.entries + 1)) + 1 by omega, List.range'_succ]
    rfl
  · exact h.reported.imp_right fun herror => exists_error_append.mpr (.inr herror)

/-- The loop ends within the declared number of rounds, at least one, and numbers its records. -/
theorem traverse_dictionary (hlimit : engine.limit = some declared) (rounds : Nat) :
    ∀ (position : Position) (previousKey : Bytes) (previousIndex : Int) {s : Extraction}, s.session.Open →
      s.entries < max declared 1 → max declared 1 ≤ s.entries + rounds →
      ∃ success t records,
        traverse noFaults icu engine rounds position previousKey previousIndex s = .ok (some success) t ∧
        Numbered s t records (max declared 1) := by
  induction rounds with
  | zero => intro _ _ _ _ _ hlt hle; omega
  | succ rounds ih =>
    intro position previousKey previousIndex s hs hlt hle
    by_cases hread : (engine.answers position).readError = zeroByte
    · by_cases hfull : declared ≤ s.entries + 1
      · obtain ⟨t, ht, hran⟩ := traverse_full icu rounds hlimit hs hread previousKey previousIndex hfull
        rw [← List.append_nil (entryEmissions icu _ _)] at hran
        exact ⟨true, t, _, ht, hran.numbered_one icu rfl rfl (.inl (by omega))⟩
      · have hmore : s.entries + 1 < declared := by omega
        by_cases herror : (engine.increment position).1 = zeroByte
        · obtain ⟨t, ht, hran, heq⟩ := traverse_advanced icu rounds hlimit hs hread hmore herror
          have hentries : t.entries = s.entries + 1 := by rw [hran.entries, countP_entryEmissions]
          obtain ⟨success, u, records, hu, hnumbered⟩ := ih _ _ _ ht (by omega) (by omega)
          exact ⟨success, u, _, heq.trans hu, hnumbered.cons icu hran⟩
        · obtain ⟨value, hvalue, t, ht, hran⟩ :=
            traverse_stopped icu rounds hlimit hs hread hmore herror
          exact ⟨false, t, _, ht, hran.numbered_one icu rfl (entryOrdinals_diagnostics [value])
            (.inr ⟨_, List.mem_singleton_self _, hvalue⟩)⟩
    · obtain ⟨t, ht, hran⟩ := traverse_failed icu rounds hs (not_stalls hlimit _ _ _ _) hread
      have hentries : t.entries = s.entries := hran.entries
      refine ⟨false, t, _, ht, hran.session.emitted, by omega, ?_, .inr ⟨_, List.mem_singleton_self _, ?_⟩⟩
      · rw [hentries, Nat.sub_self]
        exact entryOrdinals_diagnostics [_]
      · exact isErrorRecord_entryReadFailed _ _ _

end Loop

/-! ## The declared count -/

section Declared
variable (icu : Icu) {Position : Type} (engine : Engine Position) (declared : Nat)

/-- `emit_entries` returns once it may take that many rounds, its entry records are numbered from zero and
are as many as it counts, and without an error diagnostic they are as many as declared. -/
def Accounts (s : Extraction) : Prop :=
  ∀ fuel ≥ max declared 1, ∃ success t records,
    emitEntries noFaults icu engine fuel s = .ok (some success) t ∧
    t.session.emitted = s.session.emitted ++ records ∧
    entryOrdinals records = (List.range t.entries).map (fun n => some (decimal n)) ∧
    ((∀ record ∈ records, ¬ IsErrorRecord record) → t.entries = declared)

/-- Positioning fails exactly where nothing is declared, or the one entry read there has an error. -/
def Accountable : Prop :=
  if declared = 0 then engine.top.1 ≠ zeroByte ∨ Unreadable icu (engine.answers engine.top.2)
  else engine.top.1 = zeroByte

variable {icu engine declared} {s : Extraction}

/-- Positioning that fails emits a warning alone. -/
theorem emitEntries_empty (icu : Icu) (hs : s.session.Open) (htop : engine.top.1 ≠ zeroByte) (fuel : Nat) :
    Runs (emitEntries noFaults icu engine fuel) s (some true) [.diagnostic moduleEmpty] := by
  unfold emitEntries
  apply Runs.silent hs (runs_mayThrow s)
  intro t ht _
  rw [if_pos htop]
  apply Runs.bind ht (runs_report ht plain_moduleEmpty)
  intro u _ _
  exact Runs.pure _ u

/-- What a run that returned must have done, one run being like any other. -/
theorem not_accounts {success : Bool} {t : Extraction} {records : List (Bytes × JsonFields)}
    (hrun : emitEntries noFaults icu engine (max declared 1) s = .ok (some success) t)
    (hemitted : t.session.emitted = s.session.emitted ++ records)
    (herror : ¬ ∃ record ∈ records, IsErrorRecord record) (hentries : t.entries ≠ declared) :
    ¬ Accounts icu engine declared s := by
  intro h
  obtain ⟨success', t', records', hrun', hemitted', -, hcount⟩ := h _ (Nat.le_refl _)
  obtain ⟨-, rfl⟩ := EStateM.Result.ok.inj (hrun.symm.trans hrun')
  obtain rfl := List.append_cancel_left (hemitted.symm.trans hemitted')
  exact hentries (hcount fun record hmem hrecord => herror ⟨record, hmem, hrecord⟩)

/-- The loop starts with no entry behind it. -/
theorem emitEntries_dictionary (icu : Icu) (hs : s.session.Open) (hentries : s.entries = 0)
    (htop : engine.top.1 = zeroByte) :
    ∃ t : Extraction, t.session.Open ∧ t.entries = 0 ∧ t.session.emitted = s.session.emitted ∧
      ∀ fuel, emitEntries noFaults icu engine fuel s =
        traverse noFaults icu engine fuel engine.top.2 [] longMin t := by
  obtain ⟨t, ht, htick, -, hstart⟩ := emitEntries_positioned icu hs hentries htop
  refine ⟨t, ht, htick.entries.trans hentries, ?_, hstart⟩
  have hemitted := htick.session.emitted
  rwa [List.map_nil, List.append_nil] at hemitted

theorem accounts_of_numbered (hs : s.session.Open) (hentries : s.entries = 0)
    (hlimit : engine.limit = some declared) (htop : engine.top.1 = zeroByte) (hdeclared : declared ≠ 0) :
    Accounts icu engine declared s := by
  intro fuel hfuel
  obtain ⟨t, ht, hzero, hemitted, hstart⟩ := emitEntries_dictionary icu hs hentries htop
  obtain ⟨success, u, records, hu, hnumbered⟩ := traverse_dictionary icu hlimit fuel engine.top.2 []
    longMin ht (by omega) (by omega)
  refine ⟨success, u, records, (hstart fuel).trans hu, ?_, ?_, fun hnone => ?_⟩
  · rw [hnumbered.emitted, hemitted]
  · rw [hnumbered.ordinals, hzero, Nat.sub_zero, List.range_eq_range']
  · have hcount := hnumbered.reported.resolve_right fun ⟨record, hmem, h⟩ => hnone record hmem h
    omega

/-- Where nothing is declared the loop still emits one entry. -/
theorem accounts_zero_iff (hs : s.session.Open) (hentries : s.entries = 0) (hlimit : engine.limit = some 0)
    (htop : engine.top.1 = zeroByte) :
    Accounts icu engine 0 s ↔ Unreadable icu (engine.answers engine.top.2) := by
  obtain ⟨t, ht, hzero, hemitted, hstart⟩ := emitEntries_dictionary icu hs hentries htop
  by_cases hread : (engine.answers engine.top.2).readError = zeroByte
  · have hround := fun fuel => traverse_full icu fuel hlimit ht hread [] longMin (Nat.zero_le _)
    rw [hzero] at hround
    by_cases herror : ∃ record ∈ (entryEmissions icu (engine.answers engine.top.2) 0).map Emission.written,
        IsErrorRecord record
    · refine iff_of_true (fun fuel hfuel => ?_) (.inr ((error_of_entryEmissions icu _ 0).mp herror))
      obtain ⟨n, rfl⟩ := Nat.exists_eq_succ_of_ne_zero (by omega : fuel ≠ 0)
      obtain ⟨u, hu, hran⟩ := hround n
      have hcount : u.entries = 1 := by rw [hran.entries, countP_entryEmissions, hzero]
      refine ⟨true, u, (entryEmissions icu (engine.answers engine.top.2) 0).map Emission.written,
        (hstart _).trans hu, ?_, ?_, fun hnone => ?_⟩
      · rw [hran.session.emitted, hemitted]
      · rw [entryOrdinals_entryEmissions, hcount]
        rfl
      · obtain ⟨record, hmem, hrecord⟩ := herror
        exact absurd hrecord (hnone record hmem)
    · obtain ⟨u, hu, hran⟩ := hround 0
      have hcount : u.entries = 1 := by rw [hran.entries, countP_entryEmissions, hzero]
      refine iff_of_false (not_accounts ((hstart _).trans hu) (hemitted ▸ hran.session.emitted) herror
        (by omega)) fun h => ?_
      exact herror ((error_of_entryEmissions icu _ 0).mpr (h.resolve_left (not_not_intro hread)))
  · refine iff_of_true (fun fuel hfuel => ?_) (.inl hread)
    obtain ⟨n, rfl⟩ := Nat.exists_eq_succ_of_ne_zero (by omega : fuel ≠ 0)
    obtain ⟨u, hu, hran⟩ := traverse_failed icu n ht
      (not_stalls hlimit _ _ [] longMin) hread
    have hcount : u.entries = 0 := hran.entries.trans hzero
    refine ⟨false, u, _, (hstart _).trans hu, hemitted ▸ hran.session.emitted, ?_, fun _ => hcount⟩
    · rw [hcount]
      exact entryOrdinals_diagnostics [_]

variable (icu engine declared)

/-- The entry records are the declared ones, or an error is reported, exactly when positioning fails where
nothing is declared and nowhere else, but for the one entry of an empty dictionary that reports an error. -/
theorem accounts_iff (hkind : engine.dictionaryEntries = some (declared : Int)) (hs : s.session.Open)
    (hentries : s.entries = 0) : Accounts icu engine declared s ↔ Accountable icu engine declared := by
  have hlimit : engine.limit = some declared := by
    unfold Engine.limit
    rw [hkind]
  unfold Accountable
  by_cases htop : engine.top.1 = zeroByte
  · split_ifs with hdeclared
    · subst hdeclared
      rw [accounts_zero_iff hs hentries hlimit htop]
      exact (or_iff_right (not_not_intro htop)).symm
    · exact iff_of_true (accounts_of_numbered hs hentries hlimit htop hdeclared) htop
  · have hnone : ¬ ∃ record ∈ [Emission.diagnostic moduleEmpty].map Emission.written, IsErrorRecord record := by
      rintro ⟨record, hmem, herror⟩
      rw [List.map_singleton, List.mem_singleton] at hmem
      exact not_isErrorRecord_moduleEmpty (hmem ▸ herror)
    split_ifs with hdeclared
    · refine iff_of_true (fun fuel _ => ?_) (.inl htop)
      obtain ⟨u, hu, hran⟩ := emitEntries_empty icu hs htop fuel
      have hcount : u.entries = 0 := hran.entries.trans hentries
      refine ⟨true, u, _, hu, hran.session.emitted, ?_, fun _ => by rw [hcount, hdeclared]⟩
      rw [hcount]
      exact entryOrdinals_diagnostics [_]
    · refine iff_of_false ?_ htop
      obtain ⟨u, hu, hran⟩ := emitEntries_empty icu hs htop (max declared 1)
      have hcount : u.entries = 0 := hran.entries.trans hentries
      exact not_accounts hu hran.session.emitted hnone (by rw [hcount]; exact Ne.symm hdeclared)

end Declared

/-! ### Two dictionaries -/

/-- A dictionary of one entry. -/
def oneEntry : Engine Unit := { fixedIndex with dictionaryEntries := some 1 }

theorem accounts_iff_oneEntry : Accounts noIcu oneEntry 1 (Extraction.start openStream) ↔
    Accountable noIcu oneEntry 1 :=
  accounts_iff noIcu oneEntry 1 rfl openStream_open rfl

/-- Three entries are declared, and the first cannot be positioned. -/
def unpositioned : Engine Unit where
  dictionaryEntries := some 3
  top := (keyErrOutOfBounds, ())
  answers := fun _ => plainEntry "a"
  increment := fun _ => (zeroByte, ())

theorem unpositioned_not_accounts : ¬ Accounts noIcu unpositioned 3 (Extraction.start openStream) := by
  obtain ⟨u, hu, hran⟩ := emitEntries_empty noIcu openStream_open
    (by decide : unpositioned.top.1 ≠ zeroByte) 3
  have hcount : u.entries = 0 := hran.entries
  refine not_accounts hu hran.session.emitted ?_ (by rw [hcount]; decide)
  rintro ⟨record, hmem, herror⟩
  rw [List.map_singleton, List.mem_singleton] at hmem
  exact not_isErrorRecord_moduleEmpty (hmem ▸ herror)

end GetBibleSword.Core
