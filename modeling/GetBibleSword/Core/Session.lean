import GetBibleSword.Core.NdjsonWriter

/-!
# Runs that may throw anywhere

* `Session` : the writer, a clock, and the records on the stream so far (a history variable);
* `Site`, `Faults` : the places where a `std::exception` can be raised, and which of them raise one;
* `emitRecord` : `NdjsonWriter::emit`, with an allocation that fails before or after the write;
* `Ran s t records` : what a run without faults leaves; `Ran.wrote` : the lines are on the stream.
-/

namespace GetBibleSword.Core
open GetBibleSword.Lib

/-! ## State and faults -/

structure Session where
  writer : NdjsonWriter
  clock : Nat
  emitted : List (Bytes × JsonFields)

/-- What a record is emitted for. -/
inductive Purpose where
  | header
  | module
  | configSource
  | configEntry
  | entry
  /-- By `emit_diagnostic` of `src/sword_extractor.cpp`, behind its counter. -/
  | diagnostic
  | artifactBegin
  | artifactChunk
  | artifactEnd
  /-- By `emit_diagnostic` of `src/artifact.cpp`, in the closing loop of `emit_artifacts`. -/
  | artifactDiagnostic (index : Nat)
deriving DecidableEq

def Purpose.type : Purpose → Bytes
  | header => ascii "header"
  | module => ascii "module"
  | configSource => ascii "config_source"
  | configEntry => ascii "config_entry"
  | entry => ascii "entry"
  | diagnostic => ascii "diagnostic"
  | artifactBegin => ascii "artifact_begin"
  | artifactChunk => ascii "artifact_chunk"
  | artifactEnd => ascii "artifact_end"
  | artifactDiagnostic _ => ascii "diagnostic"

inductive Site where
  /-- The fields and the line of a record are built. -/
  | compose (purpose : Purpose)
  /-- `++counts_[std::string(type)]`, behind the write. -/
  | book (purpose : Purpose)
  /-- Any other allocation of `emit_artifacts`. -/
  | artifacts
  /-- Any other step of `extract_module` and what else it calls. -/
  | extraction
deriving DecidableEq

/-- What a step raises, given the state before it. -/
abbrev Faults := Site → Session → Option CppException

/-- Nothing is raised. -/
def noFaults : Faults := fun _ _ => none

abbrev Action := EStateM CppException Session

section Actions
variable (faults : Faults)

def mayThrow (site : Site) : Action Unit := do
  let s ← get
  set { s with clock := s.clock + 1 }
  match faults site s with
  | some e => throw e
  | none => pure ()

/-- Behind the write: the line is out and hashed, and then counted. -/
def bookRecord (purpose : Purpose) (fields : JsonFields) (written : NdjsonWriter) : Action Unit := do
  let s ← get
  let emitted := s.emitted ++ [(purpose.type, fields)]
  match faults (.book purpose) s with
  | some e => do
    -- neither `counts_` nor `sequence_` has moved
    set { s with
      writer := { s.writer with output := written.output, streamHash := written.streamHash }
      emitted := emitted }
    throw e
  | none => set { s with writer := written, emitted := emitted }

def emitRecord (purpose : Purpose) (fields : JsonFields) : Action Unit := do
  mayThrow faults (.compose purpose)
  let s ← get
  match emit purpose.type fields s.writer with
  | .ok _ written => bookRecord faults purpose fields written
  | .error e writer => do
    set { s with writer := writer }
    throw e

end Actions

/-- A list of braces `{{"name", value}, ...}` of `JsonFields`. -/
def fieldsOf (fields : List (Bytes × Bytes)) : JsonFields := OrdMap.empty.emplaceAll fields

/-! ## Runs without faults -/

/-- The names `emit` writes itself are not among the fields. -/
def Free (fields : JsonFields) : Prop :=
  fields.contains (ascii "sequence") = false ∧ fields.contains (ascii "type") = false

/-- The writer after more records. -/
def NdjsonWriter.emittedAll (w : NdjsonWriter) (records : List (Bytes × JsonFields)) : NdjsonWriter :=
  records.foldl (fun w record => w.emitted record.1 record.2) w

namespace Session

/-- The writer takes records. -/
structure Open (s : Session) : Prop where
  accepting : s.writer.output.Accepting
  unfinished : s.writer.finished = false

/-- From `s` to `t` exactly `records` have been emitted. -/
structure Ran (s t : Session) (records : List (Bytes × JsonFields)) : Prop where
  emitted : t.emitted = s.emitted ++ records
  writer : t.writer = s.writer.emittedAll records
  free : ∀ record ∈ records, Free record.2

variable {s t u : Session} {records more : List (Bytes × JsonFields)}

theorem Ran.refl (s : Session) : Ran s s [] where
  emitted := (List.append_nil _).symm
  writer := rfl
  free := by simp

theorem Ran.tick (s : Session) : Ran s { s with clock := s.clock + 1 } [] where
  emitted := (List.append_nil _).symm
  writer := rfl
  free := by simp

theorem Ran.trans (h : Ran s t records) (h' : Ran t u more) : Ran s u (records ++ more) where
  emitted := by rw [h'.emitted, h.emitted, List.append_assoc]
  writer := by rw [h'.writer, h.writer, NdjsonWriter.emittedAll, NdjsonWriter.emittedAll,
    NdjsonWriter.emittedAll, List.foldl_append]
  free := by
    intro record hrecord
    exact (List.mem_append.mp hrecord).elim (h.free record) (h'.free record)

theorem Open.emittedAll (records : List (Bytes × JsonFields)) : ∀ {w : NdjsonWriter},
    w.output.Accepting → w.finished = false →
    (w.emittedAll records).output.Accepting ∧ (w.emittedAll records).finished = false := by
  induction records with
  | nil => exact fun h h' => ⟨h, h'⟩
  | cons record records ih =>
    intro w h h'
    apply ih
    · exact h.write (recordLine w.sequence record.1 record.2)
    · exact h'

theorem Ran.opened (h : Ran s t records) (hs : s.Open) : t.Open := by
  have := Open.emittedAll records hs.accepting hs.unfinished
  rw [← h.writer] at this
  exact ⟨this.1, this.2⟩

end Session

open Session

/-- From `s` the program returns `a`, and `records` is what it emits. -/
def Does {α : Type} (x : Action α) (s : Session) (a : α) (records : List (Bytes × JsonFields)) : Prop :=
  ∃ t, x s = .ok a t ∧ Ran s t records

theorem Does.pure {α : Type} (a : α) (s : Session) : Does (pure a) s a [] := ⟨s, rfl, .refl s⟩

theorem Does.bind {α β : Type} {x : Action α} {f : α → Action β} {s : Session} {a : α} {b : β}
    {records more : List (Bytes × JsonFields)} (hs : s.Open) (h : Does x s a records)
    (hf : ∀ t : Session, t.Open → Does (f a) t b more) : Does (x >>= f) s b (records ++ more) := by
  obtain ⟨t, hx, hran⟩ := h
  obtain ⟨u, hu, hmore⟩ := hf t (hran.opened hs)
  refine ⟨u, ?_, hran.trans hmore⟩
  rw [run_bind, hx]
  exact hu

/-- A first part that emits nothing. -/
theorem Does.silent {α β : Type} {x : Action α} {f : α → Action β} {s : Session} {a : α} {b : β}
    {more : List (Bytes × JsonFields)} (hs : s.Open) (h : Does x s a [])
    (hf : ∀ t : Session, t.Open → Does (f a) t b more) : Does (x >>= f) s b more :=
  Does.bind hs h hf

theorem mayThrow_noFaults (site : Site) (s : Session) : Does (mayThrow noFaults site) s () [] :=
  ⟨_, rfl, .tick s⟩

/-- Without faults a record is emitted on a stream that takes it. -/
theorem emitRecord_noFaults {s : Session} (hs : s.Open) (purpose : Purpose) {fields : JsonFields}
    (hfree : Free fields) : Does (emitRecord noFaults purpose fields) s () [(purpose.type, fields)] := by
  apply Does.bind hs (mayThrow_noFaults (.compose purpose) s)
  intro t ht
  have hgood := (ht.accepting.write (recordLine t.writer.sequence purpose.type fields)).good
  have hemit : emit purpose.type fields t.writer = .ok () (t.writer.emitted purpose.type fields) :=
    emit_ok.mpr ⟨ht.unfinished, hfree.1, hfree.2, hgood, rfl⟩
  refine ⟨⟨t.writer.emitted purpose.type fields, t.clock, t.emitted ++ [(purpose.type, fields)]⟩, ?_, ?_⟩
  · rw [run_bind, run_get]
    dsimp only
    rw [hemit]
    rfl
  · exact {
      emitted := rfl
      writer := rfl
      free := by simpa using hfree }

/-! ## Runs that may throw -/

theorem mayThrow_outcome (faults : Faults) (site : Site) (s : Session) :
    match mayThrow faults site s with
    | .ok _ t => s.Ran t []
    | .error _ t => faults ≠ noFaults ∧ t.emitted = s.emitted := by
  unfold mayThrow
  rw [run_bind, run_get]
  dsimp only
  rw [run_bind, run_set]
  dsimp only
  cases hfault : faults site s with
  | none => exact .tick s
  | some e =>
    refine ⟨?_, rfl⟩
    rintro rfl
    cases hfault

/-- A call that throws has emitted its record or nothing. -/
theorem emitRecord_outcome (faults : Faults) (purpose : Purpose) (fields : JsonFields) (s : Session) :
    match emitRecord faults purpose fields s with
    | .ok _ t => s.Ran t [(purpose.type, fields)]
    | .error _ t => ¬ (faults = noFaults ∧ s.Open ∧ Free fields) ∧
        ∃ done, done <+: [(purpose.type, fields)] ∧ t.emitted = s.emitted ++ done := by
  have hcalm : faults = noFaults ∧ s.Open ∧ Free fields →
      ∃ t, emitRecord faults purpose fields s = .ok () t := by
    rintro ⟨rfl, hs, hfree⟩
    obtain ⟨t, ht, -⟩ := emitRecord_noFaults hs purpose hfree
    exact ⟨t, ht⟩
  have hthrows : ∀ e t, emitRecord faults purpose fields s = .error e t →
      ¬ (faults = noFaults ∧ s.Open ∧ Free fields) := by
    intro e t he hsafe
    obtain ⟨u, hu⟩ := hcalm hsafe
    rw [he] at hu
    cases hu
  have hstart := mayThrow_outcome faults (.compose purpose) s
  cases hrun : emitRecord faults purpose fields s with
  | error e t =>
    refine ⟨hthrows e t hrun, ?_⟩
    unfold emitRecord at hrun
    rw [run_bind] at hrun
    cases hcompose : mayThrow faults (.compose purpose) s with
    | error e' u =>
      rw [hcompose] at hrun hstart
      cases hrun
      exact ⟨[], List.nil_prefix, by rw [hstart.2, List.append_nil]⟩
    | ok _ u =>
      rw [hcompose] at hrun hstart
      dsimp only at hrun hstart
      rw [run_bind, run_get] at hrun
      have hemitted := hstart.emitted
      rw [List.append_nil] at hemitted
      dsimp only at hrun
      cases hemit : emit purpose.type fields u.writer with
      | error e' writer =>
        rw [hemit] at hrun
        cases hrun
        exact ⟨[], List.nil_prefix, by rw [List.append_nil]; exact hemitted⟩
      | ok _ written =>
        rw [hemit] at hrun
        unfold bookRecord at hrun
        dsimp only at hrun
        rw [run_bind, run_get] at hrun
        dsimp only at hrun
        cases hfault : faults (.book purpose) u with
        | none =>
          rw [hfault] at hrun
          cases hrun
        | some e' =>
          rw [hfault] at hrun
          cases hrun
          exact ⟨_, List.prefix_rfl, by rw [hemitted]⟩
  | ok value t =>
    dsimp only
    unfold emitRecord at hrun
    rw [bind_ok] at hrun
    obtain ⟨_, u, hcompose, hrun⟩ := hrun
    rw [hcompose] at hstart
    rw [run_bind, run_get] at hrun
    dsimp only at hrun
    cases hemit : emit purpose.type fields u.writer with
    | error e' writer =>
      rw [hemit] at hrun
      cases hrun
    | ok _ written =>
      rw [hemit] at hrun
      unfold bookRecord at hrun
      dsimp only at hrun
      rw [run_bind, run_get] at hrun
      dsimp only at hrun
      cases hfault : faults (.book purpose) u with
      | some e' =>
        rw [hfault] at hrun
        cases hrun
      | none =>
        rw [hfault] at hrun
        cases hrun
        obtain ⟨-, hsequence, htype, -, rfl⟩ := emit_ok.mp hemit
        refine @Ran.trans _ _ _ [] _ hstart ?_
        exact { emitted := rfl, writer := rfl, free := by simpa using ⟨hsequence, htype⟩ }

end GetBibleSword.Core
