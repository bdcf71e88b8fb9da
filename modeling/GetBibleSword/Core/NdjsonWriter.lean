import GetBibleSword.Core.ByteValue
import GetBibleSword.Lib.OrdMap
import GetBibleSword.Lib.Program

/-!
# The NDJSON writer

* `OStream` : the stream written to; it may take only so many octets and may fail to flush;
* `NdjsonWriter`, `emit`, `finish` : the class of `src/ndjson_writer.cpp`; the 64-bit counters are
  natural numbers;
* `emit_ok`, `finish_ok` : what a call that returned has done;
* `Wrote w start records` : the writer after `records`; `wrote_emitAll` : every run of calls that
  returned keeps it.
-/

namespace GetBibleSword.Core
open GetBibleSword.Lib

/-- A C++ exception. -/
inductive CppException where
  | logicError (what : String)
  | invalidArgument (what : String)
  | runtimeError (what : String)
  | other (what : Bytes)
deriving DecidableEq

/-! ## The stream -/

structure OStream where
  written : Bytes
  /-- How many more octets are taken before writing fails; `none` is no limit. -/
  room : Option Nat
  flushes : Bool
  good : Bool
deriving DecidableEq

namespace OStream

/-- `write`: a stream that has failed takes nothing more. -/
def write (output : OStream) (data : Bytes) : OStream :=
  if output.good then
    match output.room with
    | none => { output with written := output.written ++ data }
    | some n =>
      if data.length ≤ n then
        { output with written := output.written ++ data, room := some (n - data.length) }
      else { output with written := output.written ++ data.take n, room := some 0, good := false }
  else output

def flush (output : OStream) : OStream :=
  if output.flushes then output else { output with good := false }

/-- Every write is accepted. -/
structure Accepting (output : OStream) : Prop where
  room : output.room = none
  flushes : output.flushes = true
  good : output.good = true

theorem write_written {output : OStream} {data : Bytes} (h : (output.write data).good = true) :
    (output.write data).written = output.written ++ data := by
  unfold write at h ⊢
  split_ifs at h ⊢ with hg
  · split at h
    · rfl
    · split_ifs at h ⊢
      rfl
  · exact absurd h hg

theorem flush_written (output : OStream) : output.flush.written = output.written := by
  unfold flush
  split_ifs <;> rfl

theorem Accepting.write {output : OStream} (h : output.Accepting) (data : Bytes) :
    (output.write data).Accepting := by
  rw [OStream.write, if_pos h.good, h.room]
  exact ⟨rfl, h.flushes, h.good⟩

theorem Accepting.flush {output : OStream} (h : output.Accepting) : output.flush = output :=
  if_pos h.flushes

end OStream

/-! ## The class -/

/-- `std::map<std::string, std::string>`: names in octet order. -/
abbrev JsonFields := OrdMap Bytes Bytes

def lf : Byte := octet 0x0a

/-- One `name:value` of an object. -/
def memberJson (e : Bytes × Bytes) : Bytes := jsonString e.1 ++ ascii ":" ++ e.2

/-- The loop over a map, a comma in front of all but the first. -/
def objectJson (fields : List (Bytes × Bytes)) : Bytes :=
  ascii "\x7b" ++ (List.intercalate (ascii ",") (fields.map memberJson)) ++ ascii "\x7d"

/-- The loop over a list, a comma in front of all but the first. -/
def arrayJson (parts : List Bytes) : Bytes :=
  ascii "[" ++ List.intercalate (ascii ",") parts ++ ascii "]"

/-- `std::to_string` of a signed number. -/
def integer (i : Int) : Bytes := (Json.intText i).map octet

structure NdjsonWriter where
  output : OStream
  streamHash : Sha256
  sequence : Nat
  counts : OrdMap Bytes Nat
  finished : Bool

def NdjsonWriter.new (output : OStream) : NdjsonWriter where
  output := output
  streamHash := Sha256.new
  sequence := 0
  counts := OrdMap.empty
  finished := false

/-- The line `emit` writes at a sequence number. -/
def recordLine (sequence : Nat) (type : Bytes) (fields : JsonFields) : Bytes :=
  let fields := fields.emplaceAll [(ascii "sequence", decimal sequence), (ascii "type", jsonString type)]
  objectJson fields.entries ++ [lf]

def emit (type : Bytes) (fields : JsonFields) : EStateM CppException NdjsonWriter Unit := do
  let writer ← get
  if writer.finished then
    throw (.logicError "cannot emit a record after the footer")
  else if fields.contains (ascii "sequence") ∨ fields.contains (ascii "type") then
    throw (.invalidArgument "record fields may not replace sequence or type")
  else
    let line := recordLine writer.sequence type fields
    modify fun w => { w with output := w.output.write line }
    if (← get).output.good then
      modify fun w => { w with
        streamHash := w.streamHash.update line
        counts := w.counts.alter type fun count => count.getD 0 + 1
        sequence := w.sequence + 1 }
    else throw (.runtimeError "failed to write NDJSON output")

/-- The line `finish` writes. -/
def footerLine (writer : NdjsonWriter) (success : Bool) (fields : JsonFields) : Bytes :=
  let counts := objectJson (writer.counts.entries.map fun e => (e.1, decimal e.2))
  let fields := fields.emplaceAll [
    (ascii "counts", counts),
    (ascii "sequence", decimal writer.sequence),
    (ascii "stream_sha256", jsonString writer.streamHash.hexDigest),
    (ascii "success", if success then ascii "true" else ascii "false"),
    (ascii "type", ascii "\"footer\"")]
  objectJson fields.entries ++ [lf]

def finish (success : Bool) (fields : JsonFields) : EStateM CppException NdjsonWriter Unit := do
  let writer ← get
  if writer.finished then
    throw (.logicError "NDJSON footer already emitted")
  else
    let line := footerLine writer success fields
    modify fun w => { w with output := (w.output.write line).flush }
    if (← get).output.good then
      modify fun w => { w with sequence := w.sequence + 1, finished := true }
    else throw (.runtimeError "failed to write NDJSON footer")

/-! ## What a call does -/

/-- The writer after a record. -/
def NdjsonWriter.emitted (w : NdjsonWriter) (type : Bytes) (fields : JsonFields) : NdjsonWriter where
  output := w.output.write (recordLine w.sequence type fields)
  streamHash := w.streamHash.update (recordLine w.sequence type fields)
  sequence := w.sequence + 1
  counts := w.counts.alter type fun count => count.getD 0 + 1
  finished := w.finished

/-- The writer after the footer. -/
def NdjsonWriter.footed (w : NdjsonWriter) (success : Bool) (fields : JsonFields) : NdjsonWriter :=
  { w with
    output := (w.output.write (footerLine w success fields)).flush
    sequence := w.sequence + 1
    finished := true }

theorem emit_run (type : Bytes) (fields : JsonFields) (w : NdjsonWriter) :
    emit type fields w =
      if w.finished then .error (.logicError "cannot emit a record after the footer") w
      else if fields.contains (ascii "sequence") ∨ fields.contains (ascii "type") then
        .error (.invalidArgument "record fields may not replace sequence or type") w
      else if (w.output.write (recordLine w.sequence type fields)).good then
        .ok () (w.emitted type fields)
      else
        .error (.runtimeError "failed to write NDJSON output")
          { w with output := w.output.write (recordLine w.sequence type fields) } := by
  simp only [emit, run_bind, run_get]
  split_ifs with h1 h2 h3
  · rfl
  · rfl
  · simp only [run_bind, run_modify, run_get, h3]
    rfl
  · simp only [run_bind, run_modify, run_get, h3]
    rfl

theorem finish_run (success : Bool) (fields : JsonFields) (w : NdjsonWriter) :
    finish success fields w =
      if w.finished then .error (.logicError "NDJSON footer already emitted") w
      else if ((w.output.write (footerLine w success fields)).flush).good then
        .ok () (w.footed success fields)
      else
        .error (.runtimeError "failed to write NDJSON footer")
          { w with output := (w.output.write (footerLine w success fields)).flush } := by
  simp only [finish, run_bind, run_get]
  split_ifs with h1 h2
  · rfl
  · simp only [run_bind, run_modify, run_get, h2]
    rfl
  · simp only [run_bind, run_modify, run_get, h2]
    rfl

/-- A call of `emit` that returned. -/
theorem emit_ok {type : Bytes} {fields : JsonFields} {w w' : NdjsonWriter} :
    emit type fields w = .ok () w' ↔ w.finished = false ∧ fields.contains (ascii "sequence") = false ∧
      fields.contains (ascii "type") = false ∧
      (w.output.write (recordLine w.sequence type fields)).good = true ∧
      w' = w.emitted type fields := by
  rw [emit_run]
  split_ifs with h1 h2 h3
  · simp [h1]
  · constructor
    · nofun
    rintro ⟨-, h, h', -⟩
    simp [h, h'] at h2
  · rw [not_or, Bool.not_eq_true, Bool.not_eq_true] at h2
    simp [h1, h2, h3, eq_comm]
  · simp [h3]

/-- A call of `finish` that returned. -/
theorem finish_ok {success : Bool} {fields : JsonFields} {w w' : NdjsonWriter} :
    finish success fields w = .ok () w' ↔ w.finished = false ∧
      ((w.output.write (footerLine w success fields)).flush).good = true ∧
      w' = w.footed success fields := by
  rw [finish_run]
  split_ifs with h1 h2
  · simp [h1]
  · simp [h1, h2, eq_comm]
  · simp [h2]

/-! ## Runs -/

/-- Calls of `emit`, one after the other. -/
def emitAll : List (Bytes × JsonFields) → EStateM CppException NdjsonWriter Unit
  | [] => pure ()
  | record :: records => do
    emit record.1 record.2
    emitAll records

/-- The lines of the records, numbered from zero. -/
def recordLines (records : List (Bytes × JsonFields)) : List Bytes :=
  records.mapIdx fun sequence record => recordLine sequence record.1 record.2

/-- The writer after `records`, on a stream that held `start`. -/
structure Wrote (w : NdjsonWriter) (start : Bytes) (records : List (Bytes × JsonFields)) : Prop where
  written : w.output.written = start ++ (recordLines records).flatten
  streamHash : Absorbed w.streamHash (recordLines records).flatten
  sequence : w.sequence = records.length
  counts : ∀ type, w.counts.find type =
    if (records.map Prod.fst).count type = 0 then none else some ((records.map Prod.fst).count type)
  finished : w.finished = false
  free : ∀ record ∈ records, record.2.contains (ascii "sequence") = false ∧
    record.2.contains (ascii "type") = false

theorem wrote_new (output : OStream) : Wrote (.new output) output.written [] where
  written := by simp [NdjsonWriter.new, recordLines]
  streamHash := absorbed_new
  sequence := rfl
  counts := fun _ => rfl
  finished := rfl
  free := by simp

/-- One call that returned adds its record. -/
theorem wrote_emit {w w' : NdjsonWriter} {start : Bytes} {records : List (Bytes × JsonFields)}
    {type : Bytes} {fields : JsonFields} (hw : Wrote w start records)
    (h : emit type fields w = .ok () w') : Wrote w' start (records ++ [(type, fields)]) := by
  obtain ⟨hopen, hsequence, htype, hgood, rfl⟩ := emit_ok.mp h
  have hlines : (recordLines (records ++ [(type, fields)])).flatten =
      (recordLines records).flatten ++ recordLine w.sequence type fields := by
    rw [recordLines, List.mapIdx_concat, ← recordLines, List.flatten_append, hw.sequence]
    simp
  exact {
    written := by
      rw [hlines, ← List.append_assoc, ← hw.written]
      exact OStream.write_written hgood
    streamHash := by
      rw [hlines]
      exact absorbed_update hw.streamHash (recordLine w.sequence type fields)
    sequence := by simp [NdjsonWriter.emitted, hw.sequence]
    counts := by
      intro t
      rw [NdjsonWriter.emitted, OrdMap.find_alter, hw.counts, hw.counts, List.map_append,
        List.count_append, List.map_singleton]
      by_cases ht : t = type
      · rw [ht, if_pos rfl, List.count_singleton_self, if_neg (Nat.succ_ne_zero _)]
        by_cases h0 : (records.map Prod.fst).count type = 0
        · rw [if_pos h0, h0]
          rfl
        · rw [if_neg h0]
          rfl
      · have hnone : List.count t [type] = 0 := List.count_eq_zero.mpr (by simpa using ht)
        rw [if_neg ht, hnone, Nat.add_zero]
    finished := hopen
    free := by
      intro r hr
      rcases List.mem_append.mp hr with hr | hr
      · exact hw.free r hr
      · obtain rfl := List.mem_singleton.mp hr
        exact ⟨hsequence, htype⟩ }

/-- A run of calls that returned adds its records. -/
theorem wrote_emitAll (more : List (Bytes × JsonFields)) : ∀ {w w' : NdjsonWriter} {start : Bytes}
    {records : List (Bytes × JsonFields)}, Wrote w start records →
    emitAll more w = .ok () w' → Wrote w' start (records ++ more) := by
  induction more with
  | nil =>
    intro w w' start records hw h
    cases h
    rwa [List.append_nil]
  | cons record more ih =>
    intro w w' start records hw h
    rw [emitAll, bind_ok] at h
    obtain ⟨_, v, hv, hrest⟩ := h
    have := ih (wrote_emit hw hv) hrest
    rwa [List.append_assoc] at this

/-! ## Lines -/

/-- A JSON string holds no LF, whatever its octets. -/
theorem lf_notMem_jsonString (utf8 : Bytes) : lf ∉ jsonString utf8 := by
  have hbyte : ∀ byte : Byte, lf ∉ jsonEscapeByte byte := by decide +kernel
  have hquote : lf ∉ ascii "\"" := by decide
  rw [jsonString, List.mem_append, List.mem_append, not_or, not_or]
  refine ⟨⟨hquote, fun h => ?_⟩, hquote⟩
  obtain ⟨byte, -, hb⟩ := List.mem_flatMap.mp h
  exact hbyte byte hb

theorem lf_notMem_decimal (n : Nat) : lf ∉ decimal n := by
  intro h
  obtain ⟨c, hc, hlf⟩ := List.mem_map.mp h
  have hdigit := decimalText_digit n c hc
  simp only [isDigit, Bool.and_eq_true, decide_eq_true_eq] at hdigit
  have hval := congrArg Fin.val hlf
  rw [octet_val] at hval
  have : lf.val = 0x0a := rfl
  omega

theorem mem_intercalate {α : Type} {sep : List α} {x : α} {parts : List (List α)}
    (h : x ∈ List.intercalate sep parts) : x ∈ sep ∨ ∃ part ∈ parts, x ∈ part := by
  induction parts with
  | nil => cases h
  | cons a rest ih =>
    cases rest with
    | nil => exact .inr ⟨a, by simp, by simpa [List.intercalate] using h⟩
    | cons b rest =>
      rw [List.intercalate_cons_cons, List.mem_append, List.mem_append] at h
      rcases h with (h | h) | h
      · exact .inr ⟨a, by simp, h⟩
      · exact .inl h
      · rcases ih h with h | ⟨part, hp, h⟩
        · exact .inl h
        · exact .inr ⟨part, List.mem_cons_of_mem _ hp, h⟩

theorem lf_notMem_objectJson {fields : List (Bytes × Bytes)} (h : ∀ e ∈ fields, lf ∉ e.2) :
    lf ∉ objectJson fields := by
  have hopen : lf ∉ ascii "\x7b" ∧ lf ∉ ascii "," ∧ lf ∉ ascii ":" ∧ lf ∉ ascii "\x7d" := by decide
  rw [objectJson, List.mem_append, List.mem_append, not_or, not_or]
  refine ⟨⟨hopen.1, fun hmem => ?_⟩, hopen.2.2.2⟩
  rcases mem_intercalate hmem with hsep | ⟨part, hpart, hlf⟩
  · exact hopen.2.1 hsep
  · obtain ⟨e, he, rfl⟩ := List.mem_map.mp hpart
    rw [memberJson, List.mem_append, List.mem_append] at hlf
    rcases hlf with (hlf | hlf) | hlf
    · exact lf_notMem_jsonString _ hlf
    · exact hopen.2.2.1 hlf
    · exact h e he hlf

end GetBibleSword.Core
