import GetBibleSword.Core.Annotation
import GetBibleSword.Core.Artifact
import GetBibleSword.Core.SourceEncoding

/-!
# Emitting entries

`emit_entries` of `src/sword_extractor.cpp` and what it calls. The engine is a parameter: what SWORD
answers at each of its positions, and where `increment` leads.

* `Extraction`, `Run` : the writer with the counters of an extraction; `emitDiagnostic`;
* `EntryAnswers`, `Engine` : the answers of SWORD;
* `emitEntry`, `navigate`, `traverse`, `emitEntries` : the function and its loop;
* `Runs x s a emitted` : what a run without faults emits and counts; `emitEntry_noFaults`.
-/

namespace GetBibleSword.Core
open GetBibleSword.Lib

/-! ## Counters -/

structure DiagnosticCounts where
  info : Nat
  warning : Nat
  error : Nat
deriving DecidableEq

def DiagnosticCounts.count (counts : DiagnosticCounts) (severity : Bytes) : DiagnosticCounts :=
  if severity = ascii "error" then { counts with error := counts.error + 1 }
  else if severity = ascii "warning" then { counts with warning := counts.warning + 1 }
  else { counts with info := counts.info + 1 }

/-- The local variables of `extract_module` that its callees count in. -/
structure Extraction where
  session : Session
  diagnostics : DiagnosticCounts
  entries : Nat
  artifacts : Nat
  artifactBytes : Nat

/-- The variables at the start of `extract_module`. -/
def Extraction.start (output : OStream) : Extraction := ⟨⟨.new output, 0, []⟩, ⟨0, 0, 0⟩, 0, 0, 0⟩

abbrev Run := EStateM CppException Extraction

def onSession {α : Type} (x : Action α) : Run α := fun s =>
  match x s.session with
  | .ok a session => .ok a { s with session := session }
  | .error e session => .error e { s with session := session }

section Diagnostics
variable (faults : Faults)

/-- `emit_diagnostic`: counted first. -/
def emitDiagnostic (value : Diagnostic) : Run Unit := do
  modify fun s => { s with diagnostics := s.diagnostics.count value.severity }
  onSession (emitRecord faults .diagnostic (diagnosticFields value))

/-- A call of `emit_diagnostic`, its arguments built first. -/
def report (value : Diagnostic) : Run Unit := do
  onSession (mayThrow faults .extraction)
  emitDiagnostic faults value

end Diagnostics

/-- A diagnostic of severity `warning`. -/
def warningDiagnostic (code message : String) (context : List (Bytes × Bytes)) : Diagnostic where
  severity := ascii "warning"
  code := ascii code
  message := ascii message
  context := fieldsOf context

/-! ## What SWORD answers -/

/-- A `const char*`. -/
abbrev CString := Option Bytes

def zeroByte : Byte := octet 0

/-- `safe_c_string`: up to the terminator. -/
def safeCString (value : CString) : Bytes := (value.getD []).takeWhile fun c => c ≠ zeroByte

/-- `AttributeTypeList`, in its traversal order. -/
abbrev AttributeTypeList := List (Bytes × List (Bytes × List (Bytes × Bytes)))

structure VerseScope where
  testament : Int
  book : Int
  chapter : Int
  verse : Int
  index : Int
  suffix : Int
  bookAbbrev : CString
  bookName : CString
  osisRef : CString
  versificationSystem : CString

/-- The key of the module: a `VerseKey` or another. -/
inductive KeyScope where
  | swordKey (index : Int)
  | verseKey (key : VerseScope)

/-- The answers about one entry, in the order of the calls. -/
structure EntryAnswers where
  keyText : CString
  index : Int
  raw : Bytes
  /-- What `popError` returns behind the read. -/
  readError : Byte
  encoding : CString
  rendered : Bytes
  attributes : AttributeTypeList
  stripped : CString
  normalizedStripped : CString
  scope : KeyScope

structure Engine (Position : Type) where
  /-- `getEntryCount`, where the module is a dictionary. -/
  dictionaryEntries : Option Int
  /-- `setPosition(TOP)`, with what `popError` returns. -/
  top : Byte × Position
  answers : Position → EntryAnswers
  /-- `increment`, with what `popError` returns. -/
  increment : Position → Byte × Position

/-! ## Texts -/

def attributeValueJson (value : Bytes × Bytes) : Bytes :=
  ascii "\x7b\"name\":" ++ byteValueJson value.1 ++ ascii ",\"value\":" ++ byteValueJson value.2 ++
    ascii "\x7d"

def attributeListJson (list : Bytes × List (Bytes × Bytes)) : Bytes :=
  ascii "\x7b\"name\":" ++ byteValueJson list.1 ++ ascii ",\"values\":" ++
    arrayJson (list.2.map attributeValueJson) ++ ascii "\x7d"

def attributeTypeJson (type : Bytes × List (Bytes × List (Bytes × Bytes))) : Bytes :=
  ascii "\x7b\"lists\":" ++ arrayJson (type.2.map attributeListJson) ++ ascii ",\"name\":" ++
    byteValueJson type.1 ++ ascii "\x7d"

def officialAttributesJson (attributes : AttributeTypeList) : Bytes :=
  arrayJson (attributes.map attributeTypeJson)

/-- `value ? byte_value_json(*value) : "null"`. -/
def nullableJson (value : Option Bytes) : Bytes :=
  match value with
  | some bytes => byteValueJson bytes
  | none => ascii "null"

def introScope (key : VerseScope) : Bytes :=
  if key.book = 0 then if key.testament = 0 then ascii "module" else ascii "testament"
  else if key.chapter = 0 then ascii "book"
  else if key.verse = 0 then ascii "chapter"
  else ascii "verse"

def scopeFields : KeyScope → List (Bytes × Bytes)
  | .swordKey index => [(ascii "index", integer index), (ascii "type", ascii "\"sword_key\"")]
  | .verseKey key =>
    [(ascii "book", integer key.book),
      (ascii "book_abbreviation",
        nullableJson (if key.book = 0 then none else some (safeCString key.bookAbbrev))),
      (ascii "book_name", nullableJson (if key.book = 0 then none else some (safeCString key.bookName))),
      (ascii "chapter", integer key.chapter),
      (ascii "index", integer key.index),
      (ascii "intro_scope", jsonString (introScope key)),
      (ascii "osis_reference", byteValueJson (safeCString key.osisRef)),
      (ascii "suffix", integer key.suffix),
      (ascii "testament", integer key.testament),
      (ascii "type", ascii "\"verse_key\""),
      (ascii "verse", integer key.verse),
      (ascii "versification", byteValueJson (safeCString key.versificationSystem))]

def scopeJson (scope : KeyScope) : Bytes := objectJson (fieldsOf (scopeFields scope)).entries

/-! ## Diagnostics -/

/-- The member `entry_ordinal` of a context. -/
def ordinalContext (ordinal : Nat) : Bytes × Bytes := (ascii "entry_ordinal", decimal ordinal)

def moduleEmpty : Diagnostic :=
  warningDiagnostic "module.empty" "SWORD could not position the module at its first entry." []

def navigationStalled (ordinal : Nat) (key : Bytes) : Diagnostic :=
  errorDiagnostic "module.navigation.stalled" "SWORD traversal did not advance to a new key."
    [ordinalContext ordinal, (ascii "key", byteValueJson key)]

def entryReadFailed (ordinal : Nat) (key : Bytes) (error : Byte) : Diagnostic :=
  errorDiagnostic "entry.read.failed" "SWORD reported an error while reading the logical entry."
    [ordinalContext ordinal, (ascii "key", byteValueJson key), (ascii "sword_error", decimal error.val)]

def lengthUnsupported (ordinal size : Nat) : Diagnostic :=
  errorDiagnostic "entry.length.unsupported"
    "The raw entry is larger than the SWORD rendering API can address."
    [ordinalContext ordinal, (ascii "size", decimal size)]

def encodingUnavailable (ordinal : Nat) (encoding : Bytes) : Diagnostic :=
  warningDiagnostic "entry.encoding.unavailable"
    "The declared source encoding is unsupported or its bytes are invalid; raw bytes are retained."
    [ordinalContext ordinal, (ascii "encoding", byteValueJson encoding)]

def strippedInvalid (ordinal : Nat) : Diagnostic :=
  warningDiagnostic "entry.normalized_stripped.invalid_utf8"
    "SWORD's strip filter produced invalid UTF-8; normalized source markup and legacy projections are retained."
    [ordinalContext ordinal]

def embeddedNul (ordinal : Nat) : Diagnostic :=
  warningDiagnostic "entry.encoding.embedded_nul"
    "UTF-8 source contains an embedded NUL; SWORD's string-based strip projection is unavailable."
    [ordinalContext ordinal]

def entryCountMismatch (declared emitted : Nat) : Diagnostic :=
  errorDiagnostic "module.entry_count.mismatch"
    "SWORD reached the end of a dictionary before its declared entry count."
    [(ascii "declared_entries", decimal declared), (ascii "emitted_entries", decimal emitted)]

def navigationFailed (ordinal : Nat) (error : Byte) : Diagnostic :=
  errorDiagnostic "module.navigation.failed"
    "SWORD reported an unexpected error while advancing the module key."
    [ordinalContext ordinal, (ascii "sword_error", decimal error.val)]

/-! ## The function -/

/-- `KEYERR_OUTOFBOUNDS` of SWORD. -/
def keyErrOutOfBounds : Byte := octet 1

/-- `std::numeric_limits<long>::min()`. -/
def longMin : Int := -2 ^ 63

/-- What the end of a round finds. -/
inductive Navigation (Position : Type) where
  | ended (success : Bool)
  | moved (position : Position)

section Emission
variable (faults : Faults) (icu : Icu)

/-- `sword_length`: whether the size is an `int`. -/
def swordLength (size ordinal : Nat) : Run Bool := do
  if size > intMax then
    report faults (lengthUnsupported ordinal size)
    return false
  else return true

/-- `if (!normalized)`. -/
def checkNormalized (normalized : Option Bytes) (encoding : Bytes) (ordinal : Nat) : Run Unit :=
  if normalized.isNone then report faults (encodingUnavailable ordinal encoding) else pure ()

/-- The check of what the strip filter made of the normalized text. -/
def checkStripped (stripped : Bytes) (ordinal : Nat) : Run (Option Bytes) := do
  if isValidUtf8 stripped then return some stripped
  else
    report faults (strippedInvalid ordinal)
    return none

/-- The branches on `normalized` that set `normalized_stripped`. -/
def normalizedStripped (answers : EntryAnswers) (normalized : Option Bytes) (ordinal : Nat) :
    Run (Option Bytes) := do
  match normalized with
  | none => return none
  | some utf8 =>
    if utf8.contains zeroByte then
      report faults (embeddedNul ordinal)
      return none
    else if ← swordLength faults utf8.length ordinal then
      onSession (mayThrow faults .extraction)
      checkStripped faults (safeCString answers.normalizedStripped) ordinal
    else return none

/-- The fields of the record. -/
def entryFields (answers : EntryAnswers) (ordinal : Nat) (normalized stripped : Option Bytes)
    (projections : Bool) : List (Bytes × Bytes) :=
  [(ascii "annotation_segments", annotationSegmentsJson answers.raw),
    (ascii "key", byteValueJson (safeCString answers.keyText)),
    (ascii "normalized_raw", nullableJson normalized),
    (ascii "normalized_stripped", nullableJson stripped),
    (ascii "official_attributes",
      if projections then officialAttributesJson answers.attributes else ascii "[]"),
    (ascii "ordinal", decimal ordinal),
    (ascii "projections_available", if projections then ascii "true" else ascii "false"),
    (ascii "raw", byteValueJson answers.raw),
    (ascii "rendered_default", nullableJson (if projections then some answers.rendered else none)),
    (ascii "scope", scopeJson answers.scope),
    (ascii "stripped",
      nullableJson (if projections then some (safeCString answers.stripped) else none))]

/-- A round from the read on; false when SWORD reports an error. -/
def emitEntry (answers : EntryAnswers) : Run Bool := do
  let ordinal := (← get).entries
  if answers.readError ≠ zeroByte then
    report faults (entryReadFailed ordinal (safeCString answers.keyText) answers.readError)
    return false
  else
    let projections ← swordLength faults answers.raw.length ordinal
    let encoding := safeCString answers.encoding
    let normalized := sourceUtf8 icu answers.raw encoding
    checkNormalized faults normalized encoding ordinal
    onSession (mayThrow faults .extraction)
    let stripped ← normalizedStripped faults answers normalized ordinal
    onSession (emitRecord faults .entry (fieldsOf (entryFields answers ordinal normalized stripped projections)))
    modify fun s => { s with entries := s.entries + 1 }
    return true

section Traversal
variable {Position : Type} (engine : Engine Position)

/-- `dictionary_entry_limit`. -/
def Engine.limit : Option Nat :=
  match engine.dictionaryEntries with
  | some (.ofNat n) => some n
  | _ => none

/-- `dictionary_entry_limit && entry_count >= *dictionary_entry_limit`. -/
def Engine.full (entries : Nat) : Bool := engine.limit.any (· ≤ entries)

/-- `if (navigation_error != 0)`. -/
def navigationError (error : Byte) (entries : Nat) : Run (Navigation Position) := do
  if error = keyErrOutOfBounds then
    match engine.limit with
    | some declared =>
      if entries < declared then
        report faults (entryCountMismatch declared entries)
        return .ended false
      else return .ended true
    | none => return .ended true
  else
    report faults (navigationFailed entries error)
    return .ended false

/-- A round behind its record. -/
def navigate (position : Position) : Run (Navigation Position) := do
  let entries := (← get).entries
  if engine.full entries then return .ended true
  else
    onSession (mayThrow faults .extraction)
    if (engine.increment position).1 = zeroByte then return .moved (engine.increment position).2
    else navigationError faults engine (engine.increment position).1 entries

/-- `!dictionary_entry_limit && entry_count != 0U && key == previous_key && index == previous_index`. -/
def stalls (answers : EntryAnswers) (entries : Nat) (previousKey : Bytes) (previousIndex : Int) : Bool :=
  engine.limit.isNone && entries ≠ 0 && safeCString answers.keyText = previousKey &&
    answers.index = previousIndex

/-- `while (true)`; nothing when `fuel` rounds do not end it. -/
def traverse : Nat → Position → Bytes → Int → Run (Option Bool)
  | 0, _, _, _ => pure none
  | fuel + 1, position, previousKey, previousIndex => do
    onSession (mayThrow faults .extraction)
    let entries := (← get).entries
    let answers := engine.answers position
    if stalls engine answers entries previousKey previousIndex then
      report faults (navigationStalled entries (safeCString answers.keyText))
      return some false
    else
      let read ← emitEntry faults icu answers
      if read then
        match ← navigate faults engine position with
        | .ended success => return some success
        | .moved next => traverse fuel next (safeCString answers.keyText) answers.index
      else return some false

/-- `emit_entries`, with at most `fuel` rounds of its loop. -/
def emitEntries (fuel : Nat) : Run (Option Bool) := do
  onSession (mayThrow faults .extraction)
  if engine.top.1 ≠ zeroByte then
    report faults moduleEmpty
    return some true
  else traverse faults icu engine fuel engine.top.2 [] longMin

end Traversal
end Emission

/-! ## Runs without faults -/

/-- A record, with what it counts for. -/
inductive Emission where
  | diagnostic (value : Diagnostic)
  | entry (fields : List (Bytes × Bytes))
  | record (purpose : Purpose) (fields : JsonFields)

namespace Emission

def written : Emission → Bytes × JsonFields
  | diagnostic value => (Purpose.diagnostic.type, diagnosticFields value)
  | entry fields => (Purpose.entry.type, fieldsOf fields)
  | record purpose fields => (purpose.type, fields)

def isEntry : Emission → Bool
  | entry _ => true
  | _ => false

def severities : Emission → List Bytes
  | diagnostic value => [value.severity]
  | _ => []

end Emission

def DiagnosticCounts.countAll (counts : DiagnosticCounts) (severities : List Bytes) : DiagnosticCounts :=
  severities.foldl DiagnosticCounts.count counts

/-- From `s` to `t` exactly `emitted` have been written and counted. -/
structure Extraction.Ran (s t : Extraction) (emitted : List Emission) : Prop where
  session : s.session.Ran t.session (emitted.map Emission.written)
  diagnostics : t.diagnostics = s.diagnostics.countAll (emitted.flatMap Emission.severities)
  entries : t.entries = s.entries + emitted.countP Emission.isEntry
  artifacts : t.artifacts = s.artifacts
  artifactBytes : t.artifactBytes = s.artifactBytes

section Ran
variable {s t u : Extraction} {emitted more : List Emission}

theorem Extraction.Ran.refl (s : Extraction) : s.Ran s [] :=
  ⟨.refl s.session, rfl, rfl, rfl, rfl⟩

theorem Extraction.Ran.trans (h : s.Ran t emitted) (h' : t.Ran u more) : s.Ran u (emitted ++ more) where
  session := by rw [List.map_append]; exact h.session.trans h'.session
  diagnostics := by
    rw [h'.diagnostics, h.diagnostics, DiagnosticCounts.countAll, DiagnosticCounts.countAll,
      DiagnosticCounts.countAll, List.flatMap_append, List.foldl_append]
  entries := by rw [h'.entries, h.entries, List.countP_append, Nat.add_assoc]
  artifacts := h'.artifacts.trans h.artifacts
  artifactBytes := h'.artifactBytes.trans h.artifactBytes

/-- From `s` the program returns `a`, and `emitted` is what it emits. -/
def Runs {α : Type} (x : Run α) (s : Extraction) (a : α) (emitted : List Emission) : Prop :=
  ∃ t, x s = .ok a t ∧ s.Ran t emitted

variable {α β : Type} {a : α} {b : β}

theorem Runs.pure (a : α) (s : Extraction) : Runs (pure a) s a [] := ⟨s, rfl, .refl s⟩

theorem Runs.bind {x : Run α} {f : α → Run β} (hs : s.session.Open) (h : Runs x s a emitted)
    (hf : ∀ t : Extraction, t.session.Open → s.Ran t emitted → Runs (f a) t b more) :
    Runs (x >>= f) s b (emitted ++ more) := by
  obtain ⟨t, hx, hran⟩ := h
  obtain ⟨u, hu, hmore⟩ := hf t (hran.session.opened hs) hran
  refine ⟨u, ?_, hran.trans hmore⟩
  rw [run_bind, hx]
  exact hu

/-- A first part that emits nothing. -/
theorem Runs.silent {x : Run α} {f : α → Run β} (hs : s.session.Open) (h : Runs x s a [])
    (hf : ∀ t : Extraction, t.session.Open → s.Ran t [] → Runs (f a) t b more) :
    Runs (x >>= f) s b more := Runs.bind hs h hf

theorem Runs.get {f : Extraction → Run β} (hf : Runs (f s) s b more) : Runs (get >>= f) s b more := by
  obtain ⟨t, ht, hran⟩ := hf
  exact ⟨t, ht, hran⟩

/-- As `Runs`; unless `safe` the program may throw, a first part of `emitted` behind it. -/
def Follows {α : Type} (safe : Prop) (x : Run α) (s : Extraction) (a : α) (emitted : List Emission) : Prop :=
  match x s with
  | .ok b t => b = a ∧ s.Ran t emitted
  | .error _ t => ¬ safe ∧ ∃ done, done <+: emitted ∧
      t.session.emitted = s.session.emitted ++ done.map Emission.written

/-- Where a run is to be safe, nothing raises and the stream takes every write. -/
def Calm (faults : Faults) (safe : Prop) (s : Extraction) : Prop :=
  safe → faults = noFaults ∧ s.session.Open

theorem Extraction.Ran.calm {faults : Faults} {safe : Prop} (h : s.Ran t emitted) (hs : Calm faults safe s) :
    Calm faults safe t := by
  intro hsafe
  obtain ⟨hfaults, hopen⟩ := hs hsafe
  exact ⟨hfaults, h.session.opened hopen⟩

variable {safe : Prop} {faults : Faults}

theorem Follows.pure (a : α) (s : Extraction) : Follows safe (pure a) s a [] := ⟨rfl, .refl s⟩

theorem Follows.bind {x : Run α} {f : α → Run β} (h : Follows safe x s a emitted)
    (hf : ∀ t : Extraction, s.Ran t emitted → Follows safe (f a) t b more) :
    Follows safe (x >>= f) s b (emitted ++ more) := by
  unfold Follows at h ⊢
  rw [run_bind]
  cases hx : x s with
  | error e t =>
    rw [hx] at h
    obtain ⟨hsafe, done, hdone, hemitted⟩ := h
    exact ⟨hsafe, done, hdone.trans (List.prefix_append emitted more), hemitted⟩
  | ok a' t =>
    rw [hx] at h
    obtain ⟨rfl, hran⟩ := h
    have hrest := hf t hran
    unfold Follows at hrest
    dsimp only
    cases hy : f a' t with
    | ok b' u =>
      rw [hy] at hrest
      exact ⟨hrest.1, hran.trans hrest.2⟩
    | error e u =>
      rw [hy] at hrest
      obtain ⟨hsafe, done, hdone, hemitted⟩ := hrest
      refine ⟨hsafe, emitted ++ done, (List.prefix_append_right_inj emitted).mpr hdone, ?_⟩
      rw [hemitted, hran.session.emitted, List.map_append, List.append_assoc]

/-- A first part that emits nothing. -/
theorem Follows.silent {x : Run α} {f : α → Run β} (h : Follows safe x s a [])
    (hf : ∀ t : Extraction, s.Ran t [] → Follows safe (f a) t b more) :
    Follows safe (x >>= f) s b more := Follows.bind h hf

theorem Follows.get {f : Extraction → Run β} (hf : Follows safe (f s) s b more) :
    Follows safe (get >>= f) s b more := hf

theorem Follows.runs {x : Run α} (h : Follows True x s a emitted) : Runs x s a emitted := by
  unfold Follows at h
  cases hx : x s with
  | ok b t =>
    rw [hx] at h
    obtain ⟨rfl, hran⟩ := h
    exact ⟨t, hx, hran⟩
  | error e t =>
    rw [hx] at h
    exact absurd trivial h.1

theorem follows_mayThrow (hs : Calm faults safe s) :
    Follows safe (onSession (mayThrow faults .extraction)) s () [] := by
  have h := mayThrow_outcome faults .extraction s.session
  unfold Follows onSession
  cases hrun : mayThrow faults .extraction s.session with
  | ok _ session =>
    rw [hrun] at h
    exact ⟨rfl, h, rfl, rfl, rfl, rfl⟩
  | error e session =>
    rw [hrun] at h
    refine ⟨fun hsafe => h.1 (hs hsafe).1, [], List.nil_prefix, ?_⟩
    rw [List.map_nil, List.append_nil]
    exact h.2

/-- A record: the writer takes it, or the program throws, the record out or not. -/
theorem onSession_emitRecord (emission : Emission) {purpose : Purpose} {fields : JsonFields}
    (hwritten : emission.written = (purpose.type, fields)) (hfree : Free fields) (hs : Calm faults safe s) :
    match onSession (emitRecord faults purpose fields) s with
    | .ok _ t => ∃ session, t = { s with session := session } ∧
        s.session.Ran session [emission.written]
    | .error _ t => ¬ safe ∧ ∃ done, done <+: [emission] ∧
        t.session.emitted = s.session.emitted ++ done.map Emission.written := by
  have h := emitRecord_outcome faults purpose fields s.session
  unfold onSession
  cases hrun : emitRecord faults purpose fields s.session with
  | ok _ session =>
    rw [hrun] at h
    exact ⟨session, rfl, by rw [hwritten]; exact h⟩
  | error e session =>
    rw [hrun] at h
    obtain ⟨hsafe, done, hdone, hemitted⟩ := h
    refine ⟨fun hcalm => hsafe ⟨(hs hcalm).1, (hs hcalm).2, hfree⟩, ?_⟩
    rcases List.prefix_cons_iff.mp hdone with rfl | ⟨rest, rfl, hrest⟩
    · exact ⟨[], List.nil_prefix, hemitted⟩
    · rw [List.prefix_nil.mp hrest] at hemitted
      refine ⟨[emission], List.prefix_rfl, ?_⟩
      rw [List.map_singleton, hwritten]
      exact hemitted

theorem follows_report (hs : Calm faults safe s) {value : Diagnostic} (hplain : value.Plain) :
    Follows safe (report faults value) s () [.diagnostic value] := by
  apply Follows.silent (follows_mayThrow hs)
  intro t ht
  have h := @onSession_emitRecord { t with diagnostics := t.diagnostics.count value.severity } safe faults
    (.diagnostic value) .diagnostic _ rfl hplain (ht.calm hs)
  unfold Follows emitDiagnostic
  rw [run_bind, run_modify]
  dsimp only
  split at h
  · rename_i u hrun
    obtain ⟨session, rfl, hran⟩ := h
    rw [hrun]
    exact ⟨rfl, hran, rfl, rfl, rfl, rfl⟩
  · rename_i e u hrun
    rw [hrun]
    exact h

/-- The record of an entry, and its count. -/
theorem follows_entry (hs : Calm faults safe s) {fields : List (Bytes × Bytes)}
    (hfree : Free (fieldsOf fields)) :
    Follows safe (do
      onSession (emitRecord faults .entry (fieldsOf fields))
      modify fun s => { s with entries := s.entries + 1 }
      return true) s true [.entry fields] := by
  have h := @onSession_emitRecord s safe faults (.entry fields) .entry _ rfl hfree hs
  unfold Follows
  rw [run_bind]
  split at h
  · rename_i u hrun
    obtain ⟨session, rfl, hran⟩ := h
    rw [hrun]
    exact ⟨rfl, hran, rfl, rfl, rfl, rfl⟩
  · rename_i e u hrun
    rw [hrun]
    exact h

theorem runs_mayThrow (s : Extraction) : Runs (onSession (mayThrow noFaults .extraction)) s () [] := by
  obtain ⟨t, ht, hran⟩ := mayThrow_noFaults .extraction s.session
  refine ⟨{ s with session := t }, ?_, hran, rfl, rfl, rfl, rfl⟩
  rw [onSession, ht]

theorem calm_noFaults (hs : s.session.Open) : Calm noFaults True s := fun _ => ⟨rfl, hs⟩

theorem runs_report (hs : s.session.Open) {value : Diagnostic} (hplain : value.Plain) :
    Runs (report noFaults value) s () [.diagnostic value] :=
  (follows_report (calm_noFaults hs) hplain).runs

end Ran

theorem plain_warningDiagnostic (code message : String) {context : List (Bytes × Bytes)}
    (h : ascii "sequence" ∉ context.map Prod.fst) (h' : ascii "type" ∉ context.map Prod.fst) :
    (warningDiagnostic code message context).Plain := by
  have hplain : (errorDiagnostic code message context).Plain := plain_errorDiagnostic code message h h'
  obtain ⟨hsequence, htype⟩ := hplain
  have hnames : ∀ name, (diagnosticFields (errorDiagnostic code message context)).contains name = false →
      (diagnosticFields (warningDiagnostic code message context)).contains name = false := by
    intro name hname
    rw [Bool.eq_false_iff, ne_eq, diagnosticFields, OrdMap.contains_emplaceAll] at hname ⊢
    exact hname
  exact ⟨hnames _ hsequence, hnames _ htype⟩

/-! ### The diagnostics of an entry -/

section Plain
variable (ordinal : Nat)

theorem plain_navigationStalled (key : Bytes) : (navigationStalled ordinal key).Plain := by
  apply plain_errorDiagnostic
  · show ascii "sequence" ∉ [ascii "entry_ordinal", ascii "key"]
    decide
  · show ascii "type" ∉ [ascii "entry_ordinal", ascii "key"]
    decide

theorem plain_entryReadFailed (key : Bytes) (error : Byte) : (entryReadFailed ordinal key error).Plain := by
  apply plain_errorDiagnostic
  · show ascii "sequence" ∉ [ascii "entry_ordinal", ascii "key", ascii "sword_error"]
    decide
  · show ascii "type" ∉ [ascii "entry_ordinal", ascii "key", ascii "sword_error"]
    decide

theorem plain_lengthUnsupported (size : Nat) : (lengthUnsupported ordinal size).Plain := by
  apply plain_errorDiagnostic
  · show ascii "sequence" ∉ [ascii "entry_ordinal", ascii "size"]
    decide
  · show ascii "type" ∉ [ascii "entry_ordinal", ascii "size"]
    decide

theorem plain_encodingUnavailable (encoding : Bytes) : (encodingUnavailable ordinal encoding).Plain := by
  apply plain_warningDiagnostic
  · show ascii "sequence" ∉ [ascii "entry_ordinal", ascii "encoding"]
    decide
  · show ascii "type" ∉ [ascii "entry_ordinal", ascii "encoding"]
    decide

theorem plain_strippedInvalid : (strippedInvalid ordinal).Plain := by
  apply plain_warningDiagnostic
  · show ascii "sequence" ∉ [ascii "entry_ordinal"]
    decide
  · show ascii "type" ∉ [ascii "entry_ordinal"]
    decide

theorem plain_embeddedNul : (embeddedNul ordinal).Plain := by
  apply plain_warningDiagnostic
  · show ascii "sequence" ∉ [ascii "entry_ordinal"]
    decide
  · show ascii "type" ∉ [ascii "entry_ordinal"]
    decide

theorem plain_entryCountMismatch (declared emitted : Nat) : (entryCountMismatch declared emitted).Plain := by
  apply plain_errorDiagnostic
  · show ascii "sequence" ∉ [ascii "declared_entries", ascii "emitted_entries"]
    decide
  · show ascii "type" ∉ [ascii "declared_entries", ascii "emitted_entries"]
    decide

theorem plain_navigationFailed (error : Byte) : (navigationFailed ordinal error).Plain := by
  apply plain_errorDiagnostic
  · show ascii "sequence" ∉ [ascii "entry_ordinal", ascii "sword_error"]
    decide
  · show ascii "type" ∉ [ascii "entry_ordinal", ascii "sword_error"]
    decide

theorem plain_moduleEmpty : moduleEmpty.Plain := by
  apply plain_warningDiagnostic
  · exact List.not_mem_nil
  · exact List.not_mem_nil

end Plain

/-! ### What an entry adds -/

section Entry
variable (icu : Icu) (answers : EntryAnswers) (ordinal : Nat)

def lengthDiagnostics (size : Nat) : List Diagnostic :=
  if size > intMax then [lengthUnsupported ordinal size] else []

/-- `normalized`. -/
def entryNormalized : Option Bytes := sourceUtf8 icu answers.raw (safeCString answers.encoding)

/-- `normalized_stripped`, with the diagnostics about it. -/
def entryStripped : Option Bytes × List Diagnostic :=
  match entryNormalized icu answers with
  | none => (none, [])
  | some utf8 =>
    if utf8.contains zeroByte then (none, [embeddedNul ordinal])
    else if utf8.length > intMax then (none, [lengthUnsupported ordinal utf8.length])
    else if isValidUtf8 (safeCString answers.normalizedStripped) then
      (some (safeCString answers.normalizedStripped), [])
    else (none, [strippedInvalid ordinal])

def entryDiagnostics : List Diagnostic :=
  lengthDiagnostics ordinal answers.raw.length ++
    (if (entryNormalized icu answers).isNone then
      [encodingUnavailable ordinal (safeCString answers.encoding)] else []) ++
    (entryStripped icu answers ordinal).2

/-- The fields of the record of an entry that is read. -/
def entryRecord : List (Bytes × Bytes) :=
  entryFields answers ordinal (entryNormalized icu answers) (entryStripped icu answers ordinal).1
    (answers.raw.length ≤ intMax)

/-- An entry that is read: its diagnostics and its record. -/
def entryEmissions : List Emission :=
  (entryDiagnostics icu answers ordinal).map .diagnostic ++ [.entry (entryRecord icu answers ordinal)]

variable {s : Extraction} {safe : Prop} {faults : Faults}

theorem follows_swordLength (hs : Calm faults safe s) (size : Nat) :
    Follows safe (swordLength faults size ordinal) s (decide (size ≤ intMax))
      ((lengthDiagnostics ordinal size).map .diagnostic) := by
  unfold swordLength lengthDiagnostics
  split_ifs with h
  · rw [decide_eq_false (Nat.not_le.mpr h)]
    exact Follows.bind (follows_report hs (plain_lengthUnsupported ordinal size)) fun t _ => Follows.pure _ t
  · rw [decide_eq_true (Nat.not_lt.mp h)]
    exact Follows.pure _ s

theorem follows_checkNormalized (hs : Calm faults safe s) (normalized : Option Bytes) (encoding : Bytes) :
    Follows safe (checkNormalized faults normalized encoding ordinal) s ()
      ((if normalized.isNone then [encodingUnavailable ordinal encoding] else []).map .diagnostic) := by
  unfold checkNormalized
  split_ifs
  · exact follows_report hs (plain_encodingUnavailable ordinal encoding)
  · exact Follows.pure _ s

theorem follows_checkStripped (hs : Calm faults safe s) (stripped : Bytes) :
    Follows safe (checkStripped faults stripped ordinal) s (if isValidUtf8 stripped then some stripped else none)
      ((if isValidUtf8 stripped then [] else [strippedInvalid ordinal]).map .diagnostic) := by
  unfold checkStripped
  split_ifs
  · exact Follows.pure _ s
  · exact Follows.bind (follows_report hs (plain_strippedInvalid ordinal)) fun t _ => Follows.pure _ t

theorem follows_normalizedStripped (hs : Calm faults safe s) :
    Follows safe (normalizedStripped faults answers (entryNormalized icu answers) ordinal) s
      (entryStripped icu answers ordinal).1 ((entryStripped icu answers ordinal).2.map .diagnostic) := by
  unfold normalizedStripped entryStripped
  cases entryNormalized icu answers with
  | none => exact Follows.pure _ s
  | some utf8 =>
    dsimp only
    by_cases hnul : utf8.contains zeroByte = true
    · rw [if_pos hnul, if_pos hnul]
      exact Follows.bind (follows_report hs (plain_embeddedNul ordinal)) fun t _ => Follows.pure _ t
    rw [if_neg hnul, if_neg hnul]
    have hlength := follows_swordLength ordinal hs utf8.length
    by_cases hlong : utf8.length > intMax
    · rw [if_pos hlong]
      rw [decide_eq_false (Nat.not_le.mpr hlong), lengthDiagnostics, if_pos hlong] at hlength
      exact Follows.bind hlength fun t _ => Follows.pure _ t
    · rw [if_neg hlong]
      rw [decide_eq_true (Nat.not_lt.mp hlong), lengthDiagnostics, if_neg hlong] at hlength
      apply Follows.silent hlength
      intro t ht
      apply Follows.silent (follows_mayThrow (ht.calm hs))
      intro u hu
      have hstripped := follows_checkStripped ordinal (hu.calm (ht.calm hs))
        (safeCString answers.normalizedStripped)
      split_ifs at hstripped ⊢ with hvalid
      · exact hstripped
      · exact hstripped

theorem free_entryFields (normalized stripped : Option Bytes) (projections : Bool) :
    Free (fieldsOf (entryFields answers ordinal normalized stripped projections)) := by
  have hnames : (entryFields answers ordinal normalized stripped projections).map Prod.fst =
      ["annotation_segments", "key", "normalized_raw", "normalized_stripped", "official_attributes",
        "ordinal", "projections_available", "raw", "rendered_default", "scope", "stripped"].map ascii := rfl
  apply free_fieldsOf
  · rw [hnames]
    decide
  · rw [hnames]
    decide

/-- A read that fails emits its diagnostic alone. -/
theorem follows_emitEntry_failed (hs : Calm faults safe s) (hread : answers.readError ≠ zeroByte) :
    Follows safe (emitEntry faults icu answers) s false
      [.diagnostic (entryReadFailed s.entries (safeCString answers.keyText) answers.readError)] := by
  unfold emitEntry
  apply Follows.get
  rw [if_pos hread]
  apply Follows.bind (follows_report hs (plain_entryReadFailed _ _ _))
  intro t _
  exact Follows.pure _ t

/-- An entry that is read emits its diagnostics and then its record. -/
theorem follows_emitEntry (hs : Calm faults safe s) (hread : answers.readError = zeroByte) :
    Follows safe (emitEntry faults icu answers) s true (entryEmissions icu answers s.entries) := by
  unfold emitEntry entryEmissions entryDiagnostics
  apply Follows.get
  rw [if_neg (not_not.mpr hread), List.map_append, List.map_append, List.append_assoc, List.append_assoc]
  apply Follows.bind (follows_swordLength s.entries hs answers.raw.length)
  intro t ht
  have ht := ht.calm hs
  dsimp only
  apply Follows.bind (follows_checkNormalized s.entries ht _ _)
  intro u hu
  have hu := hu.calm ht
  apply Follows.silent (follows_mayThrow hu)
  intro v hv
  have hv := hv.calm hu
  apply Follows.bind (follows_normalizedStripped icu answers s.entries hv)
  intro w hw
  have hw := hw.calm hv
  exact follows_entry hw (free_entryFields answers s.entries (entryNormalized icu answers)
    (entryStripped icu answers s.entries).1 (decide (answers.raw.length ≤ intMax)))

theorem emitEntry_failed (hs : s.session.Open) (hread : answers.readError ≠ zeroByte) :
    Runs (emitEntry noFaults icu answers) s false
      [.diagnostic (entryReadFailed s.entries (safeCString answers.keyText) answers.readError)] :=
  (follows_emitEntry_failed icu answers (calm_noFaults hs) hread).runs

theorem emitEntry_noFaults (hs : s.session.Open) (hread : answers.readError = zeroByte) :
    Runs (emitEntry noFaults icu answers) s true (entryEmissions icu answers s.entries) :=
  (follows_emitEntry icu answers (calm_noFaults hs) hread).runs

end Entry
end GetBibleSword.Core
