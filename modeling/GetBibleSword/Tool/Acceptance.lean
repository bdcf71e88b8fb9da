import GetBibleSword.Tool.Grammar
import GetBibleSword.Tool.WriterStream

/-!
# The validator accepts the record grammar

* `Tracks` : the fields of the object are those of a state of the grammar's machine;
  `Tracks.admits_iff`, `Tracks.next` : an item is admitted by both or by neither, and both move on;
* `Counted` : the hash, the counters and the totals are those of the lines and items so far;
* `Event`, `ReadAs` : what the lines of a stream are, each checked on its own;
* `Stream` : the language; `accepts_iff_stream` : the streams of records that pass their own checks,
  with the true digest and totals, are accepted exactly when they are in it.
-/

namespace GetBibleSword.Tool
open GetBibleSword.Lib
open GetBibleSword.Core (NdjsonWriter JsonFields objectJson jsonString recordLine recordLines)

/-! ## The machine behind the object -/

/-- The open group as the object keeps it. -/
def Opened.active (chunkSize : Nat) (o : Opened) : ActiveArtifact where
  artifactId := o.artifactId
  path := o.fields.path
  components := o.fields.components
  fileType := o.fields.fileType
  mode := o.fields.mode
  role := o.fields.role
  target := o.target
  sizeExpected := o.sizeExpected
  hashed := o.chunks.flatten
  size := o.chunks.flatten.length
  chunks := o.chunks.length
  shortChunkSeen := Shape.short chunkSize o

def Group.artifact (g : Group) : Artifact where
  artifactId := g.artifactId
  path := g.fields.path
  components := g.fields.components
  fileType := g.fields.fileType
  mode := g.fields.mode
  role := g.fields.role
  target := g.target
  size := g.size
  sha256 := g.sha256

structure Tracks (fields : HeaderFields) (v : Validator) (s : Shape) : Prop where
  header : v.header ≠ none
  command : v.command = some fields.command
  chunkSize : v.chunkSize = fields.chunkSize
  phase : v.phase = s.phase
  moduleCount : v.moduleCount = s.modules
  configSourceOrdinal : v.configSourceOrdinal = s.sources
  configEntryOrdinal : v.configEntryOrdinal = s.configs
  entryCount : v.entryCount = s.entries
  artifacts : v.artifacts = s.groups.map Group.artifact
  activeArtifact : v.activeArtifact = s.active.map (Opened.active (fields.chunkSize.getD 0))
  artifactPaths : v.artifactPaths = s.paths.reverse

/-- The comparison at the end of a group is that of the grammar. -/
theorem ends_iff_truthful (o : Opened) (chunkSize size : Nat) (sha256 : Text) (stable : Option Bool) :
    (o.active chunkSize).Ends size sha256 stable ↔ (Shape.closed o size sha256 stable).Truthful := by
  obtain ⟨artifactId, ⟨fileType, mode, role, path, components⟩, target, sizeExpected, chunks⟩ := o
  unfold ActiveArtifact.Ends Group.Truthful Opened.content
  cases fileType with
  | symlink => cases target <;> simp [Opened.active, Shape.closed]
  | directory => simp [Opened.active, Shape.closed]
  | regular =>
    simp only [Opened.active, Shape.closed, Option.some.injEq, exists_eq_left', forall_const]
    refine ⟨fun hl => ?_, fun hr => ?_⟩
    · obtain ⟨hsize, hhash, b, hb, hstable⟩ := hl
      exact ⟨hsize, hhash, b, hb, fun htrue => by rw [hsize]; exact hstable htrue⟩
    · obtain ⟨hsize, hhash, b, hb, hstable⟩ := hr
      exact ⟨hsize, hhash, b, hb, fun htrue => by rw [← hsize]; exact hstable htrue⟩

theorem active_chunk (o : Opened) (chunkSize : Nat) (data : Bytes) :
    (o.active chunkSize).chunk chunkSize data =
      ({ o with chunks := o.chunks ++ [data] } : Opened).active chunkSize := by
  have hshort : Shape.short chunkSize { o with chunks := o.chunks ++ [data] } =
      if data.length < chunkSize then true else Shape.short chunkSize o := by
    unfold Shape.short
    rw [List.any_append]
    by_cases h : data.length < chunkSize <;> simp [h]
  simp only [Opened.active, ActiveArtifact.chunk, hshort, List.flatten_append, List.flatten_singleton,
    List.length_append, List.length_singleton]

namespace Tracks
variable {fields : HeaderFields} {v : Validator} {s : Shape} {item : Item}

theorem active_eq_none (h : Tracks fields v s) : v.activeArtifact = none ↔ s.active = none := by
  rw [h.activeArtifact, Option.map_eq_none_iff]

theorem chunk_iff (h : Tracks fields v s) {data : Bytes} :
    (∃ chunkSize, v.chunkSize = some chunkSize ∧ data ≠ [] ∧ data.length ≤ chunkSize) ↔
      data ≠ [] ∧ data.length ≤ fields.chunkSize.getD 0 := by
  rw [h.chunkSize]
  cases fields.chunkSize with
  | none => simp +contextual
  | some chunkSize => simp

/-- An item is admitted in both states or in neither. -/
theorem admits_iff (h : Tracks fields v s) : v.Admits item ↔ s.Admits fields item := by
  cases item with
  | header fields => exact ⟨fun hv => absurd hv.1 h.header, False.elim⟩
  | module =>
    simp only [Validator.Admits, Shape.Admits, h.header, h.phase, h.command, h.moduleCount, ne_eq,
      not_false_eq_true, true_and, Option.some.injEq]
  | configSource ordinal =>
    simp only [Validator.Admits, Shape.Admits, h.header, h.phase, h.command, h.moduleCount,
      h.configSourceOrdinal, ne_eq, not_false_eq_true, true_and, Option.some.injEq]
  | configEntry ordinal =>
    simp only [Validator.Admits, Shape.Admits, h.header, h.phase, h.command, h.moduleCount,
      h.configEntryOrdinal, ne_eq, not_false_eq_true, true_and, Option.some.injEq]
  | entry ordinal =>
    simp only [Validator.Admits, Shape.Admits, h.header, h.phase, h.command, h.moduleCount,
      h.entryCount, ne_eq, not_false_eq_true, true_and, Option.some.injEq]
  | artifactBegin artifactId begin target sizeExpected =>
    simp only [Validator.Admits, Shape.Admits, h.header, h.phase, h.command, h.moduleCount,
      h.active_eq_none, h.artifacts, h.artifactPaths, Shape.phase_le_five, List.length_map,
      List.mem_reverse, ne_eq, not_false_eq_true, true_and, Option.some.injEq]
  | artifactChunk artifactId index data =>
    simp only [Validator.Admits, Shape.Admits, h.header, h.phase, h.chunk_iff, h.activeArtifact,
      Shape.phase_le_five, ne_eq, not_false_eq_true, true_and, Option.map_eq_some_iff]
    refine ⟨fun hl => ?_, fun hr => ?_⟩
    · obtain ⟨_, ⟨o, ho, rfl⟩, hrest⟩ := hl
      exact ⟨o, ho, hrest⟩
    · obtain ⟨o, ho, hrest⟩ := hr
      exact ⟨_, ⟨o, ho, rfl⟩, hrest⟩
  | artifactEnd artifactId size sha256 stable =>
    simp only [Validator.Admits, Shape.Admits, h.header, h.phase, h.activeArtifact,
      Shape.phase_le_five, ne_eq, not_false_eq_true, true_and, Option.map_eq_some_iff]
    refine ⟨fun hl => ?_, fun hr => ?_⟩
    · obtain ⟨_, ⟨o, ho, rfl⟩, hid, hends⟩ := hl
      exact ⟨o, ho, hid, (ends_iff_truthful o _ _ _ _).mp hends⟩
    · obtain ⟨o, ho, hid, htruthful⟩ := hr
      exact ⟨_, ⟨o, ho, rfl⟩, hid, (ends_iff_truthful o _ _ _ _).mpr htruthful⟩
  | diagnostic severity =>
    simp only [Validator.Admits, Shape.Admits, h.header, h.active_eq_none, ne_eq, not_false_eq_true,
      true_and]

theorem next {record : Dict} {rawLine : Bytes} (h : Tracks fields v s) (hadmits : s.Admits fields item) :
    Tracks fields (v.next rawLine record item) (s.next item) := by
  cases item with
  | header fields => exact hadmits.elim
  | module =>
    obtain ⟨hgroups, hactive, hentries, hconfigs, hsources⟩ := Shape.phase_le_one.mp hadmits.1
    refine { h with phase := ?_, moduleCount := ?_ }
    · simp [Validator.next, Validator.after, Shape.next, Shape.phase, hgroups, hactive, hentries,
        hconfigs, hsources]
    · show v.moduleCount + 1 = s.modules + 1
      rw [h.moduleCount]
  | configSource ordinal =>
    obtain ⟨hgroups, hactive, hentries, hconfigs⟩ := Shape.phase_le_two.mp hadmits.2.2.1
    refine { h with phase := ?_, configSourceOrdinal := ?_ }
    · simp [Validator.next, Validator.after, Shape.next, Shape.phase, hgroups, hactive, hentries, hconfigs]
    · show v.configSourceOrdinal + 1 = s.sources + 1
      rw [h.configSourceOrdinal]
  | configEntry ordinal =>
    obtain ⟨hgroups, hactive, hentries⟩ := Shape.phase_le_three.mp hadmits.2.2.1
    refine { h with phase := ?_, configEntryOrdinal := ?_ }
    · simp [Validator.next, Validator.after, Shape.next, Shape.phase, hgroups, hactive, hentries]
    · show v.configEntryOrdinal + 1 = s.configs + 1
      rw [h.configEntryOrdinal]
  | entry ordinal =>
    obtain ⟨hgroups, hactive⟩ := Shape.phase_le_four.mp hadmits.2.2.1
    refine { h with phase := ?_, entryCount := ?_ }
    · simp [Validator.next, Validator.after, Shape.next, Shape.phase, hgroups, hactive]
    · show v.entryCount + 1 = s.entries + 1
      rw [h.entryCount]
  | artifactBegin artifactId begin target sizeExpected =>
    obtain ⟨-, -, hactive, -⟩ := hadmits
    refine { h with phase := ?_, activeArtifact := rfl, artifactPaths := ?_ }
    · simp [Validator.next, Validator.after, Shape.next, Shape.phase]
    · show begin.components :: v.artifactPaths = _
      rw [h.artifactPaths]
      simp [Shape.paths, Shape.next, hactive]
  | artifactChunk artifactId index data =>
    obtain ⟨o, ho, -⟩ := hadmits
    refine { h with phase := ?_, activeArtifact := ?_, artifactPaths := ?_ }
    · simp [Validator.next, Validator.after, Shape.next, Shape.phase, ho]
    · show v.activeArtifact.map _ = _
      rw [h.activeArtifact, h.chunkSize, ho]
      show some ((o.active _).chunk _ data) = (s.active.map _).map _
      rw [ho, active_chunk]
      rfl
    · show v.artifactPaths = _
      rw [h.artifactPaths]
      simp [Shape.paths, Shape.next, ho]
  | artifactEnd artifactId size sha256 stable =>
    obtain ⟨o, ho, -⟩ := hadmits
    refine { h with phase := ?_, artifacts := ?_, activeArtifact := rfl, artifactPaths := ?_ }
    · simp [Validator.next, Validator.after, Shape.next, Shape.phase, ho]
    · show v.artifacts ++ v.activeArtifact.toList.map _ = _
      rw [h.artifacts, h.activeArtifact]
      simp [Shape.next, ho, Opened.active, ActiveArtifact.artifact, Group.artifact, Shape.closed]
    · show v.artifactPaths = _
      rw [h.artifactPaths]
      simp [Shape.paths, Shape.next, ho, Shape.closed]
  | diagnostic severity => exact { h with }

end Tracks

/-! ## The totals -/

/-- The octets an item adds to the artifacts. -/
def Item.size : Item → Nat
  | artifactEnd _ size _ _ => size
  | _ => 0

/-- What a footer declares of the lines and items before it. -/
structure FooterFields.Declares (f : FooterFields) (rawLines : List Bytes) (items : List Item) : Prop where
  streamSha256 : f.streamSha256 = Sha256.hexdigest rawLines.flatten
  counts : Validator.SameCounts f.counts fun type => items.countP fun item => item.type = type
  entries : f.entries = items.countP fun item => item.type = .entry
  artifacts : f.artifacts = items.countP fun item => item.type = .artifactEnd
  artifactBytes : f.artifactBytes = (items.map Item.size).sum
  diagnostics : f.diagnostics =
    severities.map fun severity => (severity, (items.count (.diagnostic severity) : Int))

/-- The object has counted these lines and items. -/
structure Counted (v : Validator) (rawLines : List Bytes) (items : List Item) : Prop where
  sequence : v.sequence = items.length
  streamHashed : v.streamHashed = rawLines.flatten
  counts : v.counts = fun type => items.countP fun item => item.type = type
  entryCount : v.entryCount = items.countP fun item => item.type = .entry
  artifacts : v.artifacts.length = items.countP fun item => item.type = .artifactEnd
  artifactBytes : Validator.artifactBytes v.artifacts = (items.map Item.size).sum
  diagnostics : v.diagnostics = fun severity => items.count (.diagnostic severity)

namespace Counted
variable {v : Validator} {rawLines : List Bytes} {items : List Item} {item : Item} {record : Dict}
  {rawLine : Bytes}

theorem next (h : Counted v rawLines items) (hadmits : v.Admits item) :
    Counted (v.next rawLine record item) (rawLines ++ [rawLine]) (items ++ [item]) := by
  have hcounts : (v.next rawLine record item).counts =
      fun type => (items ++ [item]).countP fun item => item.type = type := by
    have hafter : (v.after record item).counts = v.counts := by cases item <;> rfl
    funext type
    show increment _ _ _ = _
    rw [hafter, increment, h.counts, List.countP_append, List.countP_singleton]
    by_cases ht : type = item.type <;> simp [ht, eq_comm]
  refine ⟨?_, ?_, hcounts, ?_, ?_, ?_, ?_⟩
  · have hafter : (v.after record item).sequence = v.sequence := by cases item <;> rfl
    show (v.after record item).sequence + 1 = _
    rw [hafter, h.sequence, List.length_append, List.length_singleton]
  · have hafter : (v.after record item).streamHashed = v.streamHashed := by cases item <;> rfl
    show (v.after record item).streamHashed ++ rawLine = _
    rw [hafter, h.streamHashed, List.flatten_append, List.flatten_singleton]
  · rw [List.countP_append, ← h.entryCount]
    cases item <;> rfl
  · rw [List.countP_append, ← h.artifacts]
    cases item with
    | artifactEnd artifactId size sha256 stable =>
      obtain ⟨-, -, active, hactive, -⟩ := hadmits
      show (v.artifacts ++ v.activeArtifact.toList.map _).length = _
      simp [hactive, Item.type]
    | _ => rfl
  · rw [List.map_append, List.sum_append, ← h.artifactBytes]
    cases item with
    | artifactEnd artifactId size sha256 stable =>
      obtain ⟨-, -, active, hactive, -⟩ := hadmits
      show Validator.artifactBytes (v.artifacts ++ v.activeArtifact.toList.map _) = _
      simp [hactive, Validator.artifactBytes, Item.size, ActiveArtifact.artifact]
    | _ => rfl
  · funext severity
    rw [List.count_append]
    cases item with
    | diagnostic d =>
      show increment v.diagnostics d severity = _
      rw [increment, h.diagnostics, List.count_singleton]
      rcases eq_or_ne severity d with rfl | hd
      · simp
      · simp [hd, hd.symm]
    | _ => exact congrFun h.diagnostics severity

/-- A footer is true of the object when it declares what the object has counted, and its success is
the absence of error diagnostics. -/
theorem trueOf_iff (h : Counted v rawLines items) {f : FooterFields} :
    f.TrueOf v ↔ f.Declares rawLines items ∧ f.success = decide (.diagnostic .error ∉ items) := by
  have hsuccess : decide (v.diagnostics .error = 0) = decide (.diagnostic .error ∉ items) := by
    rw [h.diagnostics, decide_eq_decide]
    exact List.count_eq_zero
  refine ⟨fun ht => ⟨⟨?_, ?_, ?_, ?_, ?_, ?_⟩, ?_⟩, fun hr => ?_⟩
  · rw [ht.streamSha256, h.streamHashed]
  · rw [← h.counts]
    exact ht.counts
  · rw [ht.entries, h.entryCount]
  · rw [ht.artifacts, h.artifacts]
  · rw [ht.artifactBytes, h.artifactBytes]
  · rw [ht.diagnostics, h.diagnostics]
  · rw [ht.success, hsuccess]
  · obtain ⟨hd, hs⟩ := hr
    refine ⟨?_, ?_, ?_, ?_, ?_, ?_, ?_⟩
    · rw [hd.streamSha256, h.streamHashed]
    · rw [h.counts]
      exact hd.counts
    · rw [hd.entries, h.entryCount]
    · rw [hd.artifacts, h.artifacts]
    · rw [hd.artifactBytes, h.artifactBytes]
    · rw [hd.diagnostics, h.diagnostics]
    · rw [hs, hsuccess]

end Counted

/-! ## The lines of a stream -/

inductive Event where
  | item (item : Item)
  | footer (fields : FooterFields)
deriving DecidableEq

/-- The lines from number `sequence` on are records numbered from `sequence` on, each passing the
checks of its fields; what the validator takes from them are these events. -/
inductive ReadAs (maximumRecordBytes : Nat) : Nat → List Bytes → List Event → Prop where
  | nil (sequence : Nat) : ReadAs maximumRecordBytes sequence [] []
  | item {sequence : Nat} {rawLine : Bytes} {type : RecordType} {record : Dict} {item : Item}
    {rawLines : List Bytes} {events : List Event} :
    IsRecord maximumRecordBytes sequence rawLine type record → type ≠ .footer →
    itemOf type record (sequence + 1) = .ok item →
    ReadAs maximumRecordBytes (sequence + 1) rawLines events →
    ReadAs maximumRecordBytes sequence (rawLine :: rawLines) (.item item :: events)
  | footer {sequence : Nat} {rawLine : Bytes} {record : Dict} {fields : FooterFields}
    {rawLines : List Bytes} {events : List Event} :
    IsRecord maximumRecordBytes sequence rawLine .footer record →
    footerFields record (sequence + 1) = .ok fields →
    ReadAs maximumRecordBytes (sequence + 1) rawLines events →
    ReadAs maximumRecordBytes sequence (rawLine :: rawLines) (.footer fields :: events)

theorem ReadAs.eq_nil_iff {maximumRecordBytes sequence : Nat} {rawLines : List Bytes} {events : List Event}
    (h : ReadAs maximumRecordBytes sequence rawLines events) : rawLines = [] ↔ events = [] := by
  cases h <;> simp

theorem IsRecord.unique {maximumRecordBytes sequence : Nat} {rawLine : Bytes} {type type' : RecordType}
    {record record' : Dict} (h : IsRecord maximumRecordBytes sequence rawLine type record)
    (h' : IsRecord maximumRecordBytes sequence rawLine type' record') : type = type' ∧ record = record' := by
  have hread : readRecord maximumRecordBytes sequence rawLine 0 = .ok (type, record) := readRecord_eq_ok.mpr h
  rw [readRecord_eq_ok.mpr h'] at hread
  simpa [eq_comm] using hread

/-- What one line is read as. -/
def readEvent (maximumRecordBytes sequence : Nat) (rawLine : Bytes) : Except PyError Event := do
  let (type, record) ← readRecord maximumRecordBytes sequence rawLine (sequence + 1)
  if type = .footer then return .footer (← footerFields record (sequence + 1))
  else return .item (← itemOf type record (sequence + 1))

def readEvents (maximumRecordBytes : Nat) : Nat → List Bytes → Except PyError (List Event)
  | _, [] => .ok []
  | sequence, rawLine :: rawLines => do
    let event ← readEvent maximumRecordBytes sequence rawLine
    let events ← readEvents maximumRecordBytes (sequence + 1) rawLines
    return event :: events

/-- The events are what reading the lines one by one returns. -/
theorem readEvents_eq_ok {maximumRecordBytes : Nat} {rawLines : List Bytes} : ∀ {sequence : Nat}
    {events : List Event}, readEvents maximumRecordBytes sequence rawLines = .ok events ↔
      ReadAs maximumRecordBytes sequence rawLines events := by
  induction rawLines with
  | nil =>
    intro sequence events
    refine ⟨fun h => ?_, fun h => ?_⟩
    · obtain rfl := Except.ok.inj h
      exact .nil sequence
    · cases h
      rfl
  | cons rawLine rawLines ih =>
    intro sequence events
    simp only [readEvents, readEvent, bind_eq_ok, pure_eq_ok, ih]
    refine ⟨fun hl => ?_, fun h => ?_⟩
    · obtain ⟨event, ⟨⟨type, record⟩, hread, hevent⟩, rest, hrest, hevents⟩ := hl
      subst hevents
      have hrecord := readRecord_eq_ok.mp hread
      dsimp only at hevent
      split_ifs at hevent with htype
      · subst htype
        simp only [bind_eq_ok, pure_eq_ok] at hevent
        obtain ⟨fields, hfields, rfl⟩ := hevent
        exact .footer hrecord hfields hrest
      · simp only [bind_eq_ok, pure_eq_ok] at hevent
        obtain ⟨item, hitem, rfl⟩ := hevent
        exact .item hrecord htype hitem hrest
    · cases h with
      | @item _ _ type record item _ rest hrecord htype hitem hrest =>
        refine ⟨.item item, ⟨(type, record), readRecord_eq_ok.mpr hrecord, ?_⟩, rest, hrest, rfl⟩
        rw [if_neg htype, bind_eq_ok]
        exact ⟨item, hitem, rfl⟩
      | @footer _ _ record fields _ rest hrecord hfields hrest =>
        refine ⟨.footer fields, ⟨(.footer, record), readRecord_eq_ok.mpr hrecord, ?_⟩, rest, hrest, rfl⟩
        rw [if_pos rfl, bind_eq_ok]
        exact ⟨fields, hfields, rfl⟩

namespace Validator
variable {v v' : Validator} {rawLine : Bytes} {type : RecordType} {record : Dict} {item : Item} {line : Nat}

theorem validateLine_item (hrecord : IsRecord v.maximumRecordBytes v.sequence rawLine type record)
    (htype : type ≠ .footer) (hitem : itemOf type record line = .ok item) :
    v.validateLine rawLine line = .ok v' ↔ v.footer = none ∧ v.Admits item ∧ v' = v.next rawLine record item := by
  rw [validateLine_eq_ok]
  refine ⟨fun hl => ?_, fun hr => ?_⟩
  · rcases hl with ⟨type', record', item', hrecord', -, hitem', hfooter, hadmits, hv⟩ | ⟨record', f, hrecord', -⟩
    · obtain ⟨rfl, rfl⟩ := hrecord.unique hrecord'
      rw [hitem] at hitem'
      obtain rfl := Except.ok.inj hitem'
      exact ⟨hfooter, hadmits, hv⟩
    · exact absurd (hrecord.unique hrecord').1 htype
  · obtain ⟨hfooter, hadmits, hv⟩ := hr
    exact .inl ⟨type, record, item, hrecord, htype, hitem, hfooter, hadmits, hv⟩

theorem validateLine_footer {f : FooterFields}
    (hrecord : IsRecord v.maximumRecordBytes v.sequence rawLine .footer record)
    (hfields : footerFields record line = .ok f) :
    v.validateLine rawLine line = .ok v' ↔ v.header ≠ none ∧ v.footer = none ∧ v.activeArtifact = none ∧
      f.TrueOf v ∧ v' = { v with footer := some record, sequence := v.sequence + 1 } := by
  rw [validateLine_eq_ok]
  refine ⟨fun hl => ?_, fun hr => ?_⟩
  · rcases hl with ⟨type', record', item', hrecord', htype, -⟩ |
      ⟨record', f', hrecord', hfields', hheader, hfooter, hactive, htrue, hv⟩
    · exact absurd (hrecord.unique hrecord').1.symm htype
    · obtain ⟨-, rfl⟩ := hrecord.unique hrecord'
      rw [hfields] at hfields'
      obtain rfl := Except.ok.inj hfields'
      exact ⟨hheader, hfooter, hactive, htrue, hv⟩
  · obtain ⟨hheader, hfooter, hactive, htrue, hv⟩ := hr
    exact .inr ⟨record, f, hrecord, hfields, hheader, hfooter, hactive, htrue, hv⟩

theorem validateLines_append (xs ys : List Bytes) : ∀ (v : Validator) (line : Nat),
    v.validateLines line (xs ++ ys) =
      (v.validateLines line xs >>= fun w => w.validateLines (line + xs.length) ys) := by
  induction xs with
  | nil => intro v line; rfl
  | cons x xs ih =>
    intro v line
    rw [List.cons_append, validateLines, validateLines]
    cases v.validateLine x (line + 1) with
    | error e => rfl
    | ok w =>
      show w.validateLines (line + 1) (xs ++ ys) = _
      rw [ih, List.length_cons]
      rw [show line + 1 + xs.length = line + (xs.length + 1) by omega]
      rfl

/-- Nothing follows a footer. -/
theorem validateLine_after_footer (h : v.footer ≠ none) : v.validateLine rawLine line ≠ .ok v' := by
  rw [Ne, validateLine_eq_ok]
  rintro (⟨_, _, _, _, _, _, hfooter, _⟩ | ⟨_, _, _, _, _, hfooter, _⟩)
  · exact h hfooter
  · exact h hfooter

end Validator

/-! ## Runs of the loop -/

/-- The object behind the header line and what came after it. -/
structure After (maximumRecordBytes : Nat) (fields : HeaderFields) (v : Validator) (s : Shape)
    (rawLines : List Bytes) (items : List Item) : Prop where
  maximumRecordBytes : v.maximumRecordBytes = maximumRecordBytes
  header : ∃ record line, v.header = some record ∧ headerFields record line = .ok fields
  footer : v.footer = none
  tracks : Tracks fields v s
  counted : Counted v rawLines items

namespace After
variable {maximumRecordBytes : Nat} {fields : HeaderFields} {v v' : Validator} {s t : Shape}
  {before rawLines : List Bytes} {passed : List Item} {item : Item} {f : FooterFields}

theorem next {rawLine : Bytes} {record : Dict} (h : After maximumRecordBytes fields v s before passed)
    (hadmits : s.Admits fields item) :
    After maximumRecordBytes fields (v.next rawLine record item) (s.next item) (before ++ [rawLine])
      (passed ++ [item]) := by
  have hheader : (v.next rawLine record item).header = v.header := by
    cases item with
    | header fields => exact hadmits.elim
    | _ => rfl
  refine ⟨?_, hheader ▸ h.header, ?_, h.tracks.next hadmits, h.counted.next (h.tracks.admits_iff.mpr hadmits)⟩
  · rw [← h.maximumRecordBytes]
    cases item <;> rfl
  · rw [← h.footer]
    cases item <;> rfl

/-- The loop accepts the lines of items exactly when the machine runs on the items. -/
theorem validateLines_items (items : List Item) : ∀ {v s before rawLines passed},
    After maximumRecordBytes fields v s before passed →
    ReadAs maximumRecordBytes passed.length rawLines (items.map .item) →
    (∀ v', v.validateLines passed.length rawLines = .ok v' → ∃ t, Shape.Run fields s items t ∧
      After maximumRecordBytes fields v' t (before ++ rawLines) (passed ++ items)) ∧
    ∀ t, Shape.Run fields s items t → ∃ v', v.validateLines passed.length rawLines = .ok v' := by
  induction items with
  | nil =>
    intro v s before rawLines passed h hread
    cases hread
    refine ⟨fun v' hv => ⟨s, .nil s, ?_⟩, fun t _ => ⟨v, rfl⟩⟩
    obtain rfl := Except.ok.inj hv
    rwa [List.append_nil, List.append_nil]
  | cons item items ih =>
    intro v s before rawLines passed h hread
    cases hread with
    | @item _ rawLine type record _ rawLines _ hrecord htype hitem hrest =>
      rw [← h.maximumRecordBytes, ← h.counted.sequence] at hrecord
      have hstep : ∀ w, v.validateLine rawLine _ = .ok w ↔ _ := fun w =>
        Validator.validateLine_item hrecord htype hitem
      have hlength : (passed ++ [item]).length = passed.length + 1 := by simp
      refine ⟨fun v' hv => ?_, fun t hrun => ?_⟩
      · rw [Validator.validateLines, bind_eq_ok] at hv
        obtain ⟨w, hw, hv⟩ := hv
        obtain ⟨-, hadmits, rfl⟩ := (hstep w).mp hw
        have hadmits := h.tracks.admits_iff.mp hadmits
        obtain ⟨t, hrun, hafter⟩ := (ih (h.next hadmits) (hlength ▸ hrest)).1 v' (hlength ▸ hv)
        refine ⟨t, .cons hadmits hrun, ?_⟩
        rwa [List.append_assoc, List.append_assoc] at hafter
      · cases hrun with
        | cons hadmits hrun =>
          obtain ⟨v', hv⟩ := (ih (h.next hadmits) (hlength ▸ hrest)).2 t hrun
          refine ⟨v', ?_⟩
          rw [Validator.validateLines, bind_eq_ok]
          refine ⟨_, ?_, hlength ▸ hv⟩
          exact (hstep _).mpr ⟨h.footer, h.tracks.admits_iff.mpr hadmits, rfl⟩

/-- Nothing follows a footer. -/
theorem validateLines_after_footer (h : v.footer ≠ none) {line : Nat} :
    v.validateLines line rawLines = .ok v' ↔ rawLines = [] ∧ v' = v := by
  cases rawLines with
  | nil => simp [Validator.validateLines, eq_comm]
  | cons rawLine rawLines =>
    rw [Validator.validateLines, bind_eq_ok]
    refine ⟨fun hl => ?_, fun hnil => absurd hnil.1 (List.cons_ne_nil _ _)⟩
    obtain ⟨w, hw, -⟩ := hl
    exact absurd hw (Validator.validateLine_after_footer h)

/-- The line of a footer is accepted outside a group, when the footer is true and the last record. -/
theorem validateLines_footer (h : After maximumRecordBytes fields v s before passed) {events : List Event}
    (hread : ReadAs maximumRecordBytes passed.length rawLines (.footer f :: events)) :
    ∃ record, footerFields record (passed.length + 1) = .ok f ∧ ∀ v',
      v.validateLines passed.length rawLines = .ok v' ↔ events = [] ∧ s.active = none ∧ f.TrueOf v ∧
        v' = { v with footer := some record, sequence := v.sequence + 1 } := by
  cases hread with
  | @footer _ rawLine record _ rawLines _ hrecord hfields hrest =>
    rw [← h.maximumRecordBytes, ← h.counted.sequence] at hrecord
    refine ⟨record, hfields, fun v' => ?_⟩
    rw [Validator.validateLines, bind_eq_ok]
    simp only [Validator.validateLine_footer hrecord hfields, h.tracks.header, h.footer,
      h.tracks.active_eq_none, ne_eq, not_false_eq_true, true_and]
    refine ⟨fun hl => ?_, fun hr => ?_⟩
    · obtain ⟨w, ⟨hactive, htrue, hw⟩, hv⟩ := hl
      have hfooter : w.footer ≠ none := by simp [hw]
      obtain ⟨hlast, rfl⟩ := (validateLines_after_footer hfooter).mp hv
      exact ⟨hrest.eq_nil_iff.mp hlast, hactive, htrue, hw⟩
    · obtain ⟨hevents, hactive, htrue, hv⟩ := hr
      refine ⟨v', ⟨hactive, htrue, hv⟩, ?_⟩
      have hfooter : v'.footer ≠ none := by simp [hv]
      exact (validateLines_after_footer hfooter).mpr ⟨hrest.eq_nil_iff.mpr hevents, rfl⟩

end After

theorem headerFields_members {record : Dict} {line : Nat} {fields : HeaderFields}
    (h : headerFields record line = .ok fields) :
    dictGet record "contract" = some (.str (text contract)) ∧
      equalsOne (dictGet record "contract_version") = true := by
  simp only [headerFields, bind_eq_ok, failIf_eq_ok, not_or, not_not, isText_iff] at h
  obtain ⟨-, -, ⟨⟩, hcontract, -⟩ := h
  exact hcontract

theorem headerFields_strings {record : Dict} {line : Nat} {fields : HeaderFields}
    (h : headerFields record line = .ok fields) :
    (∃ t, dictGet record "producer_version" = some (.str t)) ∧
      (∃ t, dictGet record "sword_version" = some (.str t)) ∧
      (fields.command ≠ .extract → fields.chunkSize = none) := by
  simp only [headerFields, bind_eq_ok, dictItem_eq_ok, requireString_eq_ok, discard_eq_ok] at h
  obtain ⟨-, -, -, -, -, -, -, -, _, -, _, -, command, -, _, hproducer, _, ⟨producer, rfl⟩, _, hsword, _,
    ⟨sword, rfl⟩, h⟩ := h
  refine ⟨⟨producer, hproducer⟩, ⟨sword, hsword⟩, fun hcommand => ?_⟩
  split_ifs at h with hextract
  · simp only [bind_eq_ok, pure_eq_ok] at h
    obtain ⟨-, -, chunkSize, -, rfl⟩ := h
    exact absurd hextract hcommand
  · rw [← pure_eq_ok.mp h]

theorem footerFields_members {record : Dict} {line : Nat} {f : FooterFields}
    (h : footerFields record line = .ok f) :
    dictGet record "success" = some (.bool f.success) ∧
      dictGet record "stream_sha256" = some (.str f.streamSha256) := by
  simp only [footerFields, bind_eq_ok, dictItem_eq_ok, requireSha256_eq_ok, requireBoolean_eq_ok,
    pure_eq_ok] at h
  obtain ⟨-, -, _, hsha, _, ⟨rfl, -⟩, _, -, _, -, _, -, _, -, _, -, _, -, _, -, _, hsuccess, success, rfl, rfl⟩ := h
  exact ⟨hsuccess, hsha⟩

/-- What the end of `validate` asks of the object behind the footer. -/
theorem summarize_isOk {v : Validator} {line : Nat} {header footer : Dict} {fields : HeaderFields}
    {f : FooterFields} {headerLine footerLine : Nat} (hline : line ≠ 0) (hheader : v.header = some header)
    (hfields : headerFields header headerLine = .ok fields) (hfooter : v.footer = some footer)
    (hf : footerFields footer footerLine = .ok f) (hactive : v.activeArtifact = none) :
    (∃ summary, v.summarize line = .ok summary) ↔
      ¬ (v.command = some .extract ∧ f.success = true ∧ v.moduleCount ≠ 1) ∧
      ¬ (v.command = some .list ∧ (v.entryCount ≠ 0 ∨ v.artifacts ≠ [])) := by
  obtain ⟨⟨producer, hproducer⟩, ⟨sword, hsword⟩, -⟩ := headerFields_strings hfields
  obtain ⟨hsuccess, hsha⟩ := footerFields_members hf
  simp only [Validator.summarize, bind_eq_ok, failStream_eq_ok, Validator.asserted_eq_ok, dictItem_eq_ok,
    requireBoolean_eq_ok, requireString_eq_ok, pure_eq_ok, hheader, hfooter, hactive]
  refine ⟨fun hl => ?_, fun hr => ?_⟩
  · obtain ⟨_, h⟩ := hl
    obtain ⟨⟨⟩, -, ⟨⟩, -, ⟨⟩, -, _, -, footer', hfooter', _, hs, success, rfl, ⟨⟩, hmodule, ⟨⟩, hlist, -⟩ := h
    obtain rfl := Option.some.inj hfooter'
    obtain rfl := Json.bool.inj (Option.some.inj (hsuccess.symm.trans hs))
    exact ⟨hmodule, hlist⟩
  · obtain ⟨hmodule, hlist⟩ := hr
    exact ⟨_, (), hline, (), by simp, (), by simp, header, rfl, footer, rfl, _, hsuccess, _, rfl, (),
      hmodule, (), hlist, _, hproducer, _, rfl, _, hsword, _, rfl, _, hsha, _, rfl, rfl⟩

/-! ## The language -/

/-- A header, a body, and one footer at the end. -/
def Stream (events : List Event) : Prop :=
  ∃ (header : HeaderFields) (items : List Item) (footer : FooterFields), events = .item (.header header) :: (items.map .item ++ [.footer footer]) ∧
    Body header items ∧ (footer.success = true ↔ .diagnostic .error ∉ items) ∧
    (header.command = .extract → footer.success = true → .module ∈ items)

/-- The first footer of the stream has the digest and the totals of what is before it. -/
def TrueFooter (rawLines : List Bytes) (events : List Event) : Prop :=
  ∀ (items : List Item) (f : FooterFields) (rest : List Event), events = items.map .item ++ .footer f :: rest →
    f.Declares (rawLines.take items.length) items

theorem events_cases (events : List Event) : (∃ items : List Item, events = items.map .item) ∨
    ∃ (items : List Item) (f : FooterFields) (rest : List Event), events = items.map .item ++ .footer f :: rest := by
  induction events with
  | nil => exact .inl ⟨[], rfl⟩
  | cons event events ih =>
    cases event with
    | footer f => exact .inr ⟨[], f, events, rfl⟩
    | item item =>
      rcases ih with ⟨items, rfl⟩ | ⟨items, f, rest, rfl⟩
      · exact .inl ⟨item :: items, rfl⟩
      · exact .inr ⟨item :: items, f, rest, rfl⟩

theorem ReadAs.append {maximumRecordBytes : Nat} {xs ys : List Event} : ∀ {sequence : Nat}
    {rawLines : List Bytes}, ReadAs maximumRecordBytes sequence rawLines (xs ++ ys) →
    ∃ first last, rawLines = first ++ last ∧ first.length = xs.length ∧
      ReadAs maximumRecordBytes sequence first xs ∧
      ReadAs maximumRecordBytes (sequence + xs.length) last ys := by
  induction xs with
  | nil => exact fun {sequence rawLines} h => ⟨[], rawLines, rfl, rfl, .nil sequence, h⟩
  | cons x xs ih =>
    intro sequence rawLines h
    cases h with
    | item hrecord htype hitem hrest =>
      obtain ⟨first, last, rfl, hlength, hfirst, hlast⟩ := ih hrest
      refine ⟨_ :: first, last, rfl, by simp [hlength], .item hrecord htype hitem hfirst, ?_⟩
      rwa [List.length_cons, Nat.add_comm xs.length, ← Nat.add_assoc]
    | footer hrecord hfields hrest =>
      obtain ⟨first, last, rfl, hlength, hfirst, hlast⟩ := ih hrest
      refine ⟨_ :: first, last, rfl, by simp [hlength], .footer hrecord hfields hfirst, ?_⟩
      rwa [List.length_cons, Nat.add_comm xs.length, ← Nat.add_assoc]

namespace After
variable {maximumRecordBytes : Nat} {fields : HeaderFields} {v : Validator} {t : Shape}
  {rawLine : Bytes} {before rawLines : List Bytes} {items : List Item} {f : FooterFields} {rest : List Event}

/-- Behind a run of the machine a footer ends the stream outside a group, when it declares what is before
it. -/
theorem closes_iff (hrun : Shape.Run fields .start items t)
    (h : After maximumRecordBytes fields v t before (.header fields :: items))
    (hread : ReadAs maximumRecordBytes (items.length + 1) rawLines (.footer f :: rest)) :
    (∃ v' summary, v.validateLines (items.length + 1) rawLines = .ok v' ∧
      v'.summarize (items.length + 1 + rawLines.length) = .ok summary) ↔
      rest = [] ∧ t.active = none ∧ f.Declares before (.header fields :: items) ∧
        (f.success = true ↔ .diagnostic .error ∉ items) ∧
        (fields.command = .extract → f.success = true → .module ∈ items) := by
  obtain ⟨header, headerLine, hheader, hfields⟩ := h.header
  obtain ⟨record, hrecord, hfooter⟩ := h.validateLines_footer hread
  have hmodules : t.modules = items.count .module := by rw [hrun.modules]; exact Nat.zero_add _
  have htrue : f.TrueOf v ↔ f.Declares before (.header fields :: items) ∧
      (f.success = true ↔ .diagnostic .error ∉ items) := by
    rw [h.counted.trueOf_iff, Bool.eq_iff_iff, decide_eq_true_eq]
    simp
  have hsummary : t.active = none → ∀ line, line ≠ 0 →
      ((∃ summary, Validator.summarize { v with footer := some record, sequence := v.sequence + 1 } line =
        .ok summary) ↔ (fields.command = .extract → f.success = true → .module ∈ items)) := by
    intro hactive line hline
    rw [summarize_isOk (v := { v with footer := some record, sequence := v.sequence + 1 }) hline hheader
      hfields rfl hrecord (h.tracks.active_eq_none.mpr hactive)]
    simp only [h.tracks.command, h.tracks.moduleCount, h.tracks.entryCount, h.tracks.artifacts,
      Option.some.injEq, hmodules]
    cases hcommand : fields.command with
    | list =>
      have hlisted : Shape.Run fields (Shape.listed 0) items t := hrun
      obtain ⟨⟨n, rfl⟩, -⟩ := hlisted.listed hcommand
      simp [Shape.listed]
    | extract =>
      have hone := (hrun.reads hcommand (Shape.ok_start _) ⟨[], rfl, rfl⟩).1.modules
      rw [hmodules] at hone
      have hmem : .module ∈ items ↔ items.count .module = 1 := by
        rw [← List.count_pos_iff]
        omega
      simp [hmem]
  refine ⟨fun hl => ?_, fun hr => ?_⟩
  · obtain ⟨v', summary, hv, hs⟩ := hl
    obtain ⟨hrest, hactive, ht, rfl⟩ := (hfooter v').mp hv
    obtain ⟨hdeclares, hsuccess⟩ := htrue.mp ht
    exact ⟨hrest, hactive, hdeclares, hsuccess, (hsummary hactive _ (by omega)).mp ⟨summary, hs⟩⟩
  · obtain ⟨hrest, hactive, hdeclares, hsuccess, hmodule⟩ := hr
    obtain ⟨summary, hs⟩ := (hsummary hactive (items.length + 1 + rawLines.length) (by omega)).mpr hmodule
    exact ⟨_, summary, (hfooter _).mpr ⟨hrest, hactive, htrue.mpr ⟨hdeclares, hsuccess⟩, rfl⟩, hs⟩

/-- Behind the header, items and a footer are accepted to the end exactly when the items are a body, the
footer declares them and nothing follows. -/
theorem accepts_iff (h : After maximumRecordBytes fields v .start [rawLine] [.header fields])
    (hread : ReadAs maximumRecordBytes 1 rawLines (items.map .item ++ .footer f :: rest)) :
    (∃ v' summary, v.validateLines 1 rawLines = .ok v' ∧
      v'.summarize (1 + rawLines.length) = .ok summary) ↔
      rest = [] ∧ Body fields items ∧
        f.Declares (rawLine :: rawLines.take items.length) (.header fields :: items) ∧
        (f.success = true ↔ .diagnostic .error ∉ items) ∧
        (fields.command = .extract → f.success = true → .module ∈ items) := by
  obtain ⟨first, last, rfl, hlength, hfirst, hlast⟩ := hread.append
  rw [List.length_map] at hlength hlast
  rw [List.take_left' hlength]
  rw [Nat.add_comm 1] at hlast
  have hline : 1 + (first ++ last).length = items.length + 1 + last.length := by
    rw [List.length_append, hlength]
    omega
  simp only [Validator.validateLines_append, hline, bind_eq_ok]
  have hruns := h.validateLines_items items hfirst
  rw [← Shape.run_iff_body]
  refine ⟨fun hl => ?_, fun hr => ?_⟩
  · obtain ⟨v', summary, ⟨w, hw, hv⟩, hs⟩ := hl
    obtain ⟨t, hrun, hafter⟩ := hruns.1 w hw
    rw [hlength, Nat.add_comm 1] at hv
    obtain ⟨hrest, hactive, hend⟩ := (closes_iff hrun hafter hlast).mp ⟨v', summary, hv, hs⟩
    exact ⟨hrest, ⟨t, hrun, hactive⟩, hend⟩
  · obtain ⟨hrest, ⟨t, hrun, hactive⟩, hend⟩ := hr
    obtain ⟨w, hw⟩ := hruns.2 t hrun
    obtain ⟨t', hrun', hafter⟩ := hruns.1 w hw
    obtain rfl := hrun.unique hrun'
    obtain ⟨v', summary, hv, hs⟩ := (closes_iff hrun hafter hlast).mpr ⟨hrest, hactive, hend⟩
    rw [← Nat.add_comm 1, ← hlength] at hv
    exact ⟨v', summary, ⟨w, hw, hv⟩, hs⟩

end After

/-! ## The first line -/

theorem new_eq_ok {maximumRecordBytes : Nat} {v : Validator} (h : Validator.new maximumRecordBytes = .ok v) :
    v.maximumRecordBytes = maximumRecordBytes ∧ v.sequence = 0 ∧ v.header = none ∧ v.footer = none := by
  unfold Validator.new at h
  split_ifs at h
  obtain rfl := Except.ok.inj h
  exact ⟨rfl, rfl, rfl, rfl⟩

theorem After.start {maximumRecordBytes : Nat} {v : Validator} {fields : HeaderFields} {record : Dict}
    {line : Nat} {rawLine : Bytes} (hnew : Validator.new maximumRecordBytes = .ok v)
    (hfields : headerFields record line = .ok fields) :
    After maximumRecordBytes fields (v.next rawLine record (.header fields)) .start [rawLine]
      [.header fields] := by
  unfold Validator.new at hnew
  split_ifs at hnew
  obtain rfl := Except.ok.inj hnew
  refine ⟨rfl, ⟨record, line, rfl, hfields⟩, rfl, ⟨by simp [Validator.next, Validator.after], rfl, ?_, rfl, rfl,
    rfl, rfl, rfl, rfl, rfl, rfl⟩, ⟨rfl, by simp [Validator.next, Validator.after], ?_, rfl, rfl, rfl, rfl⟩⟩
  · show (if fields.command = .extract then fields.chunkSize else none) = fields.chunkSize
    split_ifs with hcommand
    · rfl
    · exact ((headerFields_strings hfields).2.2 hcommand).symm
  · funext type
    show increment (fun _ => 0) RecordType.header type = _
    cases type <;> rfl

theorem headerFields_of_item {type : RecordType} {record : Dict} {line : Nat} {fields : HeaderFields}
    (h : itemOf type record line = .ok (.header fields)) : headerFields record line = .ok fields := by
  simp only [itemOf, bind_eq_ok, pure_eq_ok] at h
  obtain ⟨item, hitem, _, -, rfl⟩ := h
  obtain rfl : RecordType.header = type := Validator.itemFields_type hitem
  simp only [itemFields, bind_eq_ok, pure_eq_ok] at hitem
  obtain ⟨_, hfields, hheader⟩ := hitem
  rwa [← Item.header.inj hheader]

/-- The first record is the header, or nothing is accepted. -/
theorem validateLines_start {maximumRecordBytes : Nat} {v : Validator} {rawLines : List Bytes} {event : Event}
    {events : List Event} (hnew : Validator.new maximumRecordBytes = .ok v)
    (hread : ReadAs maximumRecordBytes 0 rawLines (event :: events)) :
    (∃ fields rawLine lines w, event = .item (.header fields) ∧ rawLines = rawLine :: lines ∧
      ReadAs maximumRecordBytes 1 lines events ∧
      After maximumRecordBytes fields w .start [rawLine] [.header fields] ∧
      ∀ v', v.validateLines 0 rawLines = .ok v' ↔ w.validateLines 1 lines = .ok v') ∨
    (∀ fields, event ≠ .item (.header fields)) ∧ ∀ v', v.validateLines 0 rawLines ≠ .ok v' := by
  obtain ⟨hlimit, hsequence, hheader, hfooter⟩ := new_eq_ok hnew
  cases hread with
  | @footer _ rawLine record f lines _ hrecord hfields hrest =>
    rw [← hlimit, ← hsequence] at hrecord
    refine .inr ⟨fun fields => by simp, fun v' hv => ?_⟩
    rw [Validator.validateLines, bind_eq_ok] at hv
    obtain ⟨w, hw, -⟩ := hv
    exact ((Validator.validateLine_footer hrecord hfields).mp hw).1 hheader
  | @item _ rawLine type record item lines _ hrecord htype hitem hrest =>
    rw [← hlimit, ← hsequence] at hrecord
    by_cases h : ∃ fields, item = .header fields
    · obtain ⟨fields, rfl⟩ := h
      refine .inl ⟨fields, rawLine, lines, _, rfl, rfl, hrest, After.start hnew (headerFields_of_item hitem),
        fun v' => ?_⟩
      rw [Validator.validateLines, bind_eq_ok]
      refine ⟨fun hl => ?_, fun hv => ⟨_, ?_, hv⟩⟩
      · obtain ⟨w, hw, hv⟩ := hl
        obtain ⟨-, -, rfl⟩ := (Validator.validateLine_item hrecord htype hitem).mp hw
        exact hv
      · exact (Validator.validateLine_item hrecord htype hitem).mpr ⟨hfooter, ⟨hheader, hsequence⟩, rfl⟩
    · refine .inr ⟨fun fields hevent => h ⟨fields, Event.item.inj hevent⟩, fun v' hv => ?_⟩
      rw [Validator.validateLines, bind_eq_ok] at hv
      obtain ⟨w, hw, -⟩ := hv
      obtain ⟨-, hadmits, -⟩ := (Validator.validateLine_item hrecord htype hitem).mp hw
      cases item with
      | header fields => exact h ⟨fields, rfl⟩
      | _ => exact hadmits.1 hheader

/-! ## Acceptance -/

theorem split_unique {items items' : List Item} {f f' : FooterFields} {rest rest' : List Event}
    (h : items.map Event.item ++ .footer f :: rest = items'.map Event.item ++ .footer f' :: rest') :
    items = items' ∧ f = f' ∧ rest = rest' := by
  induction items generalizing items' with
  | nil =>
    cases items' with
    | nil => simpa using h
    | cons item items' => simp at h
  | cons item items ih =>
    cases items' with
    | nil => simp at h
    | cons item' items' =>
      simp only [List.map_cons, List.cons_append, List.cons.injEq, Event.item.injEq] at h
      obtain ⟨rfl, rfl, rfl⟩ := ih h.2
      exact ⟨by rw [h.1], rfl, rfl⟩

theorem stream_iff {header : HeaderFields} {items : List Item} {f : FooterFields} {rest : List Event} :
    Stream (.item (.header header) :: (items.map .item ++ .footer f :: rest)) ↔
      rest = [] ∧ Body header items ∧ (f.success = true ↔ .diagnostic .error ∉ items) ∧
        (header.command = .extract → f.success = true → .module ∈ items) := by
  refine ⟨fun hl => ?_, fun hr => ?_⟩
  · obtain ⟨header', items', f', hevents, h⟩ := hl
    rw [List.cons.injEq, Event.item.injEq, Item.header.injEq] at hevents
    obtain ⟨rfl, htail⟩ := hevents
    obtain ⟨rfl, rfl, rfl⟩ := split_unique htail
    exact ⟨rfl, h⟩
  · obtain ⟨hrest, h⟩ := hr
    subst hrest
    exact ⟨header, items, f, rfl, h⟩

theorem trueFooter_iff {rawLine : Bytes} {rawLines : List Bytes} {header : Item} {items : List Item}
    {f : FooterFields} {rest : List Event} :
    TrueFooter (rawLine :: rawLines) (.item header :: (items.map .item ++ .footer f :: rest)) ↔
      f.Declares (rawLine :: rawLines.take items.length) (header :: items) := by
  refine ⟨fun h => h (header :: items) f rest rfl, fun h items' f' rest' hevents => ?_⟩
  have hsplit : (header :: items).map Event.item ++ .footer f :: rest =
      items'.map Event.item ++ .footer f' :: rest' := hevents
  obtain ⟨rfl, rfl, rfl⟩ := split_unique hsplit
  exact h

/-- Numbered records that pass the checks of their fields are accepted exactly when they are in the
language and the footer is true. -/
theorem validate_isOk_iff {maximumRecordBytes : Nat} (hlimit : 1024 ≤ maximumRecordBytes) {input : Bytes}
    {events : List Event}
    (hread : ReadAs maximumRecordBytes 0 (rawLines input.length (maximumRecordBytes + 1) input) events) :
    (∃ summary, validate maximumRecordBytes input = .ok summary) ↔
      Stream events ∧ TrueFooter (rawLines input.length (maximumRecordBytes + 1) input) events := by
  obtain ⟨v, hnew⟩ : ∃ v, Validator.new maximumRecordBytes = .ok v := ⟨_, if_neg (by omega)⟩
  have hvalidate : (∃ summary, validate maximumRecordBytes input = .ok summary) ↔
      ∃ v' summary, v.validateLines 0 (rawLines input.length (maximumRecordBytes + 1) input) = .ok v' ∧
        v'.summarize (rawLines input.length (maximumRecordBytes + 1) input).length = .ok summary := by
    simp only [validate, bind_eq_ok, hnew, Except.ok.injEq, exists_eq_left']
    exact exists_comm.trans (by simp)
  rw [hvalidate]
  generalize rawLines input.length (maximumRecordBytes + 1) input = lines at hread
  cases events with
  | nil =>
    cases hread
    refine ⟨fun hl => ?_, fun hr => ?_⟩
    · obtain ⟨v', summary, -, hs⟩ := hl
      simp [Validator.summarize] at hs
    · obtain ⟨⟨_, _, _, hevents, -⟩, -⟩ := hr
      simp at hevents
  | cons event events =>
    rcases validateLines_start hnew hread with
      ⟨fields, rawLine, lines, w, rfl, rfl, hread, hafter, hstart⟩ | ⟨hevent, hreject⟩
    · simp only [hstart]
      rcases events_cases events with ⟨items, rfl⟩ | ⟨items, f, rest, rfl⟩
      · refine ⟨fun hl => ?_, fun hr => ?_⟩
        · obtain ⟨v', summary, hv, hs⟩ := hl
          obtain ⟨t, -, hend⟩ := (hafter.validateLines_items items hread).1 v' hv
          simp [Validator.summarize, hend.footer] at hs
        · obtain ⟨⟨header, items', f', hevents, _⟩, _⟩ := hr
          have hmem : Event.footer f' ∈ items.map Event.item := by
            rw [(List.cons.inj hevents).2]
            simp
          simp at hmem
      · rw [stream_iff, trueFooter_iff, List.length_cons, Nat.add_comm, hafter.accepts_iff hread]
        tauto
    · refine ⟨fun hl => ?_, fun hr => ?_⟩
      · obtain ⟨v', -, hv, -⟩ := hl
        exact absurd hv (hreject v')
      · obtain ⟨⟨header, _, _, hevents, -⟩, -⟩ := hr
        exact absurd (List.cons.inj hevents).1 (hevent header)

/-- A stream of numbered records that pass the checks of their fields, whose footer carries the true digest
and totals, is accepted exactly when it is in the language. -/
theorem accepts_iff_stream {maximumRecordBytes : Nat} (hlimit : 1024 ≤ maximumRecordBytes) {input : Bytes}
    {events : List Event}
    (hread : ReadAs maximumRecordBytes 0 (rawLines input.length (maximumRecordBytes + 1) input) events)
    (hfooter : TrueFooter (rawLines input.length (maximumRecordBytes + 1) input) events) :
    (∃ summary, validate maximumRecordBytes input = .ok summary) ↔ Stream events := by
  rw [validate_isOk_iff hlimit hread]
  exact and_iff_left hfooter

/-! ## Small streams -/

/-- The stream of the given records and a footer with these totals. -/
def writtenStream (records : List (Bytes × JsonFields)) (counts : List (RecordType × Nat)) (success : Bool)
    (totals : JsonFields) : Bytes :=
  let lines := (recordLines records).flatten
  lines ++ recordLine records.length (ascii "footer") (totals.emplaceAll [
    (ascii "counts", objectJson (counts.map fun count => (ascii count.1.name, decimal count.2))),
    (ascii "stream_sha256", jsonString ((Sha256.hexdigest lines).map octet)),
    (ascii "success", if success then ascii "true" else ascii "false")])

def headerRecord (command : Command) : Bytes × JsonFields :=
  (ascii "header", OrdMap.empty.emplaceAll [
    (ascii "artifact_chunk_size", ascii "4096"),
    (ascii "command", jsonString (ascii command.name)),
    (ascii "contract", jsonString (ascii contract)),
    (ascii "contract_version", ascii "1"),
    (ascii "deterministic", ascii "true"),
    (ascii "producer", jsonString (ascii "getBibleSword")),
    (ascii "producer_version", jsonString (ascii "1")),
    (ascii "sword_version", jsonString (ascii "1"))])

/-- The members of a footer with this many error diagnostics and no others. -/
def totals (entries artifacts artifactBytes errors : Nat) : JsonFields :=
  OrdMap.empty.emplaceAll [
    (ascii "artifact_bytes", decimal artifactBytes),
    (ascii "artifacts", decimal artifacts),
    (ascii "diagnostics", objectJson [(ascii "error", decimal errors), (ascii "info", ascii "0"),
      (ascii "warning", ascii "0")]),
    (ascii "entries", decimal entries)]

/-- A stream of a header and a footer. -/
def headerOnly (command : Command) : Bytes := 
  writtenStream [headerRecord command] [(.header, 1)] true (totals 0 0 0 0)

def headerOnlyEvents (command : Command) : List Event :=
  [.item (.header ⟨command, if command = .extract then some 4096 else none⟩),
    .footer ⟨Sha256.hexdigest (recordLine 0 (headerRecord command).1 (headerRecord command).2),
      [(.header, 1)], 0, 0, 0, [(.error, 0), (.info, 0), (.warning, 0)], true⟩]

theorem headerOnly_read (command : Command) :
    ReadAs 1024 0 (rawLines (headerOnly command).length 1025 (headerOnly command)) (headerOnlyEvents command) :=
  readEvents_eq_ok.mp (by cases command <;> decide +kernel)

theorem headerOnly_trueFooter (command : Command) :
    TrueFooter (rawLines (headerOnly command).length 1025 (headerOnly command)) (headerOnlyEvents command) := by
  intro items f rest h
  have hsplit : items.map Event.item ++ .footer f :: rest = [_].map Event.item ++ [.footer _] := h.symm
  obtain ⟨rfl, rfl, -⟩ := split_unique hsplit
  have hline : (rawLines (headerOnly command).length 1025 (headerOnly command)).take 1 =
      [recordLine 0 (headerRecord command).1 (headerRecord command).2] := by
    cases command <;> decide +kernel
  refine ⟨?_, ?_, rfl, rfl, rfl, ?_⟩
  · show _ = Sha256.hexdigest (List.take 1 _).flatten
    rw [hline, List.flatten_singleton]
  · cases command <;> decide
  · cases command <;> decide

theorem accepts_iff_stream_headerOnly :
    (∃ summary, validate 1024 (headerOnly .list) = .ok summary) ↔ Stream (headerOnlyEvents .list) :=
  accepts_iff_stream (by decide) (headerOnly_read .list) (headerOnly_trueFooter .list)

/-- A successful extract stream of nothing is in order, record by record, and is rejected. -/
theorem headerOnly_extract_rejected :
    ReadAs 1024 0 (rawLines (headerOnly .extract).length 1025 (headerOnly .extract))
        (headerOnlyEvents .extract) ∧
      TrueFooter (rawLines (headerOnly .extract).length 1025 (headerOnly .extract))
        (headerOnlyEvents .extract) ∧
      (∃ (header : HeaderFields) (items : List Item) (footer : FooterFields),
        headerOnlyEvents .extract = .item (.header header) :: (items.map .item ++ [.footer footer]) ∧
          Body header items) ∧
      ∀ summary, validate 1024 (headerOnly .extract) ≠ .ok summary := by
  refine ⟨headerOnly_read .extract, headerOnly_trueFooter .extract, ⟨_, [], _, rfl, [], rfl, .inl rfl⟩,
    fun summary hs => ?_⟩
  have hreject : (validate 1024 (headerOnly .extract)).isOk = false := by decide +kernel
  rw [hs] at hreject
  cases hreject

end GetBibleSword.Tool
