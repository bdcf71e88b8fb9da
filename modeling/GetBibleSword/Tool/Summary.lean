import GetBibleSword.Lib.FsPath
import GetBibleSword.Lib.Posix.Tree
import GetBibleSword.Tool.Gate

/-!
# The artifacts of a summary

* `Sound` : numbered, no path twice, each path of ordinary names, a target for each link;
* `Validated` : a summary with the run of the grammar's machine behind it; `validated_of_validate`;
* `sound_of_validate` : the artifacts of an accepted stream;
* `artifactStream` : a stream of a module and some artifacts.
-/

namespace GetBibleSword.Tool
open GetBibleSword.Lib Posix
open GetBibleSword.Core (JsonFields objectJson jsonString byteValueJson)

structure Sound (artifacts : List Artifact) : Prop where
  ids : artifacts.map Artifact.artifactId = List.range artifacts.length
  paths : (artifacts.map Artifact.components).Nodup
  nonempty : ∀ a ∈ artifacts, a.components ≠ []
  named : ∀ a ∈ artifacts, ∀ name ∈ a.components, ValidName name
  target : ∀ a ∈ artifacts, a.fileType = .symlink → ∃ target, a.target = some target

section Sound
variable {artifacts : List Artifact} {a b : Artifact} (h : Sound artifacts)
include h

theorem Sound.eq_of_id (ha : a ∈ artifacts) (hb : b ∈ artifacts) (heq : a.artifactId = b.artifactId) : a = b := by
  have hnodup : (artifacts.map Artifact.artifactId).Nodup := h.ids ▸ List.nodup_range
  exact List.inj_on_of_nodup_map hnodup ha hb heq

theorem Sound.eq_of_components (ha : a ∈ artifacts) (hb : b ∈ artifacts) (heq : a.components = b.components) :
    a = b := List.inj_on_of_nodup_map h.paths ha hb heq

end Sound

/-! ## The run behind a summary -/

/-- What an accepted stream was read as, and the state of the machine behind it. -/
structure Validated (maximumRecordBytes : Nat) (input : Bytes) (summary : ValidationSummary) (fields : HeaderFields)
    (items : List Item) (f : FooterFields) (t : Shape) : Prop where
  limit : 1024 ≤ maximumRecordBytes
  reads : ReadAs maximumRecordBytes 0 (rawLines input.length (maximumRecordBytes + 1) input)
    ((Item.header fields :: items).map Event.item ++ [.footer f])
  run : Shape.Run fields .start items t
  ended : t.active = none
  artifacts : summary.artifacts = t.groups.map Group.artifact
  command : summary.command = some fields.command

theorem summarize_eq_ok {v : Validator} {line : Nat} {summary : ValidationSummary}
    (h : v.summarize line = .ok summary) : summary.command = v.command ∧ summary.artifacts = v.artifacts := by
  simp only [Validator.summarize, bind_eq_ok, pure_eq_ok] at h
  obtain ⟨_, -, _, -, _, -, _, -, _, -, _, -, _, -, _, -, _, -, _, -, _, -, _, -, _, -, _, -, _, -, rfl⟩ := h
  exact ⟨rfl, rfl⟩

theorem validated_of_validate {maximumRecordBytes : Nat} {input : Bytes} {summary : ValidationSummary}
    (h : validate maximumRecordBytes input = .ok summary) :
    ∃ fields items f t, Validated maximumRecordBytes input summary fields items f t := by
  obtain ⟨hlimit, events, hread⟩ := validate_reads h
  obtain ⟨⟨fields, items, f, rfl, -⟩, -⟩ := (validate_isOk_iff hlimit hread).mp ⟨summary, h⟩
  simp only [validate, bind_eq_ok] at h
  obtain ⟨v, hnew, v', hv, hsummary⟩ := h
  rcases validateLines_start hnew hread with
    ⟨fields', rawLine, lines, w, hheader, hlines, hrest, hafter, hstart⟩ | ⟨hnot, -⟩
  · obtain rfl := Item.header.inj (Event.item.inj hheader)
    rw [hlines] at hv
    rw [hlines] at hstart
    obtain ⟨first, last, rfl, hlength, hfirst, hlast⟩ := hrest.append
    rw [List.length_map] at hlength hlast
    rw [hstart, Validator.validateLines_append, bind_eq_ok] at hv
    obtain ⟨u, hu, hv⟩ := hv
    obtain ⟨t, hrun, hend⟩ := (hafter.validateLines_items items hfirst).1 u hu
    rw [Nat.add_comm 1] at hlast
    obtain ⟨record, -, hfooter⟩ := hend.validateLines_footer hlast
    rw [hlength, Nat.add_comm 1] at hv
    obtain ⟨-, hactive, -, rfl⟩ := (hfooter v').mp hv
    obtain ⟨hcommand, hartifacts⟩ := summarize_eq_ok hsummary
    exact ⟨fields, items, f, t, hlimit, hread, hrun, hactive, hartifacts.trans hend.tracks.artifacts,
      hcommand.trans hend.tracks.command⟩
  · exact absurd rfl (hnot fields)

/-! ## The paths -/

theorem mem_intercalate_of_mem {α : Type} (sep : List α) {part : List α} {x : α} (hx : x ∈ part)
    {parts : List (List α)} (hpart : part ∈ parts) : x ∈ List.intercalate sep parts := by
  induction parts with
  | nil => exact absurd hpart List.not_mem_nil
  | cons first rest ih =>
    cases rest with
    | nil =>
      rw [List.mem_singleton.mp hpart] at hx
      simpa [List.intercalate] using hx
    | cons next rest =>
      rw [List.intercalate_cons_cons]
      rcases List.mem_cons.mp hpart with rfl | hpart
      · exact List.mem_append_left _ (List.mem_append_left _ hx)
      · exact List.mem_append_right _ (ih hpart)

theorem mem_of_mem_splitOn {sep : Byte} {path segment : Bytes} {byte : Byte} (hsegment : segment ∈ path.splitOn sep)
    (hbyte : byte ∈ segment) : byte ∈ path := by
  rw [← @List.intercalate_splitOn _ path _ _ sep]
  exact mem_intercalate_of_mem _ hbyte hsegment

/-- The components of an accepted path are ordinary names, and there is one. -/
theorem valid_of_validateRelativePath {path : Bytes} {context : Message} {line : Nat} {allow : Bool}
    {names : List Bytes} (h : validateRelativePath path context line allow = .ok names) :
    names ≠ [] ∧ ∀ name ∈ names, ValidName name := by
  simp only [validateRelativePath, bind_eq_ok, failIf_eq_ok, pure_eq_ok, not_or, not_exists, not_and] at h
  obtain ⟨-, ⟨-, hnul, -⟩, -, hnormal, rfl⟩ := h
  refine ⟨List.splitOn_ne_nil _ _, fun name hname => ?_⟩
  have hnames := hnormal name hname
  simp only [List.mem_cons, List.not_mem_nil, or_false, not_or] at hnames
  refine ⟨hnames.1, hnames.2.1, hnames.2.2, FsPath.separator_notMem_components _ _ hname, fun hzero => ?_⟩
  have hmem := mem_of_mem_splitOn hname hzero
  rw [Bool.not_eq_true, ← Bool.not_eq_true, List.contains_iff_mem] at hnul
  apply hnul
  split_ifs at hmem
  · exact List.mem_of_mem_dropLast hmem
  · exact hmem

/-! ## The items -/

/-- What the fields of an `artifact_begin` say of its path and its target. -/
def Item.Sound : Item → Prop
  | .artifactBegin _ fields target _ => fields.components ≠ [] ∧ (∀ name ∈ fields.components, ValidName name) ∧
      (fields.fileType = .symlink → ∃ bytes, target = some bytes)
  | _ => True

theorem item_sound {type : RecordType} {record : Dict} {line : Nat} {item : Item}
    (h : itemOf type record line = .ok item) : item.Sound := by
  simp only [itemOf, bind_eq_ok, pure_eq_ok] at h
  obtain ⟨item', hitem, _, -, rfl⟩ := h
  obtain rfl := Validator.itemFields_type hitem
  cases item' with
  | artifactBegin artifactId fields target sizeExpected =>
    simp only [Item.type, itemFields, bind_eq_ok, pure_eq_ok] at hitem
    obtain ⟨_, -, fields', hfields, ⟨target', size'⟩, hcontent, heq⟩ := hitem
    obtain ⟨-, rfl, rfl, -⟩ := Item.artifactBegin.inj heq
    simp only [beginFields, bind_eq_ok, pure_eq_ok] at hfields
    obtain ⟨_, -, _, -, fileType, -, _, -, _, -, _, -, _, -, components, hcomponents, rfl⟩ := hfields
    obtain ⟨hne, hvalid⟩ := valid_of_validateRelativePath hcomponents
    refine ⟨hne, hvalid, fun htype => ?_⟩
    dsimp only at htype hcontent
    rw [htype] at hcontent
    simp only [beginContent, bind_eq_ok, pure_eq_ok] at hcontent
    obtain ⟨_, -, bytes, -, _, -, hpair⟩ := hcontent
    exact ⟨bytes, (Prod.mk.inj hpair).1.symm⟩
  | _ => trivial

theorem ReadAs.sound {maximumRecordBytes sequence : Nat} {rawLines : List Bytes} {events : List Event}
    (h : ReadAs maximumRecordBytes sequence rawLines events) : ∀ item, Event.item item ∈ events → item.Sound := by
  induction h with
  | nil => exact fun item hitem => absurd hitem List.not_mem_nil
  | item _ _ hread _ ih =>
    intro item hitem
    rcases List.mem_cons.mp hitem with heq | hitem
    · rw [Event.item.inj heq]
      exact item_sound hread
    · exact ih item hitem
  | footer _ _ _ ih =>
    intro item hitem
    exact ih item ((List.mem_cons.mp hitem).resolve_left nofun)

section Validated
variable {maximumRecordBytes : Nat} {input : Bytes} {summary : ValidationSummary} {fields : HeaderFields}
  {items : List Item} {f : FooterFields} {t : Shape}
  (h : Validated maximumRecordBytes input summary fields items f t)
include h

theorem Validated.sound (hcommand : summary.command = some .extract) : Sound summary.artifacts := by
  have hextract : fields.command = .extract := Option.some.inj (h.command.symm.trans hcommand)
  obtain ⟨hok, hreads⟩ := h.run.reads hextract (Shape.ok_start _) ⟨[], rfl, rfl⟩
  have hgroup : ∀ g ∈ t.groups, Item.Sound (.artifactBegin g.artifactId g.fields g.target g.sizeExpected) := by
    intro g hg
    obtain ⟨blocks, hblocks, hcore⟩ := hreads
    have hitems : items = blocks.flatMap Block.items ++ t.active.elim [] Opened.items := hblocks
    have hblock : Block.group g ∈ blocks := by
      refine List.mem_of_mem_filter (p := fun block => !block.isDiagnostic) ?_
      rw [hcore]
      exact List.mem_append_right _ (List.mem_append_right _ (List.mem_append_right _ (List.mem_append_right _
        (List.mem_map_of_mem hg))))
    refine h.reads.sound _ (List.mem_append_left _ (List.mem_map_of_mem (List.mem_cons_of_mem _ ?_)))
    rw [hitems]
    refine List.mem_append_left _ (List.mem_flatMap.mpr ⟨.group g, hblock, ?_⟩)
    exact List.mem_append_left _ List.mem_cons_self
  have hof : ∀ a ∈ summary.artifacts, ∃ g ∈ t.groups, a = g.artifact := by
    intro a ha
    rw [h.artifacts] at ha
    obtain ⟨g, hg, rfl⟩ := List.mem_map.mp ha
    exact ⟨g, hg, rfl⟩
  refine ⟨?_, ?_, ?_, ?_, ?_⟩
  · rw [h.artifacts, List.map_map, List.length_map]
    exact hok.groups.ids
  · rw [h.artifacts, List.map_map]
    exact hok.groups.paths
  · intro a ha
    obtain ⟨g, hg, rfl⟩ := hof a ha
    exact (hgroup g hg).1
  · intro a ha
    obtain ⟨g, hg, rfl⟩ := hof a ha
    exact (hgroup g hg).2.1
  · intro a ha
    obtain ⟨g, hg, rfl⟩ := hof a ha
    exact (hgroup g hg).2.2

end Validated

theorem sound_of_validate {maximumRecordBytes : Nat} {input : Bytes} {summary : ValidationSummary}
    (h : validate maximumRecordBytes input = .ok summary) (hcommand : summary.command = some .extract) :
    Sound summary.artifacts := by
  obtain ⟨fields, items, f, t, hvalidated⟩ := validated_of_validate h
  exact hvalidated.sound hcommand

/-! ## Small streams -/

def moduleRecord : Bytes × JsonFields :=
  (ascii "module", OrdMap.empty.emplaceAll (
    (ascii "classification", jsonString (ascii "bible")) ::
    ["description", "driver", "language", "name", "sword_type"].map (fun name => (ascii name, byteValueJson [])) ++
    ["direction", "encoding", "markup"].map fun name =>
      (ascii name, objectJson [(ascii "code", ascii "0"), (ascii "name", jsonString (ascii "0"))])))

/-- An artifact to be: its type, its path, and its octets or its target. -/
structure Specimen where
  fileType : FileType
  path : Bytes
  content : Bytes

namespace Specimen

def contentMembers (object : Specimen) : List (Bytes × Bytes) :=
  match object.fileType with
  | .regular => [(ascii "size_expected", decimal object.content.length)]
  | .directory => []
  | .symlink => [(ascii "target", byteValueJson object.content)]

def chunked (object : Specimen) : Bool := decide (object.fileType = .regular) && !object.content.isEmpty

def beginRecord (artifactId : Nat) (object : Specimen) : Bytes × JsonFields :=
  (ascii "artifact_begin", OrdMap.empty.emplaceAll ([
    (ascii "artifact_id", decimal artifactId),
    (ascii "file_type", jsonString (ascii object.fileType.name)),
    (ascii "mode", decimal 0o755),
    (ascii "path", byteValueJson object.path),
    (ascii "role", jsonString [])] ++ object.contentMembers))

def chunkRecord (artifactId : Nat) (object : Specimen) : Bytes × JsonFields :=
  (ascii "artifact_chunk", OrdMap.empty.emplaceAll [
    (ascii "artifact_id", decimal artifactId),
    (ascii "data", byteValueJson object.content),
    (ascii "index", ascii "0")])

def endRecord (artifactId : Nat) (object : Specimen) : Bytes × JsonFields :=
  (ascii "artifact_end", OrdMap.empty.emplaceAll [
    (ascii "artifact_id", decimal artifactId),
    (ascii "sha256", jsonString ((Sha256.hexdigest object.content).map octet)),
    (ascii "size", decimal object.content.length),
    (ascii "stable", ascii "true")])

/-- The group, its octets in one chunk. -/
def records (artifactId : Nat) (object : Specimen) : List (Bytes × JsonFields) :=
  object.beginRecord artifactId :: ((if object.chunked then [object.chunkRecord artifactId] else []) ++
    [object.endRecord artifactId])

end Specimen

def specimenRecords (objects : List Specimen) : List (Bytes × JsonFields) :=
  (objects.mapIdx fun artifactId object => object.records artifactId).flatten

def artifactCounts (objects : List Specimen) : List (RecordType × Nat) :=
  [(.header, 1), (.module, 1), (.artifactBegin, objects.length), (.artifactChunk, objects.countP Specimen.chunked),
    (.artifactEnd, objects.length)].filter fun count => decide (count.2 ≠ 0)

/-- The artifact a group is read as. -/
def Specimen.artifact (artifactId : Nat) (object : Specimen) : Artifact where
  artifactId := artifactId
  path := object.path
  components := object.path.splitOn slash
  fileType := object.fileType
  mode := 0o755
  role := []
  target := if object.fileType = .symlink then some object.content else none
  size := object.content.length
  sha256 := Sha256.hexdigest object.content

/-- A successful stream of a module and these artifacts. -/
def artifactStream (objects : List Specimen) : Bytes :=
  writtenStream (headerRecord .extract :: moduleRecord :: specimenRecords objects) (artifactCounts objects) true
    (totals 0 objects.length (objects.map fun object => object.content.length).sum 0)

/-- The stream of a specimen is accepted, as its artifacts. -/
def accepts (objects : List Specimen) : Bool :=
  (validate 1024 (artifactStream objects)).toOption.any fun summary =>
    decide (summary.command = some .extract) && summary.success &&
      decide (summary.artifacts = objects.mapIdx Specimen.artifact)

theorem exists_summary {objects : List Specimen} (h : accepts objects = true) :
    ∃ summary, validate 1024 (artifactStream objects) = .ok summary ∧ summary.command = some .extract ∧
      summary.success = true ∧ summary.artifacts = objects.mapIdx Specimen.artifact := by
  unfold accepts at h
  cases hvalid : validate 1024 (artifactStream objects) with
  | error error =>
    rw [hvalid] at h
    cases h
  | ok summary =>
    rw [hvalid] at h
    have hmet : (decide (summary.command = some .extract) && summary.success &&
      decide (summary.artifacts = objects.mapIdx Specimen.artifact)) = true := h
    rw [Bool.and_eq_true, Bool.and_eq_true, decide_eq_true_eq, decide_eq_true_eq] at hmet
    exact ⟨summary, rfl, hmet.1.1, hmet.1.2, hmet.2⟩

end GetBibleSword.Tool
