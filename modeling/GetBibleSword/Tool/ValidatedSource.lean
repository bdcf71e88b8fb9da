import GetBibleSword.Tool.ValidatedTree

/-!
# The second pass over what was validated

The records of an accepted stream, read again, begin each artifact once and in the order of the summary, and
give each file the octets its group was checked with.

* `Item.reading` : a record is read again as what the validator took it for;
* `Pass.deliver` : a whole group; `Validated.deliveries` : all of them;
* `Unlinking` : no artifact below an earlier link; `Validated.apart` : then none is begun below one;
* `Validated.delivered` : the stream delivers its own summary.
-/

namespace GetBibleSword.Tool
open GetBibleSword.Lib Posix

/-! ## Lines -/

def Item.reading : Item → Reading
  | .artifactBegin artifactId _ _ _ => .begin artifactId
  | .artifactChunk artifactId _ data => .chunk artifactId data
  | .artifactEnd artifactId _ _ _ => .finish artifactId
  | _ => .other

def Event.reading : Event → Reading
  | .item record => record.reading
  | .footer _ => .other

theorem memberId_eq {record : Dict} {artifactId : Nat} (h : dictGet record "artifact_id" = some (.int artifactId)) :
    memberId record = some (artifactId : Int) := by
  rw [memberId, h]
  rfl

/-- Each of the three tests of the loop tells its own type from the others. -/
theorem isText_type (type : RecordType) (name : String) :
    isText (some (.str (text type.name))) name = decide (type.name = name) := by
  rw [Bool.eq_iff_iff, isText_iff, decide_eq_true_eq, Option.some.injEq, Json.str.injEq, text_inj]

theorem recordReading_other {record : Dict} {type : RecordType}
    (htype : dictGet record "type" = some (.str (text type.name)))
    (hother : type ≠ .artifactBegin ∧ type ≠ .artifactChunk ∧ type ≠ .artifactEnd) :
    recordReading record = some .other := by
  rw [recordReading, htype]
  simp only [isText_type]
  cases type <;> first | rfl | simp at hother

/-- A record that passed its checks is read again as what it was. -/
theorem recordReading_item {type : RecordType} {record : Dict} {line : Nat} {item : Item}
    (htype : dictGet record "type" = some (.str (text type.name))) (h : itemOf type record line = .ok item) :
    recordReading record = some item.reading := by
  simp only [itemOf, bind_eq_ok, pure_eq_ok] at h
  obtain ⟨item', hitem, _, -, rfl⟩ := h
  obtain rfl := Validator.itemFields_type hitem
  cases item' with
  | artifactBegin artifactId fields target sizeExpected =>
    simp only [Item.type, itemFields, artifactBeginId, bind_eq_ok, pure_eq_ok, natural_eq_ok] at hitem
    obtain ⟨_, ⟨_, -, hid, -⟩, _, -, _, -, heq⟩ := hitem
    obtain ⟨rfl, -⟩ := Item.artifactBegin.inj heq
    rw [recordReading, htype]
    simp only [isText_type]
    rw [memberId_eq hid]
    rfl
  | artifactChunk artifactId index data =>
    simp only [Item.type, itemFields, chunkIds, bind_eq_ok, pure_eq_ok, natural_eq_ok] at hitem
    obtain ⟨_, ⟨_, -, _, ⟨hid, -⟩, _, -, rfl⟩, data', hdata, heq⟩ := hitem
    obtain ⟨rfl, -, rfl⟩ := Item.artifactChunk.inj heq
    rw [recordReading, htype]
    simp only [isText_type]
    rw [memberId_eq hid, Option.bind_some, chunkData_line hdata]
    rfl
  | artifactEnd artifactId size sha256 stable =>
    simp only [Item.type, itemFields, endId, bind_eq_ok, pure_eq_ok, natural_eq_ok] at hitem
    obtain ⟨_, ⟨_, -, hid, -⟩, _, -, heq⟩ := hitem
    obtain ⟨rfl, -⟩ := Item.artifactEnd.inj heq
    rw [recordReading, htype]
    simp only [isText_type]
    rw [memberId_eq hid]
    rfl
  | _ => exact recordReading_other htype (by simp [Item.type])

theorem readingOf_record {maximumRecordBytes sequence : Nat} {rawLine : Bytes} {type : RecordType} {record : Dict}
    (h : IsRecord maximumRecordBytes sequence rawLine type record) : readingOf rawLine = recordReading record := by
  rw [readingOf, parse_line (parseJsonObject_eq_ok.mpr h.parses : parseJsonObject rawLine.dropLast 0 = .ok record)]
  rfl

theorem ReadAs.readings {maximumRecordBytes sequence : Nat} {rawLines : List Bytes} {events : List Event}
    (h : ReadAs maximumRecordBytes sequence rawLines events) :
    rawLines.filterMap readingOf = events.map Event.reading := by
  induction h with
  | nil => rfl
  | item hrecord _ hitem _ ih =>
    rw [List.filterMap_cons, readingOf_record hrecord, recordReading_item hrecord.type hitem, ih]
    rfl
  | footer hrecord _ _ ih =>
    rw [List.filterMap_cons, readingOf_record hrecord, recordReading_other hrecord.type (by simp), ih]
    rfl

/-- The second pass splits the stream into the lines of the first one. -/
theorem fileLines_of_reads {maximumRecordBytes : Nat} {input : Bytes} {events : List Event}
    (h : ReadAs maximumRecordBytes 0 (rawLines input.length (maximumRecordBytes + 1) input) events) :
    fileLines input = rawLines input.length (maximumRecordBytes + 1) input := by
  obtain ⟨records, hlines, -, -⟩ := h.records
  obtain ⟨hraw, hstream⟩ := streamOf_rawLines (by omega) (Nat.le_refl _) hlines
  have hinput : (terminated (bodies input)).flatten = input := by
    rw [← hraw, flatten_rawLines (by omega) _ (Nat.le_refl _)]
  have hshort : ∀ body ∈ bodies input, lf ∉ body ∧ body.length < input.length + 1 := by
    intro body hbody
    have hmem : body ++ [lf] ∈ terminated (bodies input) := List.mem_map_of_mem hbody
    refine ⟨?_, ?_⟩
    · rw [← hraw] at hmem
      have hfree := lf_notMem_rawLines _ _ hmem
      rwa [List.dropLast_concat] at hfree
    · have hle : (body ++ [lf]).length ≤ (terminated (bodies input)).flatten.length :=
        (List.sublist_flatten_of_mem hmem).length_le
      rw [hinput, List.length_append] at hle
      simp only [List.length_cons, List.length_nil] at hle
      omega
  have hread := rawLines_terminated (bodies input) (length_terminated _) hshort
  rw [hinput] at hread
  rw [fileLines, hread, hraw]

/-! ## Groups -/

def Block.group? : Block → Option Group
  | .group g => some g
  | _ => none

def blockGroups (blocks : List Block) : List Group := blocks.filterMap Block.group?

theorem blockGroups_core (s : Shape) {blocks : List Block}
    (h : (blocks.filter fun block => !block.isDiagnostic) = s.core) : blockGroups blocks = s.groups := by
  have hsame : blockGroups (blocks.filter fun block => !block.isDiagnostic) = blockGroups blocks := by
    unfold blockGroups
    rw [List.filterMap_filter]
    congr 1
    ext block : 1
    cases block <;> rfl
  rw [← hsame, h, Shape.core]
  simp [blockGroups, List.filterMap_map, Function.comp_def, Block.group?]

/-- The pass behind a whole group. -/
def Pass.deliver (pass : Pass) (g : Group) : Pass where
  begun := g.artifact :: pass.begun
  holder := none
  content := Function.update pass.content g.artifactId (pass.content g.artifactId ++ g.chunks.flatten)

section Groups
variable {artifacts : List Artifact} {pass : Pass}

theorem foldl_next_chunks {a : Artifact} (artifactId : Int) (chunks : List Bytes) : ∀ {pass : Pass},
    pass.holder = some a →
    (chunks.map (Reading.chunk artifactId)).foldl (Pass.next artifacts) pass =
      { pass with content := Function.update pass.content a.artifactId (pass.content a.artifactId ++ chunks.flatten) } := by
  induction chunks with
  | nil =>
    intro pass _
    rw [List.flatten_nil, List.append_nil, Function.update_eq_self]
    rfl
  | cons data chunks ih =>
    intro pass hholder
    rw [List.map_cons, List.foldl_cons, Pass.next_chunk artifacts artifactId data hholder]
    refine Eq.trans (ih hholder) ?_
    simp only [Function.update_idem, Function.update_self, List.flatten_cons, List.append_assoc]

theorem Opened.readings (o : Opened) :
    o.items.map Item.reading = .begin o.artifactId :: o.chunks.map (Reading.chunk o.artifactId) := by
  rw [Opened.items, List.map_cons]
  refine congrArg (_ :: ·) (List.ext_getElem (by simp) fun i h h' => ?_)
  simp [Item.reading]

theorem foldl_next_group {g : Group} (hfind : findArtifact artifacts g.artifactId = some g.artifact)
    (hregular : g.chunks ≠ [] → g.fields.fileType = .regular) :
    (g.items.map Item.reading).foldl (Pass.next artifacts) pass = pass.deliver g := by
  rw [Group.items, List.map_append, Opened.readings, List.foldl_append, List.foldl_cons, pass.next_begin hfind]
  by_cases hchunks : g.chunks = []
  · rw [hchunks, Pass.deliver, hchunks, List.flatten_nil, List.append_nil, Function.update_eq_self]
    rfl
  · have htype : g.artifact.fileType = .regular := hregular hchunks
    have hbegin : (pass.begin g.artifact).holder = some g.artifact := by rw [Pass.begin, if_pos htype]
    rw [foldl_next_chunks _ _ hbegin]
    rfl

theorem other_of_no_group {block : Block} (h : block.group? = none) : block.items.map Item.reading = [.other] := by
  cases block <;> first | rfl | cases h

/-- The groups are those of the artifacts, with chunks in files only. -/
def Delivering (artifacts : List Artifact) (groups : List Group) : Prop :=
  ∀ g ∈ groups, findArtifact artifacts g.artifactId = some g.artifact ∧ (g.chunks ≠ [] → g.fields.fileType = .regular)

theorem foldl_next_blocks (blocks : List Block) : ∀ {pass : Pass}, Delivering artifacts (blockGroups blocks) →
    ((blocks.flatMap Block.items).map Item.reading).foldl (Pass.next artifacts) pass =
      (blockGroups blocks).foldl Pass.deliver pass := by
  induction blocks with
  | nil => exact fun _ => rfl
  | cons block blocks ih =>
    intro pass h
    rw [List.flatMap_cons, List.map_append, List.foldl_append]
    cases hgroup : block.group? with
    | none =>
      have hrest : blockGroups (block :: blocks) = blockGroups blocks := by
        rw [blockGroups, List.filterMap_cons_none hgroup, blockGroups]
      rw [other_of_no_group hgroup, hrest]
      exact ih (hrest ▸ h)
    | some g =>
      have hrest : blockGroups (block :: blocks) = g :: blockGroups blocks := by
        rw [blockGroups, List.filterMap_cons_some hgroup, blockGroups]
      rw [hrest] at h ⊢
      obtain ⟨⟨hfind, hregular⟩, h⟩ := List.forall_mem_cons.mp h
      have hitems : block.items = g.items := by
        cases block <;> cases hgroup
        rfl
      rw [hitems, foldl_next_group hfind hregular, List.foldl_cons]
      exact ih h

/-! ## What groups deliver -/

theorem foldl_deliver_begun (groups : List Group) : ∀ {pass : Pass},
    (groups.foldl Pass.deliver pass).begun = (groups.map Group.artifact).reverse ++ pass.begun := by
  induction groups with
  | nil => exact fun {pass} => rfl
  | cons g groups ih =>
    intro pass
    rw [List.foldl_cons, ih, List.map_cons, List.reverse_cons, List.append_assoc]
    rfl

theorem foldl_deliver_of_ne {artifactId : Nat} (groups : List Group) : ∀ {pass : Pass},
    (∀ g ∈ groups, g.artifactId ≠ artifactId) →
    (groups.foldl Pass.deliver pass).content artifactId = pass.content artifactId := by
  induction groups with
  | nil => exact fun _ => rfl
  | cons g groups ih =>
    intro pass h
    obtain ⟨hne, hrest⟩ := List.forall_mem_cons.mp h
    rw [List.foldl_cons, ih hrest]
    exact Function.update_of_ne hne.symm _ _

theorem foldl_deliver_content (groups : List Group) : ∀ {pass : Pass},
    (groups.map fun g => g.artifactId).Nodup → ∀ g ∈ groups,
    (groups.foldl Pass.deliver pass).content g.artifactId = pass.content g.artifactId ++ g.chunks.flatten := by
  induction groups with
  | nil => exact fun _ g hg => absurd hg List.not_mem_nil
  | cons first groups ih =>
    intro pass hnodup g hg
    obtain ⟨hfirst, hnodup⟩ := List.nodup_cons.mp hnodup
    rw [List.foldl_cons]
    rcases List.mem_cons.mp hg with rfl | hg
    · rw [foldl_deliver_of_ne groups fun other hother heq => hfirst (List.mem_map.mpr ⟨other, hother, heq⟩)]
      exact Function.update_self _ _ _
    · rw [ih hnodup g hg]
      have hne : g.artifactId ≠ first.artifactId := fun heq => hfirst (List.mem_map.mpr ⟨g, hg, heq⟩)
      exact congrArg (· ++ _) (Function.update_of_ne hne _ _)

/-! ## Links -/

theorem Pass.apart_append (readings more : List Reading) : ∀ {pass : Pass},
    Pass.Apart artifacts pass readings → Pass.Apart artifacts (readings.foldl (Pass.next artifacts) pass) more →
    Pass.Apart artifacts pass (readings ++ more) := by
  induction readings with
  | nil => exact fun _ h => h
  | cons reading readings ih =>
    intro pass h hmore
    exact ⟨h.1, ih h.2 hmore⟩

theorem Pass.apart_of_no_begin (readings : List Reading) (h : ∀ artifactId, .begin artifactId ∉ readings) :
    ∀ {pass : Pass}, Pass.Apart artifacts pass readings := by
  induction readings with
  | nil => exact fun {pass} => trivial
  | cons reading readings ih =>
    intro pass
    refine ⟨fun artifactId a hbegin => absurd ?_ (h artifactId), ih fun artifactId hmem => ?_⟩
    · rw [hbegin]
      exact List.mem_cons_self
    · exact h artifactId (List.mem_cons_of_mem _ hmem)

theorem apart_group {g : Group} (hfind : findArtifact artifacts g.artifactId = some g.artifact)
    (hun : Unlinked pass.begun g.artifact) : Pass.Apart artifacts pass (g.items.map Item.reading) := by
  rw [Group.items, List.map_append, Opened.readings, List.cons_append]
  refine ⟨fun artifactId a hbegin ha => ?_, Pass.apart_of_no_begin _ fun artifactId hmem => ?_⟩
  · obtain rfl := Reading.begin.inj hbegin
    rw [Option.some.inj (ha.symm.trans hfind)]
    exact hun
  · simp [Item.reading] at hmem

/-- No artifact lies below a link that comes before it. -/
def Unlinking (artifacts : List Artifact) : Prop :=
  artifacts.Pairwise fun a b => a.fileType = .symlink → ¬ a.components <+: b.components

theorem apart_blocks (blocks : List Block) : ∀ {pass : Pass}, Delivering artifacts (blockGroups blocks) →
    Unlinking ((blockGroups blocks).map Group.artifact) →
    (∀ g ∈ blockGroups blocks, Unlinked pass.begun g.artifact) →
    Pass.Apart artifacts pass ((blocks.flatMap Block.items).map Item.reading) := by
  induction blocks with
  | nil => exact fun _ _ _ => trivial
  | cons block blocks ih =>
    intro pass h hun hbegun
    rw [List.flatMap_cons, List.map_append]
    cases hgroup : block.group? with
    | none =>
      have hrest : blockGroups (block :: blocks) = blockGroups blocks := by
        rw [blockGroups, List.filterMap_cons_none hgroup, blockGroups]
      rw [hrest] at h hun hbegun
      rw [other_of_no_group hgroup]
      exact ⟨nofun, ih h hun hbegun⟩
    | some g =>
      have hrest : blockGroups (block :: blocks) = g :: blockGroups blocks := by
        rw [blockGroups, List.filterMap_cons_some hgroup, blockGroups]
      rw [hrest] at h hun hbegun
      obtain ⟨⟨hfind, hregular⟩, h⟩ := List.forall_mem_cons.mp h
      obtain ⟨hfirst, hun⟩ := List.pairwise_cons.mp hun
      obtain ⟨hg, hbegun⟩ := List.forall_mem_cons.mp hbegun
      have hitems : block.items = g.items := by
        cases block <;> cases hgroup
        rfl
      rw [hitems]
      refine Pass.apart_append _ _ (apart_group hfind hg) ?_
      rw [foldl_next_group hfind hregular]
      refine ih h hun fun g' hg' b hb htype hpre => ?_
      rcases List.mem_cons.mp hb with rfl | hb
      · exact absurd hpre (hfirst _ (List.mem_map_of_mem hg') htype)
      · exact hbegun g' hg' b hb htype hpre

end Groups

/-! ## An accepted stream -/

theorem Sound.find {artifacts : List Artifact} (h : Sound artifacts) {a : Artifact} (ha : a ∈ artifacts) :
    findArtifact artifacts a.artifactId = some a := by
  have hfound : (findArtifact artifacts a.artifactId).isSome = true :=
    List.find?_isSome.mpr ⟨a, List.mem_reverse.mpr ha, beq_self_eq_true _⟩
  obtain ⟨b, hb⟩ := Option.isSome_iff_exists.mp hfound
  obtain ⟨hmem, hid⟩ := findArtifact_eq_some hb
  rw [hb, h.eq_of_id hmem ha (Int.ofNat_inj.mp hid)]

section Validated
variable {maximumRecordBytes : Nat} {input : Bytes} {summary : ValidationSummary} {fields : HeaderFields}
  {items : List Item} {f : FooterFields} {t : Shape}
  (h : Validated maximumRecordBytes input summary fields items f t) (hcommand : summary.command = some .extract)
include h

theorem Validated.readings :
    (fileLines input).filterMap readingOf = .other :: (items.map Item.reading ++ [.other]) := by
  rw [fileLines_of_reads h.reads, h.reads.readings]
  simp [Event.reading, Item.reading, Function.comp_def]

include hcommand

theorem Validated.groups : GroupsOk (fields.chunkSize.getD 0) t.groups ∧
    ∃ blocks, items = blocks.flatMap Block.items ∧ blockGroups blocks = t.groups := by
  have hextract : fields.command = .extract := Option.some.inj (h.command.symm.trans hcommand)
  obtain ⟨hok, blocks, hitems, hcore⟩ := h.run.reads hextract (Shape.ok_start _) ⟨[], rfl, rfl⟩
  refine ⟨hok.groups, blocks, ?_, blockGroups_core t hcore⟩
  rw [h.ended] at hitems
  exact hitems.trans (List.append_nil _)

theorem Validated.delivering : Delivering summary.artifacts t.groups := by
  obtain ⟨hok, -⟩ := h.groups hcommand
  intro g hg
  have hmem : g.artifact ∈ summary.artifacts := by
    rw [h.artifacts]
    exact List.mem_map_of_mem hg
  exact ⟨(h.sound hcommand).find hmem, (hok.valid g hg).chunked.regular⟩

/-- The stream delivers its groups, one after another. -/
theorem Validated.deliveries : deliveries summary.artifacts input = t.groups.foldl Pass.deliver .start := by
  obtain ⟨-, blocks, hitems, hgroups⟩ := h.groups hcommand
  have hdelivering := h.delivering hcommand
  rw [← hgroups] at hdelivering
  rw [Tool.deliveries, h.readings, List.foldl_cons, List.foldl_append, hitems, ← hgroups]
  exact foldl_next_blocks blocks hdelivering

theorem Validated.apart (hun : Unlinking summary.artifacts) :
    Pass.Apart summary.artifacts .start ((fileLines input).filterMap readingOf) := by
  obtain ⟨-, blocks, hitems, hgroups⟩ := h.groups hcommand
  have hdelivering := h.delivering hcommand
  rw [h.artifacts] at hun
  rw [← hgroups] at hdelivering hun
  rw [h.readings, hitems]
  refine ⟨nofun, Pass.apart_append _ _ (apart_blocks blocks hdelivering hun ?_) ⟨nofun, trivial⟩⟩
  exact fun g hg b hb => absurd hb List.not_mem_nil

theorem Validated.begun : (Tool.deliveries summary.artifacts input).begun = summary.artifacts.reverse := by
  rw [h.deliveries hcommand, foldl_deliver_begun, h.artifacts, Pass.start, List.append_nil]

/-- Every file gets the octets its group was checked with. -/
theorem Validated.content {a : Artifact} (ha : a ∈ summary.artifacts) (htype : a.fileType = .regular) :
    ((Tool.deliveries summary.artifacts input).content a.artifactId).length = a.size ∧
      Sha256.hexdigest ((Tool.deliveries summary.artifacts input).content a.artifactId) = a.sha256 := by
  obtain ⟨hok, -⟩ := h.groups hcommand
  rw [h.artifacts] at ha
  obtain ⟨g, hg, rfl⟩ := List.mem_map.mp ha
  have hcontent : (Tool.deliveries summary.artifacts input).content g.artifact.artifactId = g.chunks.flatten := by
    rw [h.deliveries hcommand]
    exact foldl_deliver_content t.groups (hok.ids ▸ List.nodup_range) g hg
  obtain ⟨bytes, hbytes, hsize, hsha256, -⟩ := (hok.valid g hg).truthful
  have hregular : g.content = some g.chunks.flatten := by
    have hfile : g.fields.fileType = .regular := htype
    rw [Opened.content, hfile]
  obtain rfl := Option.some.inj (hregular.symm.trans hbytes)
  rw [hcontent]
  exact ⟨hsize.symm, hsha256.symm⟩

/-- Behind a whole pass over it the stream has delivered what its summary says. -/
theorem Validated.delivered {env : Env} {stage : Stage env} {k₀ : Kernel} {s : Locals}
    (hbuilt : Built stage summary.artifacts k₀ (Tool.deliveries summary.artifacts input) s) :
    Delivered summary.artifacts (Tool.deliveries summary.artifacts input) := by
  have hsound := h.sound hcommand
  have hbegun : ∀ a ∈ summary.artifacts, a ∈ (Tool.deliveries summary.artifacts input).begun := by
    intro a ha
    rw [h.begun hcommand]
    exact List.mem_reverse.mpr ha
  refine ⟨fun a ha htype b hb hpre => ?_, fun a ha => .inl (hbegun a ha), fun a ha htype => h.content hcommand ha htype⟩
  by_contra hne
  obtain ⟨rest, hrest⟩ := hpre
  have hnonempty : rest ≠ [] := by
    rintro rfl
    rw [List.append_nil] at hrest
    exact hne (hsound.eq_of_components ha hb hrest)
  have hthere := (hbuilt.tree.stands b (hbegun b hb)).ne_none
  rw [← hrest, ← List.append_assoc] at hthere
  obtain ⟨mode, hmode⟩ := FileSystem.dir_of_below hthere hnonempty
  obtain ⟨target, -, hlink⟩ := (standing_symlink htype).mp (hbuilt.tree.stands a (hbegun a ha))
  rw [hlink] at hmode
  cases hmode

end Validated

end GetBibleSword.Tool
