import GetBibleSword.Lib.Posix.Ordinary
import GetBibleSword.Tool.Failure

/-!
# The second pass goes on

On an ordinary file system a record that has what it needs is built, and the pass goes on.

* `Follows`, `ParentFirst` : an artifact that can be built behind another one; all of them can;
* `Reading.Fits`, `Fitting` : what a record needs besides; the records of an accepted stream have it;
* `owned_*` : a step leaves the directories of the stage to the process;
* `reassembleLine_eq` : a line is done as what it is read as;
* `returns_*` : a step that has what it needs; `completes_lines` : the loop.
-/

namespace GetBibleSword.Tool
open GetBibleSword.Lib Posix

/-! ## The order of artifacts -/

/-- The second can be built where the first stands. -/
def Follows (b a : Artifact) : Prop :=
  ¬ a.components <+: b.components ∧ (b.components <+: a.components → b.fileType = .directory)

def ParentFirst (artifacts : List Artifact) : Prop := artifacts.Pairwise Follows

instance (b a : Artifact) : Decidable (Follows b a) := inferInstanceAs (Decidable (_ ∧ _))

instance (artifacts : List Artifact) : Decidable (ParentFirst artifacts) :=
  inferInstanceAs (Decidable (artifacts.Pairwise _))

section Begun
variable {artifacts : List Artifact} {pass : Pass}

theorem Pass.begun_suffix (readings : List Reading) : ∀ {pass : Pass},
    pass.begun <:+ (readings.foldl (Pass.next artifacts) pass).begun := by
  induction readings with
  | nil => exact fun {pass} => List.suffix_rfl
  | cons reading readings ih =>
    intro pass
    refine List.IsSuffix.trans ?_ (@ih (pass.next artifacts reading))
    cases reading with
    | begin artifactId =>
      unfold Pass.next
      dsimp only
      cases findArtifact artifacts artifactId with
      | none => exact List.suffix_rfl
      | some a => exact List.suffix_cons _ _
    | chunk artifactId data =>
      unfold Pass.next
      dsimp only
      cases pass.holder with
      | none => exact List.suffix_rfl
      | some a => exact List.suffix_rfl
    | finish artifactId => exact List.suffix_rfl
    | other => exact List.suffix_rfl

theorem parentFirst_of_suffix {begun begun' : List Artifact} (h : ParentFirst begun'.reverse) (hsuffix : begun <:+ begun') :
    ParentFirst begun.reverse :=
  List.Pairwise.sublist hsuffix.sublist.reverse h

theorem parentFirst_cons {begun : List Artifact} {a : Artifact} :
    ParentFirst (a :: begun).reverse ↔ ParentFirst begun.reverse ∧ ∀ b ∈ begun, Follows b a := by
  rw [ParentFirst, List.reverse_cons, List.pairwise_append]
  simp [ParentFirst]

end Begun

/-! ## What a record needs -/

/-- The number of the active artifact behind a record. -/
def Reading.active (active : Option Int) : Reading → Option Int
  | .begin artifactId => some artifactId
  | .chunk _ _ => active
  | .finish _ => none
  | .other => active

section Fits
variable (artifacts : List Artifact)

/-- Artifacts are known by their numbers and do not overlap, and octets are for the active one. -/
def Reading.Fits (pass : Pass) (active : Option Int) : Reading → Prop
  | .begin artifactId => findArtifact artifacts artifactId ≠ none ∧ pass.holder = none
  | .chunk artifactId _ => pass.holder ≠ none ∧ active = some artifactId
  | .finish artifactId => findArtifact artifacts artifactId ≠ none ∧
      ∀ a, pass.holder = some a → findArtifact artifacts artifactId = some a
  | .other => True

def Fitting : Pass → Option Int → List Reading → Prop
  | _, _, [] => True
  | pass, active, reading :: readings =>
    reading.Fits artifacts pass active ∧ Fitting (pass.next artifacts reading) (reading.active active) readings

variable {artifacts} {pass : Pass} {active : Option Int}

theorem fitting_append (readings more : List Reading) : ∀ {pass : Pass} {active : Option Int},
    Fitting artifacts pass active readings →
    Fitting artifacts (readings.foldl (Pass.next artifacts) pass) (readings.foldl Reading.active active) more →
    Fitting artifacts pass active (readings ++ more) := by
  induction readings with
  | nil => exact fun _ h => h
  | cons reading readings ih => exact fun h hmore => ⟨h.1, ih h.2 hmore⟩

theorem fitting_chunks {a : Artifact} {artifactId : Int} (chunks : List Bytes) : ∀ {pass : Pass},
    pass.holder = some a → Fitting artifacts pass (some artifactId) (chunks.map (Reading.chunk artifactId)) := by
  induction chunks with
  | nil => exact fun _ => trivial
  | cons data chunks ih =>
    intro pass hholder
    refine ⟨⟨by rw [hholder]; exact Option.some_ne_none _, rfl⟩, ?_⟩
    rw [Pass.next_chunk artifacts artifactId data hholder]
    exact ih hholder

/-- The records of a group, whatever was active before it. -/
theorem fitting_group {g : Group} (hfind : findArtifact artifacts g.artifactId = some g.artifact)
    (hregular : g.chunks ≠ [] → g.fields.fileType = .regular) (hholder : pass.holder = none) :
    Fitting artifacts pass active (g.items.map Item.reading) := by
  have hknown : findArtifact artifacts g.artifactId ≠ none := by
    rw [hfind]
    exact Option.some_ne_none _
  have hopened := pass.next_begin hfind
  have hkept : ∀ a, ((g.chunks.map (Reading.chunk g.artifactId)).foldl (Pass.next artifacts)
      (pass.next artifacts (.begin g.artifactId))).holder = some a → findArtifact artifacts g.artifactId = some a := by
    intro a
    by_cases htype : g.artifact.fileType = .regular
    · have hbegin : (pass.begin g.artifact).holder = some g.artifact := by rw [Pass.begin, if_pos htype]
      rw [hopened, foldl_next_chunks _ _ hbegin, hfind]
      exact fun h => hbegin.symm.trans h
    · have hchunks : g.chunks = [] := by
        by_contra hne
        exact htype (hregular hne)
      rw [hchunks, hopened, List.map_nil, List.foldl_nil, Pass.begin, if_neg htype, hholder]
      exact fun h => absurd h (Option.some_ne_none _).symm
  rw [Group.items, List.map_append, Opened.readings, List.cons_append]
  refine ⟨⟨hknown, hholder⟩, fitting_append _ _ ?_ ⟨⟨hknown, hkept⟩, trivial⟩⟩
  rw [hopened]
  by_cases hchunks : g.chunks = []
  · rw [hchunks]
    exact trivial
  · have htype : g.artifact.fileType = .regular := hregular hchunks
    exact fitting_chunks (a := g.artifact) g.chunks (by rw [Pass.begin, if_pos htype])

theorem fitting_blocks (blocks : List Block) : ∀ {pass : Pass} {active : Option Int},
    Delivering artifacts (blockGroups blocks) → pass.holder = none →
    Fitting artifacts pass active ((blocks.flatMap Block.items).map Item.reading) := by
  induction blocks with
  | nil => exact fun _ _ => trivial
  | cons block blocks ih =>
    intro pass active h hholder
    rw [List.flatMap_cons, List.map_append]
    cases hgroup : block.group? with
    | none =>
      have hrest : blockGroups (block :: blocks) = blockGroups blocks := by
        rw [blockGroups, List.filterMap_cons_none hgroup, blockGroups]
      rw [other_of_no_group hgroup]
      exact ⟨trivial, ih (hrest ▸ h) hholder⟩
    | some g =>
      have hrest : blockGroups (block :: blocks) = g :: blockGroups blocks := by
        rw [blockGroups, List.filterMap_cons_some hgroup, blockGroups]
      rw [hrest] at h
      obtain ⟨⟨hfind, hregular⟩, h⟩ := List.forall_mem_cons.mp h
      have hitems : block.items = g.items := by
        cases block <;> cases hgroup
        rfl
      rw [hitems]
      refine fitting_append _ _ (fitting_group hfind hregular hholder) ?_
      rw [foldl_next_group hfind hregular]
      exact ih h rfl

theorem Validated.fitting {maximumRecordBytes : Nat} {input : Bytes} {summary : ValidationSummary}
    {fields : HeaderFields} {items : List Item} {f : FooterFields} {t : Shape}
    (h : Validated maximumRecordBytes input summary fields items f t) (hcommand : summary.command = some .extract) :
    Fitting summary.artifacts .start none ((fileLines input).filterMap readingOf) := by
  obtain ⟨-, blocks, hitems, hgroups⟩ := h.groups hcommand
  have hdelivering := h.delivering hcommand
  rw [← hgroups] at hdelivering
  rw [h.readings, hitems]
  exact ⟨trivial, fitting_append _ _ (fitting_blocks blocks hdelivering rfl) ⟨trivial, trivial⟩⟩

end Fits

/-! ## What a step leaves -/

section Owned
variable {env : Env} {request : Request} {stage : Stage env} {artifacts : List Artifact} {k₀ : Kernel} {pass : Pass}
  {record : Dict} {active : Option Int}

theorem keeps_kernel {α : Type} {I : Kernel → Prop} {call : Call α} (h : Keeps I call fun _ => True) :
    Keeps (fun s => I s.kernel) (system call) fun _ => True := by
  intro s hs
  have hcall := h s.kernel hs
  unfold system
  cases hrun : call s.kernel with
  | ok a k =>
    rw [hrun] at hcall
    exact hcall
  | error error k =>
    rw [hrun] at hcall
    exact hcall

/-- A call leaves the local variables alone. -/
theorem keeps_locals {α : Type} {P : Locals → Prop} (hP : ∀ s k, P s → P { s with kernel := k }) (call : Call α) :
    Keeps P (system call) fun _ => True := by
  intro s hs
  unfold system
  cases call s.kernel with
  | ok a k => exact ⟨trivial, hP s k hs⟩
  | error error k => exact hP s k hs

/-- Whatever the calls keep that make a new object. -/
theorem keeps_begin {I : Kernel → Prop}
    (hmkdir : ∀ path mode, OwnerAll mode → Keeps I (mkdir env path mode) fun _ => True)
    (hcreate : ∀ path, Keeps I (createFile env path 0o600) fun _ => True)
    (hlink : ∀ target path, Keeps I (symlink env target path) fun _ => True) (record : Dict) :
    Keeps (fun s => I s.kernel) (beginArtifact env request artifacts record) fun _ => True := by
  have hmakedirs : ∀ path existOk, Keeps I (makedirs env path 0o700 existOk) fun _ => True :=
    fun path existOk => keeps_makedirsOf (C := OwnerAll) hmkdir (by decide) existOk _ (by decide)
  refine Keeps.bind (keeps_recordId record) fun activeId _ => ?_
  refine Keeps.bind (Keeps.modify fun s hs => hs) fun _ _ => ?_
  refine Keeps.bind (keeps_artifactById activeId) fun artifact _ => ?_
  refine Keeps.bind (keeps_kernel (hmakedirs _ _)) fun _ _ => ?_
  cases artifact.fileType with
  | directory => exact Keeps.bind (keeps_kernel (hmakedirs _ _)) fun _ _ => Keeps.modify fun s hs => hs
  | regular => exact Keeps.bind (keeps_kernel (hcreate _)) fun descriptor _ => Keeps.modify fun s hs => hs
  | symlink => exact Keeps.bind (keeps_python _) fun target _ => keeps_kernel (hlink _ _)

theorem owned_begin (hordinary : env.Ordinary) (record : Dict) :
    Keeps (fun s => stage.Owned s.kernel.fs) (beginArtifact env request artifacts record) fun _ => True := by
  refine keeps_begin (I := fun k => stage.Owned k.fs) (fun path mode hmode => Stage.owned_mkdir hordinary path hmode)
    (fun path => ?_) (fun target path => Stage.owned_symlink _ _) record
  exact Stage.owned_addEntry fun mode hfile => by cases hfile

theorem owned_writeAll (loc : Loc) (fuel : Nat) : ∀ {data : Bytes},
    Keeps (fun k => stage.Owned k.fs) (writeAll env loc fuel data) fun _ => True := by
  induction fuel with
  | zero => exact fun {data} => Keeps.pure trivial
  | succ fuel ih =>
    intro data
    rw [writeAll]
    by_cases hdata : data = []
    · rw [if_pos hdata]
      exact Keeps.pure trivial
    · rw [if_neg hdata]
      refine Keeps.bind (Stage.owned_writeSome _ _) fun written _ => ?_
      by_cases hwritten : written = 0
      · rw [if_pos hwritten]
        exact Keeps.throw _
      · rw [if_neg hwritten]
        exact ih

theorem owned_chunk (record : Dict) (lineNumber : Nat) :
    Keeps (fun s => stage.Owned s.kernel.fs) (writeChunk env record lineNumber) fun _ => True := by
  refine Keeps.bind Keeps.get fun s _ => ?_
  cases s.fileDescriptor with
  | none => exact Keeps.throw _
  | some descriptor =>
    refine Keeps.bind (keeps_recordId record) fun artifactId _ => ?_
    by_cases hactive : s.activeId ≠ some artifactId
    · rw [if_pos hactive]
      exact Keeps.throw _
    · rw [if_neg hactive]
      exact Keeps.bind (keeps_python _) fun data _ => keeps_kernel (owned_writeAll _ _)

/-- The mode that is set is that of a file. -/
theorem owned_finish (artifact : Artifact) :
    Triple (fun s => Built stage artifacts k₀ pass s ∧ stage.Owned s.kernel.fs) (finishFile env request artifact)
      (fun _ s => stage.Owned s.kernel.fs) fun _ _ => True := by
  apply Triple.get
  intro s hs
  obtain ⟨h, howned⟩ := hs
  have hholder := h.descriptor
  cases hdescriptor : s.fileDescriptor with
  | none => exact Triple.pure fun t ht => ht ▸ howned
  | some descriptor =>
    rw [hdescriptor, eq_comm, Option.map_eq_some_iff] at hholder
    obtain ⟨a, ha, rfl⟩ := hholder
    obtain ⟨hbegun, htype⟩ := h.held a ha
    obtain ⟨old, hnode⟩ := (standing_regular htype).mp (h.tree.stands a hbegun)
    refine Triple.bind ((triple_system _ s).conseq (fun _ h => h) (fun _ _ h => h) fun _ _ _ => trivial) fun _ =>
      Triple.each fun t ht => ?_
    obtain ⟨k, hsync, rfl⟩ := ht
    have hstill := (@triple_tick env .fsync s.kernel).ok rfl hsync
    refine Triple.bind ((triple_system _ _).conseq (fun _ h => h) (fun _ _ h => h) fun _ _ _ => trivial) fun _ =>
      Triple.each fun t ht => ?_
    obtain ⟨k', hmode, rfl⟩ := ht
    obtain ⟨node, hold, hchanged⟩ := (triple_changeMode _ _ k).ok rfl hmode
    rw [hstill.fs, hnode] at hold
    obtain rfl := Option.some.inj hold
    have howned' : stage.Owned k'.fs :=
      (howned.of_eq hstill.fs).changed hchanged fun _ mode hdir => by cases hdir
    refine Triple.bind ((triple_close _ _).conseq (fun _ h => h) (fun _ _ h => h) fun _ _ _ => trivial) fun _ =>
      Triple.modify fun t ht => ?_
    obtain ⟨k'', hclosed, rfl⟩ := ht
    exact howned'.of_eq hclosed.fs

theorem owned_end (record : Dict) :
    Triple (fun s => Built stage artifacts k₀ pass s ∧ stage.Owned s.kernel.fs)
      (endArtifact env request artifacts record) (fun _ s => stage.Owned s.kernel.fs) fun _ _ => True := by
  refine Triple.bind ((keeps_recordId record).triple.conseq (fun _ h => h) (fun _ _ h => h.2) fun _ _ _ => trivial)
    fun artifactId => ?_
  refine Triple.bind ((keeps_artifactById artifactId).triple.conseq (fun _ h => h) (fun _ _ h => h.2)
    fun _ _ _ => trivial) fun artifact => ?_
  exact Triple.bind (owned_finish artifact) fun _ => Triple.modify fun s hs => hs

theorem owned_line (hordinary : env.Ordinary) (rawLine : Bytes) (lineNumber : Nat) :
    Triple (fun s => Built stage artifacts k₀ pass s ∧ stage.Owned s.kernel.fs)
      (reassembleLine env request artifacts rawLine lineNumber) (fun _ s => stage.Owned s.kernel.fs) fun _ _ => True := by
  refine Triple.bind ((keeps_python _).triple.conseq (fun _ h => h) (fun _ _ h => h.2) fun _ _ _ => trivial)
    fun record => ?_
  refine Triple.bind ((keeps_python _).triple.conseq (fun _ h => h) (fun _ _ h => h.2) fun _ _ _ => trivial)
    fun recordType => ?_
  by_cases hbegin : isText (some recordType) "artifact_begin" = true
  · rw [if_pos hbegin]
    exact (owned_begin hordinary record).triple.conseq (fun _ h => h.2) (fun _ _ h => h.2) fun _ _ _ => trivial
  rw [if_neg hbegin]
  by_cases hchunk : isText (some recordType) "artifact_chunk" = true
  · rw [if_pos hchunk]
    exact (owned_chunk record lineNumber).triple.conseq (fun _ h => h.2) (fun _ _ h => h.2) fun _ _ _ => trivial
  rw [if_neg hchunk]
  by_cases hend : isText (some recordType) "artifact_end" = true
  · rw [if_pos hend]
    exact owned_end record
  · rw [if_neg hend]
    exact Triple.pure fun s hs => hs.2

end Owned

/-! ## Records that can be read -/

section Read
variable {artifacts : List Artifact} {record : Dict}

theorem recordId_eq {artifactId : Int} (h : memberId record = some artifactId) : recordId record = pure artifactId := by
  obtain ⟨value, hvalue, hint⟩ := Option.bind_eq_some_iff.mp h
  have hitem : dictItem record "artifact_id" = .ok value := dictItem_eq_ok.mpr hvalue
  rw [recordId, hitem]
  show (pure value >>= _) = _
  rw [pure_bind, hint]

theorem artifactById_eq {artifactId : Int} {a : Artifact} (h : findArtifact artifacts artifactId = some a) :
    artifactById artifacts artifactId = pure a := by
  rw [artifactById, h]

/-- What is done with a record, by what it is read as. -/
def Reading.step (env : Env) (request : Request) (artifacts : List Artifact) (record : Dict) (lineNumber : Nat) :
    Reading → Reassembly Unit
  | .begin _ => beginArtifact env request artifacts record
  | .chunk _ _ => writeChunk env record lineNumber
  | .finish _ => endArtifact env request artifacts record
  | .other => pure ()

/-- The members that are read again. -/
def Reading.Of (record : Dict) : Reading → Prop
  | .begin artifactId => memberId record = some artifactId
  | .chunk artifactId data => memberId record = some artifactId ∧ ∀ lineNumber, chunkData record lineNumber = .ok data
  | .finish artifactId => memberId record = some artifactId
  | .other => True

/-- Every line of a stream that was accepted can be read. -/
theorem ReadAs.read {maximumRecordBytes sequence : Nat} {rawLines : List Bytes} {events : List Event}
    (h : ReadAs maximumRecordBytes sequence rawLines events) : ∀ rawLine ∈ rawLines, readingOf rawLine ≠ none := by
  induction h with
  | nil => exact fun rawLine hmem => absurd hmem List.not_mem_nil
  | item hrecord _ hitem _ ih =>
    refine List.forall_mem_cons.mpr ⟨?_, ih⟩
    rw [readingOf_record hrecord, recordReading_item hrecord.type hitem]
    exact Option.some_ne_none _
  | footer hrecord _ _ ih =>
    refine List.forall_mem_cons.mpr ⟨?_, ih⟩
    rw [readingOf_record hrecord, recordReading_other hrecord.type (by simp)]
    exact Option.some_ne_none _

theorem chunkData_any {data : Bytes} (h : (chunkData record 0).toOption = some data) (lineNumber : Nat) :
    chunkData record lineNumber = .ok data := by
  cases hdata : chunkData record 0 with
  | error error =>
    rw [hdata] at h
    cases h
  | ok data' =>
    rw [hdata] at h
    obtain rfl := Option.some.inj h
    unfold chunkData byteValue at hdata ⊢
    simp only [bind_eq_ok, dictItem_eq_ok, decodeByteValue_eq_ok] at hdata ⊢
    exact hdata

theorem reassembleLine_eq {env : Env} {request : Request} {rawLine : Bytes} {reading : Reading}
    (h : readingOf rawLine = some reading) (lineNumber : Nat) : ∃ record, reading.Of record ∧
      reassembleLine env request artifacts rawLine lineNumber = reading.step env request artifacts record lineNumber := by
  obtain ⟨record, hparse, hread⟩ := Option.bind_eq_some_iff.mp h
  have hline : parseJsonObject rawLine.dropLast lineNumber = .ok record := by
    cases hrecord : parseJsonObject rawLine.dropLast 0 with
    | error error =>
      rw [hrecord] at hparse
      cases hparse
    | ok record' =>
      rw [hrecord] at hparse
      obtain rfl := Option.some.inj hparse
      exact parseJsonObject_eq_ok.mpr (parseJsonObject_eq_ok.mp hrecord)
  unfold recordReading at hread
  cases htype : dictGet record "type" with
  | none =>
    rw [htype] at hread
    cases hread
  | some recordType =>
    rw [htype] at hread
    dsimp only at hread
    have hitem : dictItem record "type" = .ok recordType := dictItem_eq_ok.mpr htype
    have hrun : reassembleLine env request artifacts rawLine lineNumber =
        if isText (some recordType) "artifact_begin" then beginArtifact env request artifacts record
        else if isText (some recordType) "artifact_chunk" then writeChunk env record lineNumber
        else if isText (some recordType) "artifact_end" then endArtifact env request artifacts record
        else pure () := by
      rw [reassembleLine, hline]
      show (pure record >>= _) = _
      rw [pure_bind, hitem]
      show (pure recordType >>= _) = _
      rw [pure_bind]
    refine ⟨record, ?_⟩
    rw [hrun]
    by_cases hbegin : isText (some recordType) "artifact_begin" = true
    · rw [if_pos hbegin] at hread
      obtain ⟨artifactId, hid, rfl⟩ := Option.map_eq_some_iff.mp hread
      rw [if_pos hbegin]
      exact ⟨hid, rfl⟩
    rw [if_neg hbegin] at hread
    rw [if_neg hbegin]
    by_cases hchunk : isText (some recordType) "artifact_chunk" = true
    · rw [if_pos hchunk] at hread
      obtain ⟨artifactId, hid, hrest⟩ := Option.bind_eq_some_iff.mp hread
      obtain ⟨data, hdata, rfl⟩ := Option.map_eq_some_iff.mp hrest
      rw [if_pos hchunk]
      exact ⟨⟨hid, chunkData_any hdata⟩, rfl⟩
    rw [if_neg hchunk] at hread
    rw [if_neg hchunk]
    by_cases hend : isText (some recordType) "artifact_end" = true
    · rw [if_pos hend] at hread
      obtain ⟨artifactId, hid, rfl⟩ := Option.map_eq_some_iff.mp hread
      rw [if_pos hend]
      exact ⟨hid, rfl⟩
    · rw [if_neg hend] at hread
      obtain rfl := Option.some.inj hread
      rw [if_neg hend]
      exact ⟨trivial, rfl⟩

end Read

/-! ## Steps that return -/

section Completes
variable {env : Env} {request : Request} {stage : Stage env} {artifacts : List Artifact} {k₀ : Kernel} {pass : Pass}
  {active : Option Int} {record : Dict} {s : Locals} {a : Artifact} {artifactId : Int}

theorem completes_call {α : Type} {call : Call α} {Q : α → Kernel → Prop}
    (h : Triple (fun k => k = s.kernel) call Q fun _ _ => False) :
    Triple (fun t => t = s) (system call) (fun a t => ∃ k, Q a k ∧ t = { s with kernel := k }) fun _ _ => False := by
  intro t ht
  subst ht
  have hcall := h t.kernel rfl
  unfold system
  cases hrun : call t.kernel with
  | ok a k =>
    rw [hrun] at hcall
    exact ⟨k, hcall, rfl⟩
  | error error k =>
    rw [hrun] at hcall
    exact hcall

variable (stage) in
/-- Directories or nothing above the place of the artifact, and nothing there. -/
structure Free (a : Artifact) (fs : FileSystem) : Prop where
  above : ∀ above, above <+: a.components.dropLast → fs.node (stage.loc ++ above) = none ∨ fs.IsDir (stage.loc ++ above)
  place : fs.node (stage.loc ++ a.components) = none

theorem Built.free (h : Built stage artifacts k₀ pass s) (hne : a.components ≠ [])
    (hfollows : ∀ b ∈ pass.begun, Follows b a) : Free stage a s.kernel.fs := by
  refine ⟨fun above habove => ?_, ?_⟩
  · by_cases hnone : s.kernel.fs.node (stage.loc ++ above) = none
    · exact .inl hnone
    right
    by_cases hroot : above = []
    · rw [hroot, List.append_nil]
      exact h.inside.around.dir
    rcases h.tree.only above hroot hnone with ⟨b, hb, rfl⟩ | ⟨hdir, -⟩
    · have htype := (hfollows b hb).2 (habove.trans (List.dropLast_prefix _))
      exact FileSystem.isDir_iff.mpr ((standing_directory htype).mp (h.tree.stands b hb))
    · exact hdir
  · by_contra hthere
    rcases h.tree.only _ hne hthere with ⟨b, hb, hplace⟩ | ⟨-, b, hb, hpre⟩
    · exact (hfollows b hb).1 (hplace ▸ List.prefix_rfl)
    · exact (hfollows b hb).1 hpre

theorem Free.grown {k k' : Kernel} (h : Free stage a k.fs) (hne : a.components ≠ [])
    (hgrown : stage.Grown a.components.dropLast k k') : Free stage a k'.fs := by
  refine ⟨fun above habove => ?_, ?_⟩
  · rcases hgrown.node (stage.loc ++ above) with hsame | ⟨-, hdir, -⟩
    · rw [FileSystem.isDir_iff, hsame, ← FileSystem.isDir_iff]
      exact h.above above habove
    · exact .inr hdir
  · rcases hgrown.node (stage.loc ++ a.components) with hsame | ⟨-, -, above, habove, heq⟩
    · rw [hsame]
      exact h.place
    · rw [← List.append_cancel_left heq] at habove
      have hlength := habove.length_le
      rw [List.length_dropLast] at hlength
      have hpos := List.length_pos_of_ne_nil hne
      omega

variable (stage) in
/-- Behind `ensure_parent`, when there is a directory for the artifact. -/
structure Ready (a : Artifact) (k : Kernel) : Prop extends Free stage a k.fs where
  around : stage.Around k.fs
  owned : stage.Owned k.fs
  dir : k.fs.IsDir (stage.loc ++ a.components.dropLast)

variable (hordinary : env.Ordinary) (hsound : Sound artifacts)
include hordinary hsound

theorem completes_ensureParent (h : Built stage artifacts k₀ pass s) (howned : stage.Owned s.kernel.fs)
    (ha : a ∈ artifacts) (hfollows : ∀ b ∈ pass.begun, Follows b a) :
    Triple (fun t => t = s) (system (ensureParent env (stage.path ++ a.components)))
      (fun _ t => ∃ k, Ready stage a k ∧ t = { s with kernel := k }) fun _ _ => False := by
  have hne := hsound.nonempty a ha
  have hvalid : ∀ name ∈ a.components.dropLast, ValidName name :=
    fun name hname => hsound.named a ha name (List.mem_of_mem_dropLast hname)
  have hfree := h.free hne hfollows
  have hclear : stage.Clear s.kernel.fs a.components.dropLast := by
    intro above habove target hlink
    rcases hfree.above above habove with hnone | hdir
    · rw [hnone] at hlink
      cases hlink
    · obtain ⟨mode, hmode⟩ := FileSystem.isDir_iff.mp hdir
      rw [hlink] at hmode
      cases hmode
  unfold ensureParent
  rw [List.dropLast_append_of_ne_nil hne]
  have hreturns : Returns (fun k => k = s.kernel) (makedirs env (stage.path ++ a.components.dropLast) 0o700 true) :=
    Stage.returns_makedirsOf hordinary true _ (by decide) h.inside.around howned hvalid hfree.above (.inl rfl)
  have hkeeps : Keeps (fun k => stage.Owned k.fs) (makedirs env (stage.path ++ a.components.dropLast) 0o700 true)
      fun _ => True := Stage.owned_makedirs hordinary _ (by decide) true
  have hmake := (hreturns.with (Stage.triple_makedirs true 0o700 h.inside.around hvalid hclear)).both hkeeps.triple
  refine (completes_call (hmake.conseq (fun k hk => ⟨hk, hk ▸ howned⟩) (fun _ _ h => h) fun _ _ h => h.1)).conseq
    (fun _ ht => ht) (fun _ t ht => ?_) fun _ _ h => h
  obtain ⟨k, ⟨⟨hgrown, hdir, -⟩, -, howned'⟩, rfl⟩ := ht
  exact ⟨k, ⟨hfree.grown hne hgrown, hgrown.around h.inside.around, howned', hdir⟩, rfl⟩

theorem returns_begin (hpath : request.stage = stage.path) (h : Built stage artifacts k₀ pass s)
    (howned : stage.Owned s.kernel.fs) (hid : memberId record = some artifactId)
    (hfind : findArtifact artifacts artifactId = some a) (hlinks : a.fileType ≠ .symlink)
    (hfollows : ∀ b ∈ pass.begun, Follows b a) :
    Returns (fun t => t = s) (beginArtifact env request artifacts record) := by
  have ha := (findArtifact_eq_some hfind).1
  have hne := hsound.nonempty a ha
  have hnamed := hsound.named a ha
  have hsplit : a.components.dropLast ++ [a.components.getLast hne] = a.components := List.dropLast_concat_getLast hne
  unfold beginArtifact
  rw [recordId_eq hid, pure_bind, artifactById_eq hfind]
  refine Triple.bind (Q := fun _ t => t = { s with activeId := some artifactId }) (Triple.modify fun t ht => by rw [ht])
    fun _ => ?_
  rw [pure_bind, hpath]
  refine Triple.bind (completes_ensureParent hordinary hsound (h.active (some artifactId)) howned ha hfollows) fun _ =>
    Triple.each fun t ht => ?_
  obtain ⟨k, hready, rfl⟩ := ht
  cases htype : a.fileType with
  | directory =>
    have hway : ∀ above, above <+: a.components → k.fs.node (stage.loc ++ above) = none ∨ k.fs.IsDir (stage.loc ++ above) := by
      intro above habove
      rw [← hsplit] at habove
      rcases List.prefix_concat_iff.mp habove with heq | habove
      · rw [heq, hsplit]
        exact .inl hready.place
      · exact hready.above above habove
    have hmake : Returns (fun k' => k' = k) (makedirs env (stage.path ++ a.components) 0o700 false) :=
      Stage.returns_makedirsOf hordinary false _ (by decide) hready.around hready.owned hnamed hway (.inr hready.place)
    exact Triple.bind (completes_call hmake) fun _ => Triple.modify fun _ _ => trivial
  | regular =>
    have hplace := hready.place
    rw [← hsplit] at hplace
    have hcreate := @Stage.returns_entry env stage a.components.dropLast k hordinary hready.around hready.owned .open .create
      (.file (masked env 0o600) []) (a.components.getLast hne) (hnamed _ (List.getLast_mem hne)) hready.dir hplace
    rw [hsplit] at hcreate
    exact Triple.bind (completes_call hcreate) fun _ => Triple.modify fun _ _ => trivial
  | symlink => exact absurd htype hlinks

omit hsound in
/-- Every round writes something. -/
theorem returns_writeAll {before : Loc → Option Node} {loc : Loc} {mode : Nat} (hloc : stage.loc <+: loc)
    (hne : loc ≠ stage.loc) (fuel : Nat) : ∀ {written data : Bytes}, data.length ≤ fuel →
    Returns (Writing stage k₀ before loc mode written) (writeAll env loc fuel data) := by
  induction fuel with
  | zero => exact fun _ => Triple.pure fun _ _ => trivial
  | succ fuel ih =>
    intro written data hlength
    rw [writeAll]
    by_cases hdata : data = []
    · rw [if_pos hdata]
      exact Triple.pure fun _ _ => trivial
    rw [if_neg hdata]
    refine Triple.each fun k hk => ?_
    have hthere : k.fs.node loc = some (.file mode written) := by rw [hk.node, FileSystem.setNode_self]
    have hpositive := @Stage.returns_writeSome env k hordinary loc data (by rw [hthere]; exact Option.some_ne_none _) hdata
    refine Triple.bind ((hpositive.and (triple_writeSome loc data k)).conseq (fun _ h => h) (fun _ _ h => h)
      fun _ _ h => h.1) fun count => Triple.each fun k' hk' => ?_
    obtain ⟨hcount, -, node, hnode, hchanged⟩ := hk'
    obtain rfl := Option.some.inj (hthere.symm.trans hnode)
    rw [if_neg (Nat.ne_of_gt hcount)]
    have hrest : (data.drop count).length ≤ fuel := by
      rw [List.length_drop]
      omega
    refine (@ih (written ++ data.take count) _ hrest).conseq (fun _ hs => hs ▸ ⟨?_, ?_⟩) (fun _ _ h => h) fun _ _ h => h
    · exact hk.inside.changed hchanged hloc (fun _ hl => absurd hl List.not_mem_nil) fun heq => absurd heq hne
    · rw [hchanged.node, hk.node, FileSystem.setNode_setNode]
      rfl

theorem returns_chunk {data : Bytes} (h : Built stage artifacts k₀ pass s) (hid : memberId record = some artifactId)
    (hdata : ∀ lineNumber, chunkData record lineNumber = .ok data) (hholder : pass.holder = some a)
    (hactive : s.activeId = some artifactId) (lineNumber : Nat) :
    Returns (fun t => t = s) (writeChunk env record lineNumber) := by
  obtain ⟨hbegun, htype⟩ := h.held a hholder
  have hdescriptor : s.fileDescriptor = some (stage.loc ++ a.components) := by rw [h.descriptor, hholder]; rfl
  refine Triple.get fun t ht => ?_
  subst ht
  rw [hdescriptor]
  dsimp only
  rw [recordId_eq hid, pure_bind, if_neg (not_not.mpr hactive), hdata lineNumber]
  show Returns _ (pure data >>= _)
  rw [pure_bind]
  obtain ⟨mode, hnode⟩ := (standing_regular htype).mp (h.tree.stands a hbegun)
  have hplace : stage.loc ++ a.components ≠ stage.loc :=
    fun heq => hsound.nonempty a (h.known a hbegun) (List.append_right_eq_self.mp heq)
  have hwrite := @returns_writeAll env stage k₀ hordinary t.kernel.fs.node (stage.loc ++ a.components) mode
    (List.prefix_append _ _) hplace data.length (pass.content a.artifactId) data (Nat.le_refl _)
  have hstart : Writing stage k₀ t.kernel.fs.node (stage.loc ++ a.components) mode (pass.content a.artifactId) t.kernel :=
    ⟨h.inside, (FileSystem.setNode_eq_self hnode).symm⟩
  exact (completes_call (hwrite.conseq (fun k hk => hk ▸ hstart) (fun _ _ h => h) fun _ _ h => h)).conseq
    (fun _ h => h) (fun _ _ _ => trivial) fun _ _ h => h

omit hsound in
theorem returns_close {descriptor : Loc} (hopen : descriptor ∈ s.descriptors) :
    Returns (fun t => t = s) (close env descriptor) := by
  refine Triple.get fun t ht => ?_
  subst ht
  refine Triple.bind (Q := fun _ u => u = { t with descriptors := t.descriptors.erase descriptor })
    (fun u hu => by rw [hu]; rfl) fun _ => Triple.each fun u hu => ?_
  refine Triple.bind (completes_call (Stage.returns_tick hordinary _ u.kernel)) fun _ => ?_
  rw [if_pos (List.contains_iff_mem.mpr hopen)]
  exact Triple.pure fun _ _ => trivial

omit hsound in
theorem returns_finish (h : Built stage artifacts k₀ pass s) (artifact : Artifact) :
    Returns (fun t => t = s) (finishFile env request artifact) := by
  refine Triple.get fun t ht => ?_
  subst ht
  have hholder := h.descriptor
  cases hdescriptor : t.fileDescriptor with
  | none => exact Triple.pure fun _ _ => trivial
  | some descriptor =>
    rw [hdescriptor, eq_comm, Option.map_eq_some_iff] at hholder
    obtain ⟨a, ha, rfl⟩ := hholder
    obtain ⟨hbegun, -⟩ := h.held a ha
    refine Triple.bind (completes_call (Stage.returns_tick hordinary _ t.kernel)) fun _ => Triple.each fun u hu => ?_
    obtain ⟨k, hstill, rfl⟩ := hu
    have hthere : k.fs.node (stage.loc ++ a.components) ≠ none := by
      rw [hstill.fs]
      exact (h.tree.stands a hbegun).ne_none
    refine Triple.bind (completes_call (s := { t with kernel := k }) (Stage.returns_changeMode hordinary hthere)) fun _ =>
      Triple.each fun u hu => ?_
    obtain ⟨k', -, rfl⟩ := hu
    exact Triple.bind (returns_close hordinary (s := { t with kernel := k' }) (h.closable _ hdescriptor)) fun _ =>
      Triple.modify fun _ _ => trivial

omit hsound in
theorem returns_end (h : Built stage artifacts k₀ pass s) (hid : memberId record = some artifactId)
    (hfind : findArtifact artifacts artifactId = some a) :
    Returns (fun t => t = s) (endArtifact env request artifacts record) := by
  unfold endArtifact
  rw [recordId_eq hid, pure_bind, artifactById_eq hfind, pure_bind]
  exact Triple.bind (returns_finish hordinary h a) fun _ => Triple.modify fun _ _ => trivial

end Completes

/-! ## The loop -/

section Lines
variable {env : Env} {request : Request} {stage : Stage env} {artifacts : List Artifact} {k₀ : Kernel} {pass : Pass}
  {active : Option Int} {record : Dict} {reading : Reading}

theorem active_step (hof : reading.Of record) (lineNumber : Nat) :
    Triple (fun s => s.activeId = active) (reading.step env request artifacts record lineNumber)
      (fun _ t => t.activeId = reading.active active) fun _ _ => True := by
  cases reading with
  | begin artifactId =>
    show Triple _ (beginArtifact env request artifacts record) _ _
    unfold beginArtifact
    rw [recordId_eq hof, pure_bind]
    refine Triple.bind (Q := fun _ t => t.activeId = some artifactId) (Triple.modify fun s _ => rfl) fun _ => ?_
    refine Triple.conseq (P := fun s => s.activeId = some artifactId) (Q := fun _ s => True ∧ s.activeId = some artifactId)
      (E := fun _ s => s.activeId = some artifactId) ?_ (fun _ h => h) (fun _ _ h => h.2) fun _ _ _ => trivial
    refine Keeps.triple (Keeps.bind (keeps_artifactById artifactId) fun a _ => Keeps.bind (keeps_locals (fun _ _ h => h) _) fun _ _ => ?_)
    cases a.fileType with
    | directory => exact Keeps.bind (keeps_locals (fun _ _ h => h) _) fun _ _ => Keeps.modify fun s hs => hs
    | regular => exact Keeps.bind (keeps_locals (fun _ _ h => h) _) fun _ _ => Keeps.modify fun s hs => hs
    | symlink => exact Keeps.bind (keeps_python _) fun _ _ => keeps_locals (fun _ _ h => h) _
  | chunk artifactId data =>
    refine Triple.conseq (Keeps.bind (Q := fun _ => True) ?_ ?_ : Keeps (fun s => s.activeId = active)
      (writeChunk env record lineNumber) fun _ => True).triple (fun _ h => h) (fun _ _ h => h.2) fun _ _ _ => trivial
    · exact fun s hs => ⟨trivial, hs⟩
    · intro s _
      cases s.fileDescriptor with
      | none => exact Keeps.throw _
      | some descriptor =>
        refine Keeps.bind (keeps_recordId record) fun artifactId _ => ?_
        by_cases hactive : s.activeId ≠ some artifactId
        · rw [if_pos hactive]
          exact Keeps.throw _
        · rw [if_neg hactive]
          exact Keeps.bind (keeps_python _) fun data _ => keeps_locals (fun _ _ h => h) _
  | finish artifactId =>
    refine Triple.bind (Q := fun _ _ => True) (fun s _ => ?_) fun _ => ?_
    · cases recordId record s with
      | ok i t => trivial
      | error error t => trivial
    · refine Triple.bind (Q := fun _ _ => True) (fun s _ => ?_) fun a => ?_
      · cases artifactById artifacts _ s with
        | ok a t => trivial
        | error error t => trivial
      · refine Triple.bind (Q := fun _ _ => True) (fun s _ => ?_) fun _ => Triple.modify fun s _ => rfl
        cases finishFile env request a s with
        | ok u t => trivial
        | error error t => trivial
  | other => exact Triple.pure fun s hs => hs

variable (stage artifacts k₀) in
/-- Between two records of a run that goes on. -/
structure Tended (pass : Pass) (active : Option Int) (s : Locals) : Prop where
  built : Built stage artifacts k₀ pass s
  owned : stage.Owned s.kernel.fs
  active : s.activeId = active

variable (hordinary : env.Ordinary) (hsound : Sound artifacts) (hlinks : ∀ a ∈ artifacts, a.fileType ≠ .symlink)
include hsound hlinks

omit hsound in
theorem unlinked_of_no_link {s : Locals} (h : Built stage artifacts k₀ pass s) (a : Artifact) : Unlinked pass.begun a :=
  fun b hb htype => absurd htype (hlinks b (h.known b hb))

include hordinary

theorem completes_line (hpath : request.stage = stage.path) {rawLine : Bytes} (hreading : readingOf rawLine = some reading)
    (hfits : reading.Fits artifacts pass active) (horder : ParentFirst (pass.next artifacts reading).begun.reverse)
    (lineNumber : Nat) :
    Triple (Tended stage artifacts k₀ pass active) (reassembleLine env request artifacts rawLine lineNumber)
      (fun _ => Tended stage artifacts k₀ (pass.next artifacts reading) (reading.active active)) fun _ _ => False := by
  refine Triple.each fun s hs => ?_
  obtain ⟨record, hof, hrun⟩ := @reassembleLine_eq artifacts env request _ _ hreading lineNumber
  have hreturns : Returns (fun t => t = s) (reading.step env request artifacts record lineNumber) := by
    cases reading with
    | begin artifactId =>
      obtain ⟨a, hfind⟩ := Option.ne_none_iff_exists'.mp hfits.1
      rw [pass.next_begin hfind] at horder
      exact returns_begin hordinary hsound hpath hs.built hs.owned hof hfind (hlinks a (findArtifact_eq_some hfind).1)
        (parentFirst_cons.mp horder).2
    | chunk artifactId data =>
      obtain ⟨a, hholder⟩ := Option.ne_none_iff_exists'.mp hfits.1
      exact returns_chunk hordinary hsound hs.built hof.1 hof.2 hholder (hs.active.trans hfits.2) lineNumber
    | finish artifactId =>
      obtain ⟨a, hfind⟩ := Option.ne_none_iff_exists'.mp hfits.1
      exact returns_end hordinary hs.built hof hfind
    | other => exact Triple.pure fun _ _ => trivial
  have hactive := @active_step env request artifacts active record reading hof lineNumber
  rw [← hrun] at hreturns hactive
  have hbuilt := @triple_reassembleLine env request stage artifacts k₀ pass hsound hpath rawLine lineNumber
    fun _ a _ _ => unlinked_of_no_link hlinks hs.built a
  have howned := @owned_line env request stage artifacts k₀ pass hordinary rawLine lineNumber
  refine Triple.conseq (hreturns.with ((hbuilt.both howned).both hactive |>.conseq (fun t ht => ?_) (fun _ _ h => h)
    fun _ _ h => h)) (fun _ h => h) (fun _ t ht => ?_) fun _ _ h => h
  · subst ht
    exact ⟨⟨hs.built, hs.built, hs.owned⟩, hs.active⟩
  · obtain ⟨⟨⟨reading', hsame, hbuilt'⟩, howned'⟩, hactive'⟩ := ht
    obtain rfl := Option.some.inj (hreading.symm.trans hsame)
    exact ⟨hbuilt', howned', hactive'⟩

theorem completes_lines (hpath : request.stage = stage.path) (rawLines : List Bytes) :
    ∀ {pass : Pass} {active : Option Int} {lineNumber : Nat}, (∀ rawLine ∈ rawLines, readingOf rawLine ≠ none) →
    Fitting artifacts pass active (rawLines.filterMap readingOf) →
    ParentFirst ((rawLines.filterMap readingOf).foldl (Pass.next artifacts) pass).begun.reverse →
    Triple (Tended stage artifacts k₀ pass active) (reassembleLines env request artifacts lineNumber rawLines)
      (fun _ s => Built stage artifacts k₀ ((rawLines.filterMap readingOf).foldl (Pass.next artifacts) pass) s ∧
        stage.Owned s.kernel.fs) fun _ _ => False := by
  induction rawLines with
  | nil => exact fun _ _ _ => Triple.pure fun s hs => ⟨hs.built, hs.owned⟩
  | cons rawLine rawLines ih =>
    intro pass active lineNumber hread hfits horder
    obtain ⟨hfirst, hread⟩ := List.forall_mem_cons.mp hread
    obtain ⟨reading, hreading⟩ := Option.ne_none_iff_exists'.mp hfirst
    rw [List.filterMap_cons_some hreading] at hfits horder ⊢
    rw [reassembleLines]
    have hnow := parentFirst_of_suffix horder
      (@Pass.begun_suffix artifacts (rawLines.filterMap readingOf) (pass.next artifacts reading))
    exact Triple.bind (completes_line hordinary hsound hlinks hpath hreading hfits.1 hnow _) fun _ =>
      ih hread hfits.2 horder

end Lines

end GetBibleSword.Tool
