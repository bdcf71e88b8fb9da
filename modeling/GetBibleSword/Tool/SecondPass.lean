import GetBibleSword.Tool.Reassemble
import GetBibleSword.Tool.Summary

/-!
# The second pass

What the records of the source build in the stage, whatever source it is.

* `Reading` : what a line is read as; `Pass` : the artifacts begun, the octets each was given, and the one
  the next go to; `deliveries` : the pass over a whole source;
* `Tree` : the stage holds the artifacts begun and directories above them;
* `Built` : the invariant of the loop; `triple_reassembleLines` : the loop keeps it where no artifact is
  begun below a link.
-/

namespace GetBibleSword.Tool
open GetBibleSword.Lib Posix

/-! ## What a source delivers -/

inductive Reading where
  | begin (artifactId : Int)
  | chunk (artifactId : Int) (data : Bytes)
  | finish (artifactId : Int)
  | other
deriving DecidableEq

def memberId (record : Dict) : Option Int := (dictGet record "artifact_id").bind int

def recordReading (record : Dict) : Option Reading :=
  match dictGet record "type" with
  | none => none
  | some recordType =>
    if isText (some recordType) "artifact_begin" then (memberId record).map .begin
    else if isText (some recordType) "artifact_chunk" then
      (memberId record).bind fun artifactId => (chunkData record 0).toOption.map (.chunk artifactId)
    else if isText (some recordType) "artifact_end" then (memberId record).map .finish
    else some .other

/-- What a line is read as, if it can be read. -/
def readingOf (rawLine : Bytes) : Option Reading := (parseJsonObject rawLine.dropLast 0).toOption.bind recordReading

/-- What the records so far have delivered. -/
structure Pass where
  /-- The artifacts begun, the last one first. -/
  begun : List Artifact
  /-- The artifact the next octets go to. -/
  holder : Option Artifact
  content : Nat → Bytes

def Pass.start : Pass := ⟨[], none, fun _ => []⟩

def Pass.begin (pass : Pass) (a : Artifact) : Pass :=
  { pass with
    begun := a :: pass.begun
    holder := if a.fileType = .regular then some a else pass.holder }

section Pass
variable (artifacts : List Artifact)

def Pass.next (pass : Pass) : Reading → Pass
  | .begin artifactId =>
    match findArtifact artifacts artifactId with
    | none => pass
    | some a => pass.begin a
  | .chunk _ data =>
    match pass.holder with
    | none => pass
    | some a => { pass with
        content := Function.update pass.content a.artifactId (pass.content a.artifactId ++ data) }
  | .finish _ => { pass with holder := none }
  | .other => pass

/-- What the records of a source deliver to the artifacts. -/
def deliveries (source : Bytes) : Pass :=
  ((fileLines source).filterMap readingOf).foldl (Pass.next artifacts) .start

/-- No link was begun above the artifact. -/
def Unlinked (begun : List Artifact) (a : Artifact) : Prop :=
  ∀ b ∈ begun, b.fileType = .symlink → b.components <+: a.components → b.components = a.components

/-- No artifact is begun below a link. -/
def Pass.Apart : Pass → List Reading → Prop
  | _, [] => True
  | pass, reading :: readings =>
    (∀ artifactId a, reading = .begin artifactId → findArtifact artifacts artifactId = some a → Unlinked pass.begun a) ∧
      Pass.Apart (pass.next artifacts reading) readings

end Pass

theorem findArtifact_eq_some {artifacts : List Artifact} {artifactId : Int} {a : Artifact}
    (h : findArtifact artifacts artifactId = some a) : a ∈ artifacts ∧ (a.artifactId : Int) = artifactId := by
  refine ⟨List.mem_reverse.mp (List.mem_of_find?_eq_some h), ?_⟩
  simpa using List.find?_some h

theorem Pass.next_begin (pass : Pass) {artifacts : List Artifact} {artifactId : Int} {a : Artifact}
    (h : findArtifact artifacts artifactId = some a) : pass.next artifacts (.begin artifactId) = pass.begin a := by
  unfold Pass.next
  dsimp only
  rw [h]

theorem Pass.next_chunk {pass : Pass} (artifacts : List Artifact) (artifactId : Int) (data : Bytes) {a : Artifact}
    (h : pass.holder = some a) : pass.next artifacts (.chunk artifactId data) =
      { pass with content := Function.update pass.content a.artifactId (pass.content a.artifactId ++ data) } := by
  unfold Pass.next
  dsimp only
  rw [h]

/-! ## What stands in the stage -/

/-- The object of an artifact, with these octets. -/
def Standing (content : Bytes) (a : Artifact) (node : Option Node) : Prop :=
  match a.fileType with
  | .directory => ∃ mode, node = some (.dir mode)
  | .regular => ∃ mode, node = some (.file mode content)
  | .symlink => ∃ target, a.target = some target ∧ node = some (.link target)

section Standing
variable {content : Bytes} {a : Artifact} {node : Option Node}

theorem Standing.ne_none (h : Standing content a node) : node ≠ none := by
  unfold Standing at h
  cases htype : a.fileType with
  | directory =>
    rw [htype] at h
    obtain ⟨mode, rfl⟩ := h
    exact Option.some_ne_none _
  | regular =>
    rw [htype] at h
    obtain ⟨mode, rfl⟩ := h
    exact Option.some_ne_none _
  | symlink =>
    rw [htype] at h
    obtain ⟨target, -, rfl⟩ := h
    exact Option.some_ne_none _

theorem Standing.symlink {target : Bytes} (h : Standing content a (some (.link target))) : a.fileType = .symlink := by
  unfold Standing at h
  cases htype : a.fileType with
  | directory =>
    rw [htype] at h
    obtain ⟨mode, hnode⟩ := h
    cases hnode
  | regular =>
    rw [htype] at h
    obtain ⟨mode, hnode⟩ := h
    cases hnode
  | symlink => rfl

theorem Standing.directory {mode : Nat} (h : Standing content a (some (.dir mode))) : a.fileType = .directory := by
  unfold Standing at h
  cases htype : a.fileType with
  | directory => rfl
  | regular =>
    rw [htype] at h
    obtain ⟨mode, hnode⟩ := h
    cases hnode
  | symlink =>
    rw [htype] at h
    obtain ⟨target, -, hnode⟩ := h
    cases hnode

theorem standing_directory (htype : a.fileType = .directory) :
    Standing content a node ↔ ∃ mode, node = some (.dir mode) := by
  unfold Standing
  rw [htype]

theorem standing_regular (htype : a.fileType = .regular) :
    Standing content a node ↔ ∃ mode, node = some (.file mode content) := by
  unfold Standing
  rw [htype]

theorem standing_symlink (htype : a.fileType = .symlink) :
    Standing content a node ↔ ∃ target, a.target = some target ∧ node = some (.link target) := by
  unfold Standing
  rw [htype]

end Standing

section Tree
variable {env : Env} (stage : Stage env)

/-- Each artifact begun stands in the stage; whatever else is there is a directory at or above one of the
places. -/
structure Tree (begun places : List Artifact) (content : Nat → Bytes) (fs : FileSystem) : Prop where
  stands : ∀ a ∈ begun, Standing (content a.artifactId) a (fs.node (stage.loc ++ a.components))
  only : ∀ names, names ≠ [] → fs.node (stage.loc ++ names) ≠ none →
    (∃ a ∈ begun, names = a.components) ∨ fs.IsDir (stage.loc ++ names) ∧ ∃ a ∈ places, names <+: a.components

variable {stage} {begun places : List Artifact} {content content' : Nat → Bytes} {fs fs' : FileSystem} {a : Artifact}
  {k k' : Kernel} {names : List Name}

theorem Tree.mono {places' : List Artifact} (h : Tree stage begun places content fs) (hsub : places ⊆ places') :
    Tree stage begun places' content fs := by
  refine ⟨h.stands, fun names hne hthere => (h.only names hne hthere).imp_right fun hdir => ?_⟩
  obtain ⟨hdir, b, hb, hpre⟩ := hdir
  exact ⟨hdir, b, hsub hb, hpre⟩

/-- An artifact that was begun before. -/
theorem Tree.again (h : Tree stage (a :: begun) places content fs) (ha : a ∈ begun) :
    Tree stage begun places content fs := by
  refine ⟨fun b hb => h.stands b (List.mem_cons_of_mem _ hb), fun names hne hthere => (h.only names hne hthere).imp_left ?_⟩
  intro hplace
  obtain ⟨b, hb, hnames⟩ := hplace
  exact ⟨b, (List.mem_cons.mp hb).elim (fun heq => heq ▸ ha) id, hnames⟩

/-- New directories above an artifact. -/
theorem Tree.grown (h : Tree stage begun places content k.fs) (hgrown : stage.Grown names k k')
    (ha : a ∈ places) (hpre : names <+: a.components) : Tree stage begun places content k'.fs := by
  refine ⟨fun b hb => ?_, fun place hne hthere => ?_⟩
  · have hstands := h.stands b hb
    obtain ⟨node, hnode⟩ := Option.ne_none_iff_exists'.mp hstands.ne_none
    rwa [hgrown.extends _ node hnode, ← hnode]
  · rcases hgrown.node (stage.loc ++ place) with hsame | ⟨-, hdir, above, habove, heq⟩
    · rw [hsame] at hthere
      refine (h.only place hne hthere).imp_right fun hdir => ⟨?_, hdir.2⟩
      exact isDir_extends hgrown.extends hdir.1
    · rw [List.append_cancel_left heq] at hdir ⊢
      exact .inr ⟨hdir, a, ha, habove.trans hpre⟩

/-- One artifact is there now, or is another one. -/
theorem Tree.set (h : Tree stage begun places content fs) {node : Node}
    (hnode : fs'.node = FileSystem.setNode fs.node (stage.loc ++ a.components) node)
    (hstands : Standing (content' a.artifactId) a (some node))
    (hothers : ∀ b ∈ begun, b ≠ a → b.components ≠ a.components ∧ content' b.artifactId = content b.artifactId) :
    Tree stage (a :: begun) places content' fs' := by
  have hself : fs'.node (stage.loc ++ a.components) = some node := by rw [hnode, FileSystem.setNode_self]
  have hother : ∀ place, place ≠ a.components → fs'.node (stage.loc ++ place) = fs.node (stage.loc ++ place) := by
    intro place hne
    rw [hnode, FileSystem.setNode_of_ne]
    exact fun heq => hne (List.append_cancel_left heq)
  refine ⟨fun b hb => ?_, fun place hne hthere => ?_⟩
  · by_cases hba : b = a
    · rw [hba, hself]
      exact hstands
    · have hold := (List.mem_cons.mp hb).resolve_left hba
      obtain ⟨hplace, hcontent⟩ := hothers b hold hba
      rw [hother _ hplace, hcontent]
      exact h.stands b hold
  · by_cases hplace : place = a.components
    · exact .inl ⟨a, List.mem_cons_self, hplace⟩
    · rw [hother place hplace] at hthere
      rcases h.only place hne hthere with ⟨b, hb, hnames⟩ | ⟨hdir, hover⟩
      · exact .inl ⟨b, List.mem_cons_of_mem _ hb, hnames⟩
      · refine .inr ⟨?_, hover⟩
        rw [FileSystem.isDir_iff] at hdir ⊢
        rwa [hother place hplace]

theorem Tree.stand (h : Tree stage begun places content fs)
    (hstands : Standing (content a.artifactId) a (fs.node (stage.loc ++ a.components))) :
    Tree stage (a :: begun) places content fs := by
  refine ⟨List.forall_mem_cons.mpr ⟨hstands, h.stands⟩, fun names hne hthere => (h.only names hne hthere).imp_left ?_⟩
  intro hplace
  obtain ⟨b, hb, hnames⟩ := hplace
  exact ⟨b, List.mem_cons_of_mem _ hb, hnames⟩

/-- A link in the stage is an artifact. -/
theorem Tree.link (h : Tree stage begun places content fs) (haround : stage.Around fs) {target : Bytes}
    (hlink : fs.node (stage.loc ++ names) = some (.link target)) :
    ∃ b ∈ begun, b.components = names ∧ b.fileType = .symlink := by
  have hnot : ¬ fs.IsDir (stage.loc ++ names) := by
    rw [FileSystem.isDir_iff, hlink]
    intro hdir
    obtain ⟨mode, hmode⟩ := hdir
    cases hmode
  have hne : names ≠ [] := by
    rintro rfl
    rw [List.append_nil] at hnot
    exact hnot haround.dir
  rcases h.only names hne (by rw [hlink]; exact Option.some_ne_none _) with ⟨b, hb, rfl⟩ | ⟨hdir, -⟩
  · have hstands := h.stands b hb
    rw [hlink] at hstands
    exact ⟨b, hb, rfl, hstands.symlink⟩
  · exact absurd hdir hnot

/-- No link on the way to an artifact above which none was begun. -/
theorem Tree.clear (h : Tree stage begun places content fs) (haround : stage.Around fs) (hun : Unlinked begun a)
    (hself : ∀ b ∈ begun, b.components = a.components → b.fileType ≠ .symlink) : stage.Clear fs a.components := by
  intro above habove target hlink
  obtain ⟨b, hb, rfl, htype⟩ := h.link haround hlink
  exact hself b hb (hun b hb htype habove) htype

theorem Tree.clear_parent (h : Tree stage begun places content fs) (haround : stage.Around fs) (hun : Unlinked begun a)
    (hne : a.components ≠ []) : stage.Clear fs a.components.dropLast := by
  intro above habove target hlink
  obtain ⟨b, hb, rfl, htype⟩ := h.link haround hlink
  have hsame := hun b hb htype (habove.trans (List.dropLast_prefix _))
  rw [hsame] at habove
  have hlength := habove.length_le
  rw [List.length_dropLast] at hlength
  have hpos := List.length_pos_of_ne_nil hne
  omega

end Tree

/-! ## The records -/

/-- The descriptor the next octets go to is open. -/
def Closable (s : Locals) : Prop := ∀ d, s.fileDescriptor = some d → d ∈ s.descriptors

section Loop
variable {env : Env} (request : Request) (stage : Stage env) (artifacts : List Artifact) (k₀ : Kernel)

/-- Between two records. -/
structure Built (pass : Pass) (s : Locals) : Prop where
  inside : stage.Inside k₀ s.kernel
  tree : Tree stage pass.begun pass.begun pass.content s.kernel.fs
  known : ∀ a ∈ pass.begun, a ∈ artifacts
  descriptor : s.fileDescriptor = pass.holder.map fun a => stage.loc ++ a.components
  held : ∀ a, pass.holder = some a → a ∈ pass.begun ∧ a.fileType = .regular
  closable : Closable s
  unwritten : ∀ a ∈ artifacts, a ∉ pass.begun → pass.content a.artifactId = []
  modes : ∀ entry ∈ s.directoryModes, ∃ a ∈ pass.begun, a.fileType = .directory ∧ entry.1 = stage.path ++ a.components

/-- Behind an error. -/
structure Stopped (s : Locals) : Prop where
  inside : stage.Inside k₀ s.kernel
  closable : s.kernel.calls.getLast? ≠ some .close → Closable s

variable {request stage artifacts k₀} {pass : Pass} {s : Locals} {record : Dict}

theorem Built.stopped (h : Built stage artifacts k₀ pass s) : Stopped stage k₀ s := ⟨h.inside, fun _ => h.closable⟩

theorem triple_call {α : Type} {call : Call α} {Q : α → Kernel → Prop} (hs : Closable s)
    (h : Triple (fun k => k = s.kernel) call Q fun _ => stage.Inside k₀) :
    Triple (fun t => t = s) (system call) (fun a t => ∃ k, Q a k ∧ t = { s with kernel := k })
      fun _ => Stopped stage k₀ := by
  intro t ht
  subst ht
  have hcall := h t.kernel rfl
  unfold system
  cases hrun : call t.kernel with
  | ok a k =>
    rw [hrun] at hcall
    exact ⟨k, hcall, rfl⟩
  | error error k =>
    rw [hrun] at hcall
    exact ⟨hcall, fun _ => hs⟩

theorem triple_python {α : Type} (x : Except PyError α) (P : Locals → Prop) :
    Triple P (python x) (fun a s => x = .ok a ∧ P s) fun _ => P := by
  cases x with
  | ok a => exact Triple.pure fun s hs => ⟨rfl, hs⟩
  | error error => exact Triple.throw fun s hs => hs

theorem triple_recordId (record : Dict) (P : Locals → Prop) :
    Triple P (recordId record) (fun artifactId s => memberId record = some artifactId ∧ P s) fun _ => P := by
  apply Triple.bind (triple_python _ P)
  intro value
  apply Triple.each
  intro s hs
  have hid : memberId record = int value := by
    unfold memberId
    rw [dictItem_eq_ok.mp hs.1]
    rfl
  rw [hid]
  cases int value with
  | none => exact Triple.throw fun t ht => ht ▸ hs.2
  | some artifactId => exact Triple.pure fun t ht => ht ▸ ⟨rfl, hs.2⟩

theorem triple_artifactById (artifactId : Int) (P : Locals → Prop) :
    Triple P (artifactById artifacts artifactId) (fun a s => findArtifact artifacts artifactId = some a ∧ P s)
      fun _ => P := by
  unfold artifactById
  cases findArtifact artifacts artifactId with
  | none => exact Triple.throw fun s hs => hs
  | some a => exact Triple.pure fun s hs => ⟨rfl, hs⟩

variable (stage k₀) in
/-- Behind `ensure_parent`. -/
structure Prepared (pass : Pass) (a : Artifact) (s t : Locals) : Prop where
  inside : stage.Inside k₀ t.kernel
  tree : Tree stage pass.begun (a :: pass.begun) pass.content t.kernel.fs
  kernel : t = { s with kernel := t.kernel }

variable (hsound : Sound artifacts)
include hsound

theorem triple_ensureParent (h : Built stage artifacts k₀ pass s) {a : Artifact} (ha : a ∈ artifacts)
    (hun : Unlinked pass.begun a) :
    Triple (fun t => t = s) (system (ensureParent env (stage.path ++ a.components)))
      (fun _ => Prepared stage k₀ pass a s) fun _ => Stopped stage k₀ := by
  have hne := hsound.nonempty a ha
  have hvalid : ∀ name ∈ a.components.dropLast, ValidName name :=
    fun name hname => hsound.named a ha name (List.mem_of_mem_dropLast hname)
  unfold ensureParent
  rw [List.dropLast_append_of_ne_nil hne]
  have hmake := stage.triple_makedirs (k := s.kernel) true 0o700 h.inside.around hvalid
    (h.tree.clear_parent h.inside.around hun hne)
  refine (triple_call h.closable (hmake.conseq (fun _ hs => hs) (fun _ _ h => h) fun _ _ hgrown =>
    h.inside.grown hgrown)).conseq (fun _ hs => hs) ?_ fun _ _ h => h
  intro _ t hmade
  obtain ⟨k, ⟨hgrown, -⟩, rfl⟩ := hmade
  refine ⟨h.inside.grown hgrown, ?_, rfl⟩
  exact (h.tree.mono (List.subset_cons_self a _)).grown hgrown List.mem_cons_self (List.dropLast_prefix _)

section Begin
variable {a : Artifact} {t : Locals} (h : Built stage artifacts k₀ pass s) (ha : a ∈ artifacts)
include h ha

omit hsound in
theorem Built.began (hinside : stage.Inside k₀ t.kernel)
    (htree : Tree stage (a :: pass.begun) (a :: pass.begun) pass.content t.kernel.fs)
    (hdescriptor : t.fileDescriptor = (pass.begin a).holder.map fun a => stage.loc ++ a.components)
    (hclosable : Closable t)
    (hmodes : ∀ entry ∈ t.directoryModes, entry ∈ s.directoryModes ∨
      a.fileType = .directory ∧ entry.1 = stage.path ++ a.components) :
    Built stage artifacts k₀ (pass.begin a) t where
  inside := hinside
  tree := htree
  known := List.forall_mem_cons.mpr ⟨ha, h.known⟩
  descriptor := hdescriptor
  held := by
    intro b hb
    unfold Pass.begin at hb ⊢
    dsimp only at hb ⊢
    split_ifs at hb with htype
    · obtain rfl := Option.some.inj hb
      exact ⟨List.mem_cons_self, htype⟩
    · exact ⟨List.mem_cons_of_mem _ (h.held b hb).1, (h.held b hb).2⟩
  closable := hclosable
  unwritten := fun b hb hnot => h.unwritten b hb fun hold => hnot (List.mem_cons_of_mem _ hold)
  modes := by
    intro entry hentry
    rcases hmodes entry hentry with hold | ⟨htype, hplace⟩
    · obtain ⟨b, hb, htype, hplace⟩ := h.modes entry hold
      exact ⟨b, List.mem_cons_of_mem _ hb, htype, hplace⟩
    · exact ⟨a, List.mem_cons_self, htype, hplace⟩

theorem Built.apart {b : Artifact} (hb : b ∈ pass.begun) (hne : b ≠ a) : b.components ≠ a.components :=
  fun heq => hne (hsound.eq_of_components (h.known b hb) ha heq)

omit hsound ha in
theorem Built.others (htype : a.fileType ≠ .regular) :
    s.fileDescriptor = (pass.begin a).holder.map fun a => stage.loc ++ a.components := by
  rw [h.descriptor, Pass.begin, if_neg htype]

variable (ht : Prepared stage k₀ pass a s t) (hun : Unlinked pass.begun a)
include ht hun

theorem triple_makeDirectory (htype : a.fileType = .directory) :
    Triple (fun u => u = t) (system (makedirs env (stage.path ++ a.components) 0o700 false) >>= fun _ =>
      modify fun s => { s with directoryModes := s.directoryModes ++ [(stage.path ++ a.components, a.mode)] })
      (fun _ => Built stage artifacts k₀ (pass.begin a)) fun _ => Stopped stage k₀ := by
  have hclear : stage.Clear t.kernel.fs a.components := by
    refine ht.tree.clear ht.inside.around hun fun b hb heq hlink => ?_
    rw [hsound.eq_of_components (h.known b hb) ha heq, htype] at hlink
    cases hlink
  have hclosable : Closable t := by
    rw [ht.kernel]
    exact h.closable
  have hmake := stage.triple_makedirs (k := t.kernel) false 0o700 ht.inside.around (hsound.named a ha) hclear
  refine Triple.bind (triple_call hclosable (hmake.conseq (fun _ hs => hs) (fun _ _ h => h) fun _ _ hgrown =>
    ht.inside.grown hgrown)) fun _ => Triple.modify ?_
  intro u hmade
  obtain ⟨k, ⟨hgrown, hdir, -⟩, rfl⟩ := hmade
  have htree := ht.tree.grown hgrown List.mem_cons_self List.prefix_rfl
  refine h.began ha (ht.inside.grown hgrown) (htree.stand ?_) ?_ hclosable ?_
  · exact (standing_directory htype).mpr (FileSystem.isDir_iff.mp hdir)
  · rw [← h.others (by rw [htype]; exact FileType.noConfusion), ht.kernel]
  · intro entry hentry
    rw [ht.kernel] at hentry
    exact (List.mem_append.mp hentry).imp_right fun hnew => ⟨htype, by rw [List.mem_singleton.mp hnew]⟩

/-- A new entry at the place of the artifact. -/
theorem Prepared.entry {effect : Effect} {node : Node} {k : Kernel} {e : Entry}
    (hlocate : locate env.process t.kernel.fs (stage.path ++ a.components) = .ok e)
    (heffect : effect.loc = e.loc ∧ effect.via = e.via) (hchanged : t.kernel.Changed effect node k)
    (hstands : Standing (pass.content a.artifactId) a (some node)) :
    stage.Inside k₀ k ∧ Tree stage (a :: pass.begun) (a :: pass.begun) pass.content k.fs ∧
      e.loc = stage.loc ++ a.components := by
  have hne := hsound.nonempty a ha
  obtain ⟨hloc, hvia⟩ := ht.inside.around.locate_place hne (hsound.named a ha)
    (ht.tree.clear_parent ht.inside.around hun hne) hlocate
  have hplace := heffect.1.trans hloc
  refine ⟨ht.inside.place hchanged hne hplace fun l hl => ?_, ?_, hloc⟩
  · rwa [heffect.2, hvia] at hl
  · refine ht.tree.set (a := a) (hplace ▸ hchanged.node) hstands fun b hb hba => ?_
    exact ⟨h.apart hsound ha hb hba, rfl⟩

theorem triple_createArtifact (htype : a.fileType = .regular) :
    Triple (fun u => u = t) (system (createFile env (stage.path ++ a.components) 0o600) >>= fun descriptor =>
      modify fun s => { s with descriptors := descriptor :: s.descriptors, fileDescriptor := some descriptor })
      (fun _ => Built stage artifacts k₀ (pass.begin a)) fun _ => Stopped stage k₀ := by
  have hclosable : Closable t := by
    rw [ht.kernel]
    exact h.closable
  refine Triple.bind (triple_call hclosable ((triple_addEntry _ _ _ _ t.kernel).conseq (fun _ hs => hs)
    (fun _ _ h => h) fun _ _ hstill => ht.inside.still hstill)) fun descriptor => Triple.modify ?_
  intro u hmade
  obtain ⟨k, ⟨e, hlocate, rfl, hfresh, -, hchanged⟩, rfl⟩ := hmade
  have hcontent : pass.content a.artifactId = [] := by
    refine h.unwritten a ha fun hold => ?_
    have hplace := (ht.inside.around.locate_place (hsound.nonempty a ha) (hsound.named a ha)
      (ht.tree.clear_parent ht.inside.around hun (hsound.nonempty a ha)) hlocate).1
    exact (ht.tree.stands a hold).ne_none (hplace ▸ hfresh)
  obtain ⟨hinside, htree, hloc⟩ := ht.entry hsound h ha hun hlocate ⟨rfl, rfl⟩ hchanged
    ((standing_regular htype).mpr ⟨_, by rw [hcontent]⟩)
  refine h.began ha hinside htree ?_ ?_ ?_
  · rw [Pass.begin, if_pos htype, hloc]
    rfl
  · intro d hd
    rw [Option.some.inj hd]
    exact List.mem_cons_self
  · intro entry hentry
    rw [ht.kernel] at hentry
    exact .inl hentry

theorem triple_linkArtifact (htype : a.fileType = .symlink) :
    Triple (fun u => u = t) (python (Validator.asserted a.target) >>= fun target =>
      system (symlink env target (stage.path ++ a.components)))
      (fun _ => Built stage artifacts k₀ (pass.begin a)) fun _ => Stopped stage k₀ := by
  have hclosable : Closable t := by
    rw [ht.kernel]
    exact h.closable
  refine Triple.bind ((triple_python _ _).conseq (fun _ hu => hu) (fun _ _ h => h) ?_) fun target => ?_
  · intro _ u hu
    subst hu
    exact ⟨ht.inside, fun _ => hclosable⟩
  apply Triple.each
  intro u hu
  obtain ⟨htarget, rfl⟩ := hu
  refine (triple_call hclosable ((triple_symlink target _ u.kernel).conseq (fun _ hs => hs) (fun _ _ h => h)
    fun _ _ hstill => ht.inside.still hstill)).conseq (fun _ hs => hs) ?_ fun _ _ h => h
  intro _ v hmade
  obtain ⟨k, ⟨e, hlocate, -, -, hchanged⟩, rfl⟩ := hmade
  obtain ⟨hinside, htree, -⟩ := ht.entry hsound h ha hun hlocate ⟨rfl, rfl⟩ hchanged
    ((standing_symlink htype).mpr ⟨target, Validator.asserted_eq_ok.mp htarget, rfl⟩)
  refine h.began ha hinside htree ?_ hclosable ?_
  · rw [← h.others (by rw [htype]; exact FileType.noConfusion), ht.kernel]
  · intro entry hentry
    rw [ht.kernel] at hentry
    exact .inl hentry

end Begin

omit hsound in
/-- The number of the active artifact is not part of it. -/
theorem Built.active (h : Built stage artifacts k₀ pass s) (activeId : Option Int) :
    Built stage artifacts k₀ pass { s with activeId := activeId } :=
  ⟨h.inside, h.tree, h.known, h.descriptor, h.held, h.closable, h.unwritten, h.modes⟩

theorem triple_beginArtifact (hpath : request.stage = stage.path)
    (hun : ∀ artifactId a, memberId record = some artifactId → findArtifact artifacts artifactId = some a →
      Unlinked pass.begun a) :
    Triple (Built stage artifacts k₀ pass) (beginArtifact env request artifacts record)
      (fun _ t => ∃ artifactId, memberId record = some artifactId ∧
        Built stage artifacts k₀ (pass.next artifacts (.begin artifactId)) t) fun _ => Stopped stage k₀ := by
  unfold beginArtifact
  refine Triple.bind ((triple_recordId record _).conseq (fun _ h => h) (fun _ _ h => h) fun _ _ h => h.stopped)
    fun artifactId => ?_
  refine Triple.bind (Triple.modify (Q := fun _ s => memberId record = some artifactId ∧
    Built stage artifacts k₀ pass s) fun s hs => ⟨hs.1, hs.2.active _⟩) fun _ => ?_
  refine Triple.bind ((triple_artifactById artifactId _).conseq (fun _ h => h) (fun _ _ h => h)
    fun _ _ h => h.2.stopped) fun a => ?_
  apply Triple.each
  intro s hs
  obtain ⟨hfind, hid, h⟩ := hs
  have ha := (findArtifact_eq_some hfind).1
  have hlinks := hun artifactId a hid hfind
  have hnext := pass.next_begin hfind
  rw [hpath]
  refine Triple.bind (triple_ensureParent hsound h ha hlinks) fun _ => Triple.each fun t ht => ?_
  have hdone : ∀ t, Built stage artifacts k₀ (pass.begin a) t → ∃ artifactId, memberId record = some artifactId ∧
      Built stage artifacts k₀ (pass.next artifacts (.begin artifactId)) t :=
    fun t ht => ⟨artifactId, hid, hnext ▸ ht⟩
  cases htype : a.fileType with
  | directory =>
    exact (triple_makeDirectory hsound h ha ht hlinks htype).conseq (fun _ h => h) (fun _ => hdone) fun _ _ h => h
  | regular =>
    exact (triple_createArtifact hsound h ha ht hlinks htype).conseq (fun _ h => h) (fun _ => hdone) fun _ _ h => h
  | symlink =>
    exact (triple_linkArtifact hsound h ha ht hlinks htype).conseq (fun _ h => h) (fun _ => hdone) fun _ _ h => h

/-! ## Octets -/

section Write
variable (stage k₀) in
/-- All nodes but the file at `loc` are as before, and that has these octets. -/
structure Writing (before : Loc → Option Node) (loc : Loc) (mode : Nat) (data : Bytes) (k : Kernel) : Prop where
  inside : stage.Inside k₀ k
  node : k.fs.node = FileSystem.setNode before loc (.file mode data)

omit hsound in
theorem triple_writeAll {before : Loc → Option Node} {loc : Loc} {mode : Nat} (hloc : stage.loc <+: loc)
    (hne : loc ≠ stage.loc) (fuel : Nat) : ∀ {written data : Bytes}, data.length ≤ fuel →
    Triple (Writing stage k₀ before loc mode written) (writeAll env loc fuel data)
      (fun _ => Writing stage k₀ before loc mode (written ++ data)) fun _ => stage.Inside k₀ := by
  induction fuel with
  | zero =>
    intro written data hlength
    obtain rfl := List.length_eq_zero_iff.mp (Nat.le_zero.mp hlength)
    exact Triple.pure fun k hk => by rwa [List.append_nil]
  | succ fuel ih =>
    intro written data hlength
    rw [writeAll]
    by_cases hdata : data = []
    · rw [if_pos hdata, hdata]
      exact Triple.pure fun k hk => by rwa [List.append_nil]
    rw [if_neg hdata]
    apply Triple.each
    intro k hk
    have hthere : k.fs.node loc = some (.file mode written) := by rw [hk.node, FileSystem.setNode_self]
    refine Triple.bind (Q := fun count k' => count ≤ data.length ∧
        Writing stage k₀ before loc mode (written ++ data.take count) k') ?_ fun count => ?_
    · refine (triple_writeSome loc data k).conseq (fun _ hs => hs) ?_ fun _ _ hstill => hk.inside.still hstill
      intro count k' hcall
      obtain ⟨hcount, node, hnode, hchanged⟩ := hcall
      obtain rfl := Option.some.inj (hthere.symm.trans hnode)
      refine ⟨hcount, hk.inside.changed hchanged hloc (fun _ hl => absurd hl List.not_mem_nil) fun heq => absurd heq hne, ?_⟩
      rw [hchanged.node, hk.node, FileSystem.setNode_setNode]
      rfl
    · by_cases hzero : count = 0
      · rw [if_pos hzero]
        exact Triple.throw fun k' hk' => hk'.2.inside
      · rw [if_neg hzero]
        refine Triple.each fun k' hk' => ?_
        have hrest : (data.drop count).length ≤ fuel := by
          rw [List.length_drop]
          omega
        refine (ih hrest).conseq (fun _ hs => hs ▸ hk'.2) (fun _ k'' hdone => ?_) fun _ _ h => h
        rwa [List.append_assoc, List.take_append_drop] at hdone

theorem triple_writeChunk (lineNumber : Nat) :
    Triple (Built stage artifacts k₀ pass) (writeChunk env record lineNumber)
      (fun _ t => ∃ artifactId data, memberId record = some artifactId ∧ chunkData record lineNumber = .ok data ∧
        Built stage artifacts k₀ (pass.next artifacts (.chunk artifactId data)) t) fun _ => Stopped stage k₀ := by
  apply Triple.get
  intro s h
  cases hdescriptor : s.fileDescriptor with
  | none => exact Triple.throw fun t ht => ht ▸ h.stopped
  | some descriptor =>
    dsimp only
    have hholder := h.descriptor
    rw [hdescriptor, eq_comm, Option.map_eq_some_iff] at hholder
    obtain ⟨a, ha, rfl⟩ := hholder
    obtain ⟨hbegun, htype⟩ := h.held a ha
    have hknown := h.known a hbegun
    refine Triple.bind ((triple_recordId record _).conseq (fun _ h => h) (fun _ _ h => h) fun _ _ ht => ht ▸ h.stopped)
      fun artifactId => Triple.each fun t ht => ?_
    obtain ⟨hid, rfl⟩ := ht
    by_cases hactive : t.activeId ≠ some artifactId
    · rw [if_pos hactive]
      exact Triple.throw fun u hu => hu ▸ h.stopped
    rw [if_neg hactive]
    refine Triple.bind ((triple_python _ _).conseq (fun _ h => h) (fun _ _ h => h) fun _ _ hu => hu ▸ h.stopped)
      fun data => Triple.each fun u hu => ?_
    obtain ⟨hdata, rfl⟩ := hu
    obtain ⟨mode, hnode⟩ := (standing_regular htype).mp (h.tree.stands a hbegun)
    have hstart : Writing stage k₀ u.kernel.fs.node (stage.loc ++ a.components) mode (pass.content a.artifactId) u.kernel :=
      ⟨h.inside, (FileSystem.setNode_eq_self hnode).symm⟩
    have hplace : stage.loc ++ a.components ≠ stage.loc :=
      fun heq => hsound.nonempty a hknown (List.append_right_eq_self.mp heq)
    have hwrite := @triple_writeAll env stage k₀ u.kernel.fs.node (stage.loc ++ a.components) mode
      (List.prefix_append _ _) hplace data.length (pass.content a.artifactId) data (Nat.le_refl _)
    refine (triple_call h.closable (hwrite.conseq (fun _ hk => hk ▸ hstart) (fun _ _ h => h) fun _ _ h => h)).conseq
      (fun _ hs => hs) ?_ fun _ _ h => h
    intro _ v hmade
    obtain ⟨k, hwritten, rfl⟩ := hmade
    refine ⟨artifactId, data, hid, hdata, ?_⟩
    rw [Pass.next_chunk artifacts artifactId data ha]
    have htree : Tree stage (a :: pass.begun) pass.begun
        (Function.update pass.content a.artifactId (pass.content a.artifactId ++ data)) k.fs := by
      refine h.tree.set hwritten.node ((standing_regular htype).mpr ⟨mode, by rw [Function.update_self]⟩) fun b hb hne => ?_
      refine ⟨h.apart hsound hknown hb hne, Function.update_of_ne (fun heq => hne ?_) _ _⟩
      exact hsound.eq_of_id (h.known b hb) hknown heq
    refine ⟨hwritten.inside, htree.again hbegun, h.known, h.descriptor, h.held, h.closable, ?_, h.modes⟩
    · intro b hb hnot
      rw [← h.unwritten b hb hnot]
      refine Function.update_of_ne (fun heq => hnot ?_) _ _
      rwa [hsound.eq_of_id hb hknown heq]

end Write

/-! ## The end of a group -/

omit hsound in
theorem triple_close (descriptor : Loc) (s : Locals) :
    Triple (fun t => t = s) (close env descriptor)
      (fun _ t => ∃ k, s.kernel.Still k ∧ t = { s with kernel := k, descriptors := s.descriptors.erase descriptor })
      fun _ t => s.kernel.Still t.kernel ∧ t.kernel.calls.getLast? = some .close := by
  apply Triple.get
  intro s' hs'
  subst hs'
  intro t ht
  subst ht
  have hclosed := ((@triple_tick env .close t.kernel).and (tick_calls .close t.kernel)) t.kernel rfl
  rw [run_bind, run_set]
  dsimp only
  rw [run_bind]
  unfold system
  dsimp only
  cases htick : tick env .close t.kernel with
  | error error k =>
    rw [htick] at hclosed
    refine ⟨hclosed.1, ?_⟩
    rw [hclosed.2, List.getLast?_concat]
  | ok u k =>
    rw [htick] at hclosed
    dsimp only
    by_cases hopen : t.descriptors.contains descriptor = true
    · rw [if_pos hopen]
      exact ⟨k, hclosed.1, rfl⟩
    · rw [if_neg hopen]
      refine ⟨hclosed.1, ?_⟩
      show k.calls.getLast? = some .close
      rw [hclosed.2, List.getLast?_concat]

/-- The octets of a file are synchronised, its mode is set and its descriptor closed. -/
theorem triple_finish (h : Built stage artifacts k₀ pass s) {a : Artifact} (ha : pass.holder = some a) (mode : Nat) :
    Triple (fun t => t = s) (system (fsync env) >>= fun _ =>
      system (changeMode env (stage.loc ++ a.components) mode) >>= fun _ =>
      close env (stage.loc ++ a.components) >>= fun _ => modify fun s => { s with fileDescriptor := none })
      (fun _ => Built stage artifacts k₀ { pass with holder := none }) fun _ => Stopped stage k₀ := by
  obtain ⟨hbegun, htype⟩ := h.held a ha
  have hknown := h.known a hbegun
  refine Triple.bind (triple_call h.closable ((triple_tick _ s.kernel).conseq (fun _ hk => hk) (fun _ _ hk => hk)
    fun _ _ hk => h.inside.still hk)) fun _ => Triple.each fun t ht => ?_
  obtain ⟨k, hsynced, rfl⟩ := ht
  have hinside := h.inside.still hsynced
  obtain ⟨old, hnode⟩ := (standing_regular htype).mp (h.tree.stands a hbegun)
  rw [← hsynced.fs] at hnode
  refine Triple.bind (triple_call (s := { s with kernel := k }) h.closable ((triple_changeMode _ mode k).conseq
    (fun _ hk => hk) (fun _ _ hk => hk) fun _ _ hk => hinside.still hk)) fun _ => Triple.each fun t ht => ?_
  obtain ⟨k', ⟨node, hold, hchanged⟩, rfl⟩ := ht
  obtain rfl := Option.some.inj (hnode.symm.trans hold)
  have hmoded := hinside.place hchanged (hsound.nonempty a hknown) rfl fun _ hl => absurd hl List.not_mem_nil
  refine Triple.bind ((triple_close _ _).conseq (fun _ hu => hu) (fun _ _ hu => hu) fun _ u hu => ?_) fun _ =>
    Triple.modify fun u hu => ?_
  · exact ⟨hmoded.still hu.1, fun hnot => absurd hu.2 hnot⟩
  · obtain ⟨k'', hclosed, rfl⟩ := hu
    have hbefore : Tree stage pass.begun pass.begun pass.content k.fs := hsynced.fs ▸ h.tree
    have htree : Tree stage (a :: pass.begun) pass.begun pass.content k''.fs := by
      rw [hclosed.fs]
      refine hbefore.set hchanged.node ((standing_regular htype).mpr ⟨mode, rfl⟩) fun b hb hne => ?_
      exact ⟨h.apart hsound hknown hb hne, rfl⟩
    exact ⟨hmoded.still hclosed, htree.again hbegun, h.known, rfl, nofun, nofun, h.unwritten, h.modes⟩

theorem triple_finishFile (artifact : Artifact) :
    Triple (Built stage artifacts k₀ pass) (finishFile env request artifact)
      (fun _ => Built stage artifacts k₀ { pass with holder := none }) fun _ => Stopped stage k₀ := by
  apply Triple.get
  intro s h
  have hholder := h.descriptor
  cases hdescriptor : s.fileDescriptor with
  | none =>
    rw [hdescriptor, eq_comm, Option.map_eq_none_iff] at hholder
    have hsame : ({ pass with holder := none } : Pass) = pass := by rw [← hholder]
    exact Triple.pure fun t ht => by rwa [ht, hsame]
  | some descriptor =>
    rw [hdescriptor, eq_comm, Option.map_eq_some_iff] at hholder
    obtain ⟨a, ha, rfl⟩ := hholder
    exact triple_finish hsound h ha _

theorem triple_endArtifact :
    Triple (Built stage artifacts k₀ pass) (endArtifact env request artifacts record)
      (fun _ t => ∃ artifactId, memberId record = some artifactId ∧
        Built stage artifacts k₀ (pass.next artifacts (.finish artifactId)) t) fun _ => Stopped stage k₀ := by
  unfold endArtifact
  refine Triple.bind ((triple_recordId record _).conseq (fun _ h => h) (fun _ _ h => h) fun _ _ h => h.stopped)
    fun artifactId => Triple.each fun s hs => ?_
  obtain ⟨hid, h⟩ := hs
  refine Triple.bind ((triple_artifactById artifactId _).conseq (fun _ h => h) (fun _ _ h => h)
    fun _ _ ht => ht ▸ h.stopped) fun artifact => ?_
  refine Triple.bind ((triple_finishFile hsound artifact).conseq (fun _ ht => ht.2 ▸ h) (fun _ _ h => h) fun _ _ h => h)
    fun _ => Triple.modify fun t ht => ⟨artifactId, hid, ht.active _⟩

/-! ## The loop -/

omit hsound in
theorem parse_line {raw : Bytes} {line : Nat} {d : Dict} (h : parseJsonObject raw line = .ok d) :
    (parseJsonObject raw 0).toOption = some d := by
  rw [parseJsonObject_eq_ok.mpr (parseJsonObject_eq_ok.mp h)]
  rfl

omit hsound in
theorem chunkData_line {line : Nat} {data : Bytes} (h : chunkData record line = .ok data) :
    (chunkData record 0).toOption = some data := by
  have hany : chunkData record 0 = .ok data := by
    unfold chunkData byteValue at h ⊢
    simp only [bind_eq_ok, dictItem_eq_ok, decodeByteValue_eq_ok] at h ⊢
    exact h
  rw [hany]
  rfl

/-- One line is read and built. -/
theorem triple_reassembleLine (hpath : request.stage = stage.path) (rawLine : Bytes) (lineNumber : Nat)
    (hun : ∀ artifactId a, readingOf rawLine = some (.begin artifactId) →
      findArtifact artifacts artifactId = some a → Unlinked pass.begun a) :
    Triple (Built stage artifacts k₀ pass) (reassembleLine env request artifacts rawLine lineNumber)
      (fun _ t => ∃ reading, readingOf rawLine = some reading ∧
        Built stage artifacts k₀ (pass.next artifacts reading) t) fun _ => Stopped stage k₀ := by
  unfold reassembleLine
  refine Triple.bind ((triple_python _ _).conseq (fun _ h => h) (fun _ _ h => h) fun _ _ h => h.stopped)
    fun record => Triple.each fun s hs => ?_
  obtain ⟨hparse, h⟩ := hs
  refine Triple.bind ((triple_python _ _).conseq (fun _ h => h) (fun _ _ h => h) fun _ _ ht => ht ▸ h.stopped)
    fun recordType => Triple.each fun t ht => ?_
  obtain ⟨htype, rfl⟩ := ht
  have hreading : readingOf rawLine = recordReading record := by
    rw [readingOf, parse_line hparse]
    rfl
  rw [hreading] at hun ⊢
  unfold recordReading at hun ⊢
  rw [dictItem_eq_ok.mp htype] at hun ⊢
  dsimp only at hun ⊢
  by_cases hbegin : isText (some recordType) "artifact_begin" = true
  · rw [if_pos hbegin] at hun
    rw [if_pos hbegin, if_pos hbegin]
    refine (triple_beginArtifact hsound hpath fun artifactId a hid => hun artifactId a (by rw [hid]; rfl)).conseq
      (fun _ hs => hs ▸ h) (fun _ u hu => ?_) fun _ _ h => h
    obtain ⟨artifactId, hid, hbuilt⟩ := hu
    exact ⟨.begin artifactId, by rw [hid]; rfl, hbuilt⟩
  rw [if_neg hbegin, if_neg hbegin]
  by_cases hchunk : isText (some recordType) "artifact_chunk" = true
  · rw [if_pos hchunk, if_pos hchunk]
    refine (triple_writeChunk hsound lineNumber).conseq (fun _ hs => hs ▸ h) (fun _ u hu => ?_) fun _ _ h => h
    obtain ⟨artifactId, data, hid, hdata, hbuilt⟩ := hu
    refine ⟨.chunk artifactId data, ?_, hbuilt⟩
    rw [hid, Option.bind_some, chunkData_line hdata]
    rfl
  rw [if_neg hchunk, if_neg hchunk]
  by_cases hend : isText (some recordType) "artifact_end" = true
  · rw [if_pos hend, if_pos hend]
    refine (triple_endArtifact hsound).conseq (fun _ hs => hs ▸ h) (fun _ u hu => ?_) fun _ _ h => h
    obtain ⟨artifactId, hid, hbuilt⟩ := hu
    exact ⟨.finish artifactId, by rw [hid]; rfl, hbuilt⟩
  · rw [if_neg hend, if_neg hend]
    exact Triple.pure fun u hu => ⟨.other, rfl, hu ▸ h⟩

/-- The loop builds what the lines deliver. -/
theorem triple_reassembleLines (hpath : request.stage = stage.path) (rawLines : List Bytes) :
    ∀ {pass : Pass} {lineNumber : Nat}, Pass.Apart artifacts pass (rawLines.filterMap readingOf) →
    Triple (Built stage artifacts k₀ pass) (reassembleLines env request artifacts lineNumber rawLines)
      (fun _ => Built stage artifacts k₀ ((rawLines.filterMap readingOf).foldl (Pass.next artifacts) pass))
      fun _ => Stopped stage k₀ := by
  induction rawLines with
  | nil => exact fun _ => Triple.pure fun _ h => h
  | cons rawLine rawLines ih =>
    intro pass lineNumber hapart
    rw [reassembleLines]
    cases hreading : readingOf rawLine with
    | none =>
      refine Triple.bind (triple_reassembleLine hsound hpath rawLine _ fun artifactId a hbegin => ?_) fun _ s hs => ?_
      · rw [hreading] at hbegin
        cases hbegin
      · obtain ⟨reading, hsome, -⟩ := hs
        rw [hreading] at hsome
        cases hsome
    | some reading =>
      rw [List.filterMap_cons, hreading] at hapart ⊢
      dsimp only at hapart ⊢
      refine Triple.bind (triple_reassembleLine hsound hpath rawLine _ fun artifactId a hbegin => ?_) fun _ =>
        (ih hapart.2).conseq (fun s hs => ?_) (fun _ _ h => h) fun _ _ h => h
      · exact hapart.1 artifactId a (Option.some.inj (hreading.symm.trans hbegin))
      · obtain ⟨reading', hsome, hbuilt⟩ := hs
        rwa [Option.some.inj (hreading.symm.trans hsome)]

end Loop

end GetBibleSword.Tool
