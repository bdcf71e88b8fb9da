import GetBibleSword.Tool.SecondPass

/-!
# What a reassembly that returns has built

* `Published` : what `os.replace` and the steps behind it have done;
* `Reassembled` : a run that returned, taken apart;
* `Contains` : the tree of the artifacts of a summary; `Delivered` : the records deliver it;
* `reassembled_tree_iff` : the destination is that tree exactly when they do.

Nothing in the loop looks at the size, the digest or the number of what it has written.
-/

namespace GetBibleSword.Tool
open GetBibleSword.Lib Posix
open GetBibleSword.Core (recordLines)

section Publish
variable {env : Env} {request : Request} {stage : Stage env} {artifacts : List Artifact} {k₀ : Kernel} {pass : Pass}
  {s t : Locals}

/-! ## Modes -/

theorem Tree.clear_above {begun places : List Artifact} {content : Nat → Bytes} {fs : FileSystem}
    (h : Tree stage begun places content fs) {a : Artifact} (ha : a ∈ begun) (hne : a.components ≠ []) :
    stage.Clear fs a.components.dropLast := by
  intro above habove target hlink
  obtain ⟨rest, hrest⟩ := habove.trans (List.dropLast_prefix a.components)
  have hnonempty : rest ≠ [] := by
    rintro rfl
    rw [List.append_nil] at hrest
    rw [hrest] at habove
    have hlength := habove.length_le
    rw [List.length_dropLast] at hlength
    have hpos := List.length_pos_of_ne_nil hne
    omega
  have hthere := (h.stands a ha).ne_none
  rw [← hrest, ← List.append_assoc] at hthere
  obtain ⟨mode, hmode⟩ := FileSystem.dir_of_below hthere hnonempty
  rw [hlink] at hmode
  cases hmode

/-- The modes of directories are set where they stand. -/
theorem triple_restoreModes (hsound : Sound artifacts) (entries : List (List Name × Nat))
    (hentries : ∀ entry ∈ entries, ∃ a ∈ pass.begun, a.fileType = .directory ∧ entry.1 = stage.path ++ a.components) :
    Triple (Built stage artifacts k₀ pass) (restoreModes env request entries)
      (fun _ => Built stage artifacts k₀ pass) fun _ => Stopped stage k₀ := by
  induction entries with
  | nil => exact Triple.pure fun _ h => h
  | cons entry entries ih =>
    obtain ⟨directory, mode⟩ := entry
    obtain ⟨⟨a, ha, htype, hplace⟩, hrest⟩ := List.forall_mem_cons.mp hentries
    rw [restoreModes]
    refine Triple.bind (Q := fun _ => Built stage artifacts k₀ pass) ?_ fun _ => ih hrest
    apply Triple.each
    intro s h
    refine (triple_call h.closable ((triple_chmod directory _ s.kernel).conseq (fun _ hk => hk) (fun _ _ hk => hk)
      fun _ _ hk => h.inside.still hk)).conseq (fun _ hs => hs) (fun _ t ht => ?_) fun _ _ hk => hk
    obtain ⟨k, ⟨e, node, hlocate, hnode, hchanged⟩, rfl⟩ := ht
    have hknown := h.known a ha
    rw [show directory = stage.path ++ a.components from hplace] at hlocate
    obtain ⟨hloc, hvia⟩ := h.inside.around.locate_place (hsound.nonempty a hknown) (hsound.named a hknown)
      (h.tree.clear_above ha (hsound.nonempty a hknown)) hlocate
    obtain ⟨old, hold⟩ := (standing_directory htype).mp (h.tree.stands a ha)
    rw [hloc, hold] at hnode
    obtain rfl := Option.some.inj hnode
    have hinside := h.inside.place hchanged (hsound.nonempty a hknown) hloc fun l hl => hvia ▸ hl
    have htree : Tree stage (a :: pass.begun) pass.begun pass.content k.fs := by
      refine h.tree.set (hloc ▸ hchanged.node) ((standing_directory htype).mpr ⟨_, rfl⟩) fun b hb hne => ?_
      exact ⟨h.apart hsound hknown hb hne, rfl⟩
    exact ⟨hinside, htree.again ha, h.known, h.descriptor, h.held, h.closable, h.unwritten, h.modes⟩

/-! ## The new name -/

variable (env request) in
/-- The stage has the name of the destination. -/
structure Published (s t : Locals) (e e' : Entry) : Prop where
  renamed : ∃ k, Renamed env request.stage request.destination s.kernel k e e' ∧ k.Still t.kernel
  locals : t = { s with kernel := t.kernel }

theorem triple_still {call : Call Unit} (P : Kernel → Prop)
    (h : ∀ k, P k → Triple (fun k' => k' = k) call (fun _ => P) fun _ => P) (s : Locals) (hs : P s.kernel) :
    Triple (fun t => t = s) (system call) (fun _ t => P t.kernel ∧ t = { s with kernel := t.kernel })
      fun _ t => P t.kernel ∧ t = { s with kernel := t.kernel } := by
  intro t ht
  subst ht
  have hcall := h t.kernel hs t.kernel rfl
  unfold system
  cases hrun : call t.kernel with
  | ok a k =>
    rw [hrun] at hcall
    exact ⟨hcall, rfl⟩
  | error error k =>
    rw [hrun] at hcall
    exact ⟨hcall, rfl⟩

/-- It returns or raises behind the rename, or raises before it. -/
theorem triple_publish (s : Locals) :
    Triple (fun t => t = s) (publish env request) (fun _ t => ∃ e e', Published env request s t e e')
      fun _ t => (s.kernel.Still t.kernel ∧ t = { s with kernel := t.kernel }) ∨
        ∃ e e', Published env request s t e e' := by
  have hmoved : Triple (fun t => t = s) (system (renameDirectory env request.stage request.destination))
      (fun _ t => ∃ e e', Published env request s t e e')
      fun _ t => s.kernel.Still t.kernel ∧ t = { s with kernel := t.kernel } := by
    intro t ht
    subst ht
    have hcall := @triple_renameDirectory env request.stage request.destination t.kernel t.kernel rfl
    unfold system
    cases hrun : renameDirectory env request.stage request.destination t.kernel with
    | ok a k =>
      rw [hrun] at hcall
      obtain ⟨e, e', hrenamed⟩ := hcall
      exact ⟨e, e', ⟨k, hrenamed, .refl k⟩, rfl⟩
    | error error k =>
      rw [hrun] at hcall
      exact ⟨hcall, rfl⟩
  have hafter : ∀ {call : Call Unit}, (∀ k, Triple (fun k' => k' = k) call (fun _ => k.Still) fun _ => k.Still) →
      Triple (fun t => ∃ e e', Published env request s t e e') (system call)
        (fun _ t => ∃ e e', Published env request s t e e') fun _ t => ∃ e e', Published env request s t e e' := by
    intro call hcall
    apply Triple.each
    intro t ht
    obtain ⟨e, e', ⟨k, hrenamed, hstill⟩, hlocals⟩ := ht
    have hkept : ∀ u : Locals, k.Still u.kernel ∧ u = { t with kernel := u.kernel } →
        ∃ e e', Published env request s u e e' := by
      intro u hu
      refine ⟨e, e', ⟨k, hrenamed, hu.1⟩, ?_⟩
      rw [hu.2, hlocals]
    refine (triple_still (k.Still ·) (fun k' hk' => (hcall k').conseq (fun _ h => h) (fun _ _ h => hk'.trans h)
      fun _ _ h => hk'.trans h) t hstill).conseq (fun _ h => h) (fun _ => hkept) fun _ => hkept
  unfold publish
  refine Triple.bind (hmoved.conseq (fun _ h => h) (fun _ _ h => h) fun _ _ h => .inl h) fun _ => ?_
  refine Triple.bind ((hafter (triple_openDirectory _)).conseq (fun _ h => h) (fun _ _ h => h) fun _ _ h => .inr h)
    fun _ => ?_
  refine Triple.bind (Triple.tryCatch (hafter (triple_tick _)) fun error => Triple.bind
    ((hafter (triple_tick _)).conseq (fun _ h => h) (fun _ _ h => h) fun _ _ h => .inr h) fun _ =>
      Triple.throw fun _ h => .inr h) fun _ => ?_
  exact (hafter (triple_tick _)).conseq (fun _ h => h) (fun _ _ h => h) fun _ _ h => .inr h

/-! ## The run -/

theorem Built.still (h : Built stage artifacts k₀ pass s) {k : Kernel} (hstill : s.kernel.Still k) :
    Built stage artifacts k₀ pass { s with kernel := k } :=
  ⟨h.inside.still hstill, hstill.fs ▸ h.tree, h.known, h.descriptor, h.held, h.closable, h.unwritten, h.modes⟩

variable (stage artifacts k₀ pass) in
/-- Behind the block `try`: everything was built and has the new name. -/
def Finished (env : Env) (request : Request) (t : Locals) : Prop :=
  ∃ s e e', Built stage artifacts k₀ pass s ∧ Published env request s t e e'

theorem triple_build (hsound : Sound artifacts) (hpath : request.stage = stage.path) (source : Bytes)
    (hapart : Pass.Apart artifacts .start ((fileLines source).filterMap readingOf)) :
    Triple (Built stage artifacts k₀ .start) (build env request artifacts source)
      (fun _ => Finished stage artifacts k₀ (deliveries artifacts source) env request)
      fun _ t => Stopped stage k₀ t ∨ Finished stage artifacts k₀ (deliveries artifacts source) env request t := by
  unfold build
  refine Triple.bind (Q := fun _ => Built stage artifacts k₀ .start) (Triple.each fun s h => ?_) fun _ => ?_
  · refine (triple_call h.closable ((triple_tick _ s.kernel).conseq (fun _ hk => hk) (fun _ _ hk => hk)
      fun _ _ hk => h.inside.still hk)).conseq (fun _ hs => hs) (fun _ t ht => ?_) fun _ _ hk => .inl hk
    obtain ⟨k, hstill, rfl⟩ := ht
    exact h.still hstill
  refine Triple.bind ((triple_reassembleLines hsound hpath _ hapart).conseq (fun _ h => h) (fun _ _ h => h)
    fun _ _ h => .inl h) fun _ => ?_
  apply Triple.get
  intro s h
  have hmodes : ∀ entry ∈ deepestFirst s.directoryModes, ∃ a ∈ (deliveries artifacts source).begun,
      a.fileType = .directory ∧ entry.1 = stage.path ++ a.components := by
    intro entry hentry
    exact h.modes entry ((List.mergeSort_perm _ _).mem_iff.mp hentry)
  refine Triple.bind ((triple_restoreModes hsound _ hmodes).conseq (fun _ ht => ht ▸ h) (fun _ _ h => h)
    fun _ _ h => .inl h) fun _ => Triple.each fun t ht => ?_
  refine (triple_publish t).conseq (fun _ hs => hs) (fun _ u hu => ?_) fun _ u hu => ?_
  · obtain ⟨e, e', hpublished⟩ := hu
    exact ⟨t, e, e', ht, hpublished⟩
  · rcases hu with ⟨hstill, hlocals⟩ | ⟨e, e', hpublished⟩
    · refine .inl (hlocals ▸ (ht.still hstill).stopped)
    · exact .inr ⟨t, e, e', ht, hpublished⟩

theorem abandon_ne_ok (env : Env) (request : Request) (error : ReassembleError) (s t : Locals) (u : Unit) :
    abandon env request error s ≠ .ok u t := by
  intro h
  unfold abandon at h
  obtain ⟨_, v, -, h⟩ := bind_ok.mp h
  obtain ⟨_, w, -, h⟩ := bind_ok.mp h
  rw [run_throw] at h
  cases h

variable (env request) in
/-- A run up to the block `try`: what was there before the stage was made, and the stage. -/
structure Staged (summary : ValidationSummary) (k k₁ k₂ : Kernel) (stage : Stage env) : Prop where
  refusals : refusals env request summary k.fs = .ok ()
  parents : makeParents env request.parent k = .ok () k₁
  before : stage.before = k₁.fs
  path : request.stage = stage.path
  changed : k₁.Changed ⟨.mkdir, stage.loc, stage.via⟩ (.dir (masked env 0o700)) k₂

variable {summary : ValidationSummary} {k k₁ k₂ : Kernel}

/-- The stage is empty. -/
theorem Staged.built (h : Staged env request summary k k₁ k₂ stage) :
    Built stage artifacts k₂ .start (Locals.start k₂) := by
  have hnode : ∀ l, l ≠ stage.loc → k₂.fs.node l = stage.before.node l := by
    intro l hl
    rw [h.changed.node, h.before, FileSystem.setNode_of_ne _ hl]
  have haround : stage.Around k₂.fs := by
    refine ⟨fun l hl => hnode l ?_, FileSystem.isDir_iff.mpr ⟨_, by rw [h.changed.node, FileSystem.setNode_self]⟩⟩
    rintro rfl
    exact hl List.prefix_rfl
  refine ⟨⟨haround, .refl k₂⟩, ⟨fun a ha => absurd ha List.not_mem_nil, fun names hne hthere => ?_⟩,
    fun a ha => absurd ha List.not_mem_nil, rfl, nofun, nofun, fun _ _ _ => rfl,
    fun entry hentry => absurd hentry List.not_mem_nil⟩
  have hnone := hnode (stage.loc ++ names) fun heq => hne (List.append_right_eq_self.mp heq)
  exact absurd (hnone.trans (Stage.before_below names)) hthere

variable (env request) in
/-- What a request that is not refused is. -/
structure Granted (summary : ValidationSummary) (fs : FileSystem) : Prop where
  command : summary.command = some .extract
  success : summary.success = true
  absent : exists_ env fs request.destination = false
  unlinked : isLink env fs request.destination = false
  links : request.allowSymlinks = true ∨ ∀ a ∈ summary.artifacts, a.fileType ≠ .symlink
  targets : ∀ a ∈ summary.artifacts, a.fileType = .symlink → safeSymlinkTarget a = .ok ()

theorem checkAll_eq_ok {α : Type} {check : α → Except PyError Unit} (xs : List α) {u : Unit} :
    checkAll xs check = .ok u ↔ ∀ x ∈ xs, check x = .ok () := by
  induction xs with
  | nil => exact iff_of_true rfl fun x hx => absurd hx List.not_mem_nil
  | cons x xs ih =>
    rw [checkAll, bind_eq_ok, List.forall_mem_cons, ← ih]
    constructor
    · intro h
      obtain ⟨_, hx, hxs⟩ := h
      exact ⟨hx, hxs⟩
    · exact fun h => ⟨(), h.1, h.2⟩

theorem refusals_eq_ok {fs : FileSystem} {u : Unit} :
    refusals env request summary fs = .ok u ↔ Granted env request summary fs := by
  simp only [refusals, bind_eq_ok, failStream_eq_ok, checkAll_eq_ok, List.mem_filter, decide_eq_true_eq, not_not,
    not_or, not_and, Bool.not_eq_true, Bool.not_eq_false]
  constructor
  · intro h
    obtain ⟨_, hcommand, _, hsuccess, _, ⟨habsent, hunlinked⟩, _, hlinks, htargets⟩ := h
    refine ⟨hcommand, hsuccess, habsent, hunlinked, ?_, fun a ha htype => htargets a ⟨ha, htype⟩⟩
    by_cases hnone : ∀ a ∈ summary.artifacts, a.fileType ≠ .symlink
    · exact .inr hnone
    · refine .inl (hlinks fun hnil => hnone fun a ha htype => ?_)
      exact absurd (decide_eq_true htype) (List.filter_eq_nil_iff.mp hnil a ha)
  · intro h
    refine ⟨(), h.command, (), h.success, (), ⟨h.absent, h.unlinked⟩, (), fun hne => ?_, fun a ha => h.targets a ha.1 ha.2⟩
    refine h.links.resolve_right fun hnone => hne (List.filter_eq_nil_iff.mpr fun a ha => ?_)
    rw [decide_eq_true_eq]
    exact hnone a ha

theorem triple_system {α : Type} (call : Call α) (s : Locals) :
    Triple (fun t => t = s) (system call) (fun a t => ∃ k, call s.kernel = .ok a k ∧ t = { s with kernel := k })
      fun _ t => ∃ error k, call s.kernel = .error error k ∧ t = { s with kernel := k } := by
  intro t ht
  subst ht
  unfold system
  cases call t.kernel with
  | ok a k => exact ⟨k, rfl, rfl⟩
  | error error k => exact ⟨error, k, rfl, rfl⟩

/-- A run makes a stage and builds in it, or ends before. -/
theorem triple_reassemble {source : Bytes} {Q : Unit → Locals → Prop} {E : ReassembleError → Locals → Prop}
    (hearly : ∀ error k', E error (Locals.start k'))
    (hbuild : ∀ (stage : Stage env) (k₁ k₂ : Kernel), Staged env request summary k k₁ k₂ stage →
      Triple (fun t => t = Locals.start k₂)
        (tryCatch (build env request summary.artifacts source) (abandon env request)) Q E) :
    Triple (fun t => t = Locals.start k) (reassemble env request summary source) Q E := by
  unfold reassemble construct
  apply Triple.get
  intro s hs
  subst hs
  refine Triple.bind ((triple_python _ _).conseq (fun _ h => h) (fun _ _ h => h) fun error t ht => ht ▸ hearly error k)
    fun _ => Triple.each fun s hs => ?_
  obtain ⟨hrefusals, rfl⟩ := hs
  refine Triple.bind ((triple_system _ _).conseq (fun _ h => h) (fun _ _ h => h) fun error t ht => ?_) fun _ =>
    Triple.each fun s hs => ?_
  · obtain ⟨_, k', -, rfl⟩ := ht
    exact hearly error k'
  obtain ⟨k₁, hparents, rfl⟩ := hs
  refine Triple.bind ((triple_system _ _).conseq (fun _ h => h) (fun _ _ h => h) fun error t ht => ?_) fun _ =>
    Triple.each fun s hs => ?_
  · obtain ⟨_, k', -, rfl⟩ := ht
    exact hearly error k'
  obtain ⟨k₂, hmkdir, rfl⟩ := hs
  obtain ⟨e, hlocate, hfresh, -, hchanged⟩ := (triple_mkdir request.stage 0o700 k₁).ok rfl hmkdir
  have hloc : e.loc = (Stage.ofLocate hlocate hfresh).loc := by
    rw [Entry.loc, (locate_eq_ok hlocate).2.2.2]
    rfl
  rw [hloc] at hchanged
  exact hbuild (Stage.ofLocate hlocate hfresh) k₁ k₂ ⟨hrefusals, hparents, rfl, rfl, hchanged⟩

/-- What a run that returned has built, where no artifact is begun below a link. -/
theorem finished_of_ok (hsound : Sound summary.artifacts) {source : Bytes} {t : Locals} {u : Unit}
    (hapart : Pass.Apart summary.artifacts .start ((fileLines source).filterMap readingOf))
    (h : reassemble env request summary source (Locals.start k) = .ok u t) :
    ∃ (stage : Stage env) (k₂ : Kernel), request.stage = stage.path ∧
      Finished stage summary.artifacts k₂ (deliveries summary.artifacts source) env request t := by
  refine Triple.ok (P := fun t => t = Locals.start k) (E := fun _ _ => True)
    (Q := fun _ t => ∃ (stage : Stage env) (k₂ : Kernel), request.stage = stage.path ∧
      Finished stage summary.artifacts k₂ (deliveries summary.artifacts source) env request t) ?_ rfl h
  refine triple_reassemble (fun _ _ => trivial) fun stage k₁ k₂ hstaged => ?_
  refine Triple.tryCatch (E := fun _ _ => True) ((triple_build hsound hstaged.path source hapart).conseq
    (fun _ ht => ht ▸ hstaged.built) (fun _ t ht => ⟨stage, k₂, hstaged.path, ht⟩) fun _ _ _ => trivial) fun error => ?_
  intro s _
  cases hrun : abandon env request error s with
  | ok u t => exact absurd hrun (abandon_ne_ok env request error s t u)
  | error error t => trivial

end Publish

/-! ## The tree of a summary -/

/-- The object an artifact was recorded as. -/
def Recorded (a : Artifact) (node : Option Node) : Prop :=
  ∃ content, Standing content a node ∧
    (a.fileType = .regular → content.length = a.size ∧ Sha256.hexdigest content = a.sha256)

/-- A directory holds the artifacts, and nothing else but directories above them. -/
structure Contains (artifacts : List Artifact) (fs : FileSystem) (loc : Loc) : Prop where
  directory : fs.IsDir loc
  artifact : ∀ a ∈ artifacts, Recorded a (fs.node (loc ++ a.components))
  only : ∀ names, names ≠ [] → fs.node (loc ++ names) ≠ none →
    (∃ a ∈ artifacts, names = a.components) ∨ fs.IsDir (loc ++ names) ∧ ∃ a ∈ artifacts, names <+: a.components

/-- The place `os.replace` has put the stage at holds the artifacts. -/
def DestinationContains (artifacts : List Artifact) (k : Kernel) : Prop :=
  ∃ loc via, k.effects.getLast? = some ⟨.rename, loc, via⟩ ∧ Contains artifacts k.fs loc

/-- No artifact lies below a link, and what the records deliver is what the summary says: each artifact is
begun, unless it is a directory above one, and each file gets the octets it was recorded with. -/
structure Delivered (artifacts : List Artifact) (pass : Pass) : Prop where
  apart : ∀ a ∈ artifacts, a.fileType = .symlink → ∀ b ∈ artifacts, a.components <+: b.components → a = b
  begun : ∀ a ∈ artifacts, a ∈ pass.begun ∨
    a.fileType = .directory ∧ ∃ b ∈ pass.begun, a.components <+: b.components
  content : ∀ a ∈ artifacts, a.fileType = .regular →
    (pass.content a.artifactId).length = a.size ∧ Sha256.hexdigest (pass.content a.artifactId) = a.sha256

section Iff
variable {artifacts : List Artifact}

/-- Artifacts that do not lie below links are begun apart from them in any order. -/
theorem apart_of_artifacts
    (h : ∀ a ∈ artifacts, a.fileType = .symlink → ∀ b ∈ artifacts, a.components <+: b.components → a = b)
    (readings : List Reading) : ∀ {pass : Pass}, (∀ a ∈ pass.begun, a ∈ artifacts) →
    Pass.Apart artifacts pass readings := by
  induction readings with
  | nil => exact fun _ => trivial
  | cons reading readings ih =>
    intro pass hknown
    refine ⟨fun artifactId a _ hfind b hb htype hpre => ?_, ih ?_⟩
    · rw [h b (hknown b hb) htype a (findArtifact_eq_some hfind).1 hpre]
    · intro b hb
      unfold Pass.next at hb
      cases reading with
      | begin artifactId =>
        dsimp only at hb
        cases hfind : findArtifact artifacts artifactId with
        | none =>
          rw [hfind] at hb
          exact hknown b hb
        | some a =>
          rw [hfind] at hb
          rcases List.mem_cons.mp hb with rfl | hb
          · exact (findArtifact_eq_some hfind).1
          · exact hknown b hb
      | chunk artifactId data =>
        dsimp only at hb
        cases hholder : pass.holder with
        | none =>
          rw [hholder] at hb
          exact hknown b hb
        | some a =>
          rw [hholder] at hb
          exact hknown b hb
      | finish artifactId => exact hknown b hb
      | other => exact hknown b hb

/-- A place that holds the artifacts has none of them below a link. -/
theorem Contains.apart {fs : FileSystem} {loc : Loc} (h : Contains artifacts fs loc) {a b : Artifact}
    (hsound : Sound artifacts) (ha : a ∈ artifacts) (htype : a.fileType = .symlink) (hb : b ∈ artifacts)
    (hpre : a.components <+: b.components) : a = b := by
  apply hsound.eq_of_components ha hb
  by_contra hne
  obtain ⟨rest, hrest⟩ := hpre
  have hnonempty : rest ≠ [] := by
    rintro rfl
    exact hne (by rw [← hrest, List.append_nil])
  obtain ⟨content, hstands, -⟩ := h.artifact b hb
  have hthere := hstands.ne_none
  rw [← hrest, ← List.append_assoc] at hthere
  obtain ⟨mode, hmode⟩ := FileSystem.dir_of_below hthere hnonempty
  obtain ⟨content', hlink, -⟩ := h.artifact a ha
  obtain ⟨target, -, hnode⟩ := (standing_symlink htype).mp hlink
  rw [hnode] at hmode
  cases hmode

/-- Behind a finished run the destination is what the stage was. -/
theorem Finished.destination {env : Env} {request : Request} {stage : Stage env} {k₀ : Kernel} {pass : Pass} {t : Locals}
    (h : Finished stage artifacts k₀ pass env request t) (hpath : request.stage = stage.path) :
    ∃ s loc via, Built stage artifacts k₀ pass s ∧ t.kernel.effects.getLast? = some ⟨.rename, loc, via⟩ ∧
      ∀ names, t.kernel.fs.node (loc ++ names) = s.kernel.fs.node (stage.loc ++ names) := by
  obtain ⟨s, e, e', hbuilt, ⟨k, hrenamed, hstill⟩, -⟩ := h
  refine ⟨s, e'.loc, e'.via, hbuilt, ?_, fun names => ?_⟩
  · rw [hstill.effects, hrenamed.effects, List.getLast?_concat]
  · have hsource := hrenamed.source
    rw [hpath, hbuilt.inside.around.locate_path] at hsource
    obtain rfl := Except.ok.inj hsource
    rw [hstill.fs, hrenamed.node, FileSystem.moveNode_new]
    rfl

variable (hsound : Sound artifacts) {env : Env} {stage : Stage env} {k₀ : Kernel} {pass : Pass} {s : Locals}
  {fs : FileSystem} {loc : Loc} (h : Built stage artifacts k₀ pass s)
  (hsame : ∀ names, fs.node (loc ++ names) = s.kernel.fs.node (stage.loc ++ names))
include hsound h hsame

theorem Built.delivered (hcontains : Contains artifacts fs loc) : Delivered artifacts pass := by
  refine ⟨fun a ha htype b hb hpre => hcontains.apart hsound ha htype hb hpre, fun a ha => ?_, fun a ha htype => ?_⟩
  · obtain ⟨content, hstands, -⟩ := hcontains.artifact a ha
    rw [hsame] at hstands
    rcases h.tree.only a.components (hsound.nonempty a ha) hstands.ne_none with ⟨b, hb, heq⟩ | ⟨hdir, b, hb, hpre⟩
    · exact .inl (hsound.eq_of_components ha (h.known b hb) heq ▸ hb)
    · right
      obtain ⟨mode, hmode⟩ := FileSystem.isDir_iff.mp hdir
      rw [hmode] at hstands
      exact ⟨hstands.directory, b, hb, hpre⟩
  · obtain ⟨content, hstands, hrecorded⟩ := hcontains.artifact a ha
    rw [hsame] at hstands
    have hbegun : a ∈ pass.begun := by
      rcases h.tree.only a.components (hsound.nonempty a ha) hstands.ne_none with ⟨b, hb, heq⟩ | ⟨hdir, -⟩
      · exact hsound.eq_of_components ha (h.known b hb) heq ▸ hb
      · obtain ⟨mode, hmode⟩ := FileSystem.isDir_iff.mp hdir
        rw [hmode] at hstands
        rw [hstands.directory] at htype
        cases htype
    obtain ⟨mode, hnode⟩ := (standing_regular htype).mp hstands
    obtain ⟨mode', hnode'⟩ := (standing_regular htype).mp (h.tree.stands a hbegun)
    rw [hnode] at hnode'
    cases hnode'
    exact hrecorded htype

theorem Built.contains (hdelivered : Delivered artifacts pass) : Contains artifacts fs loc := by
  have hdir : ∀ {names : List Name}, s.kernel.fs.IsDir (stage.loc ++ names) → fs.IsDir (loc ++ names) := by
    intro names hdir
    rw [FileSystem.isDir_iff] at hdir ⊢
    rwa [hsame]
  refine ⟨?_, fun a ha => ?_, fun names hne hthere => ?_⟩
  · have hroot := @hdir [] (by rw [List.append_nil]; exact h.inside.around.dir)
    rwa [List.append_nil] at hroot
  · rw [hsame]
    rcases hdelivered.begun a ha with hbegun | ⟨htype, b, hb, rest, hrest⟩
    · exact ⟨_, h.tree.stands a hbegun, hdelivered.content a ha⟩
    · by_cases hempty : rest = []
      · rw [hempty, List.append_nil] at hrest
        rw [hsound.eq_of_components ha (h.known b hb) hrest]
        exact ⟨_, h.tree.stands b hb, hdelivered.content b (h.known b hb)⟩
      · have hthere := (h.tree.stands b hb).ne_none
        rw [← hrest, ← List.append_assoc] at hthere
        refine ⟨[], (standing_directory htype).mpr (FileSystem.dir_of_below hthere hempty), fun hregular => ?_⟩
        rw [htype] at hregular
        cases hregular
  · rw [hsame] at hthere
    rcases h.tree.only names hne hthere with ⟨a, ha, heq⟩ | ⟨hfound, a, ha, hpre⟩
    · exact .inl ⟨a, h.known a ha, heq⟩
    · exact .inr ⟨hdir hfound, a, h.known a ha, hpre⟩

end Iff

section Validated
variable {maximumRecordBytes : Nat} {validated source : Bytes} {summary : ValidationSummary} {env : Env}
  {request : Request} {k : Kernel} {t : Locals} (hvalid : validate maximumRecordBytes validated = .ok summary)
  (h : reassemble env request summary source (Locals.start k) = .ok () t)
include hvalid h

theorem sound_of_ok : Sound summary.artifacts := by
  refine sound_of_validate hvalid ?_
  refine Triple.ok (P := fun t => t = Locals.start k) (E := fun _ _ => True)
    (Q := fun _ _ => summary.command = some .extract) ?_ rfl h
  refine triple_reassemble (fun _ _ => trivial) fun stage k₁ k₂ hstaged => ?_
  have hcommand := (refusals_eq_ok.mp hstaged.refusals).command
  intro s _
  cases tryCatch (build env request summary.artifacts source) (abandon env request) s with
  | ok u t => exact hcommand
  | error error t => trivial

theorem delivered_of_destination (hcontains : DestinationContains summary.artifacts t.kernel) :
    Delivered summary.artifacts (deliveries summary.artifacts source) := by
  have hsound := sound_of_ok hvalid h
  obtain ⟨loc, via, hlast, hcontains⟩ := hcontains
  have hapart : Pass.Apart summary.artifacts .start ((fileLines source).filterMap readingOf) :=
    apart_of_artifacts (fun a ha htype b hb hpre => hcontains.apart hsound ha htype hb hpre) _
      fun a ha => absurd ha List.not_mem_nil
  obtain ⟨stage, k₂, hpath, hfinished⟩ := finished_of_ok hsound hapart h
  obtain ⟨s, loc', via', hbuilt, hlast', hsame⟩ := hfinished.destination hpath
  rw [hlast'] at hlast
  cases hlast
  exact hbuilt.delivered hsound hsame hcontains

theorem destination_of_delivered (hdelivered : Delivered summary.artifacts (deliveries summary.artifacts source)) :
    DestinationContains summary.artifacts t.kernel := by
  have hsound := sound_of_ok hvalid h
  have hapart : Pass.Apart summary.artifacts .start ((fileLines source).filterMap readingOf) :=
    apart_of_artifacts hdelivered.apart _ fun a ha => absurd ha List.not_mem_nil
  obtain ⟨stage, k₂, hpath, hfinished⟩ := finished_of_ok hsound hapart h
  obtain ⟨s, loc, via, hbuilt, hlast, hsame⟩ := hfinished.destination hpath
  exact ⟨loc, via, hlast, hbuilt.contains hsound hsame hdelivered⟩

/-- When `reassemble` returns, the destination is the tree of the summary exactly when the records that were
read the second time deliver it. -/
theorem reassembled_tree_iff : DestinationContains summary.artifacts t.kernel ↔
    Delivered summary.artifacts (deliveries summary.artifacts source) :=
  ⟨delivered_of_destination hvalid h, destination_of_delivered hvalid h⟩

end Validated

/-! ## One file -/

/-- Everything is permitted and nothing fails. -/
def openEnv : Env where
  process := { umask := 0o022, search := fun _ _ => true, modify := fun _ _ => true }
  faults _ := none
  accepts _ := 0x1000

/-- An empty root. -/
def bareKernel : Kernel := ⟨.bare 0o755, [], []⟩

/-- To `/out`. -/
def outRequest : Request := ⟨[], ascii "out", ascii "0", true, false⟩

def returned {ε σ α : Type} : EStateM.Result ε σ α → Bool
  | .ok _ _ => true
  | .error _ _ => false

theorem exists_of_returned {ε σ : Type} {r : EStateM.Result ε σ Unit} (h : returned r = true) : ∃ t, r = .ok () t := by
  cases r with
  | ok u t => exact ⟨t, rfl⟩
  | error error t => cases h

theorem reassemble_of_granted {env : Env} {request : Request} {summary : ValidationSummary} {k : Kernel}
    (h : Granted env request summary k.fs) (source : Bytes) :
    reassemble env request summary source (Locals.start k) =
      construct env request summary.artifacts source (Locals.start k) := by
  unfold reassemble
  rw [run_bind, run_get]
  dsimp only
  rw [show refusals env request summary (Locals.start k).kernel.fs = .ok () from refusals_eq_ok.mpr h]
  rfl

/-- One empty file. -/
def oneFile : List Specimen := [⟨.regular, ascii "a", []⟩]

theorem exists_oneFile : ∃ summary, validate 1024 (artifactStream oneFile) = .ok summary ∧
    summary.command = some .extract ∧ summary.success = true ∧
    summary.artifacts = oneFile.mapIdx Specimen.artifact :=
  exists_summary (by decide +kernel)

/-- A stream with one file, and a second one that is reassembled with its summary. -/
theorem exists_reassembled {source : Bytes}
    (h : returned (construct openEnv outRequest (oneFile.mapIdx Specimen.artifact) source (Locals.start bareKernel)) = true) :
    ∃ summary t, validate 1024 (artifactStream oneFile) = .ok summary ∧
      summary.artifacts = oneFile.mapIdx Specimen.artifact ∧
      reassemble openEnv outRequest summary source (Locals.start bareKernel) = .ok () t := by
  obtain ⟨summary, hvalid, hcommand, hsuccess, hartifacts⟩ := exists_oneFile
  obtain ⟨t, hrun⟩ := exists_of_returned h
  have hlinks : ∀ a ∈ summary.artifacts, a.fileType ≠ .symlink := by
    rw [hartifacts]
    decide
  have hgranted : Granted openEnv outRequest summary bareKernel.fs :=
    ⟨hcommand, hsuccess, by decide, by decide, .inr hlinks, fun a ha htype => absurd htype (hlinks a ha)⟩
  refine ⟨summary, t, hvalid, hartifacts, ?_⟩
  rw [reassemble_of_granted hgranted, hartifacts]
  exact hrun

/-- The records of the artifact alone are reassembled. -/
theorem reassembled_tree_iff_oneFile : ∃ summary t, validate 1024 (artifactStream oneFile) = .ok summary ∧
    (DestinationContains summary.artifacts t ↔
      Delivered summary.artifacts (deliveries summary.artifacts (recordLines (specimenRecords oneFile)).flatten)) := by
  obtain ⟨summary, t, hvalid, -, hrun⟩ :=
    @exists_reassembled (recordLines (specimenRecords oneFile)).flatten (by decide +kernel)
  exact ⟨summary, t.kernel, hvalid, reassembled_tree_iff hvalid hrun⟩

/-- The file of the stream has become empty since it was validated. -/
theorem emptySource_not_contained : ∃ summary t, validate 1024 (artifactStream oneFile) = .ok summary ∧
    reassemble openEnv outRequest summary [] (Locals.start bareKernel) = .ok () t ∧
    ¬ DestinationContains summary.artifacts t.kernel := by
  obtain ⟨summary, t, hvalid, hartifacts, hrun⟩ := @exists_reassembled [] (by decide +kernel)
  refine ⟨summary, t, hvalid, hrun, fun hcontains => ?_⟩
  have ha : Specimen.artifact 0 ⟨.regular, ascii "a", []⟩ ∈ summary.artifacts := by
    rw [hartifacts]
    exact List.mem_singleton.mpr rfl
  rcases (delivered_of_destination hvalid hrun hcontains).begun _ ha with hbegun | ⟨-, b, hb, -⟩
  · exact absurd hbegun List.not_mem_nil
  · exact absurd hb List.not_mem_nil

end GetBibleSword.Tool
