import GetBibleSword.Tool.Progress

/-!
# When a reassembly returns

On an ordinary file system the artifacts of an accepted stream without links are reassembled exactly when
each comes behind the directories above it, and none behind something that is in its place.

* `parentFirst_lines` : whatever a pass has returned from, it has begun in such an order;
* `completes_restoreModes` : modes are set from the deepest directory up, so none is in the way of another;
* `returns_publish` : the stage gets its new name;
* `reassembly_completes_iff`.
-/

namespace GetBibleSword.Tool
open GetBibleSword.Lib Posix

/-! ## What a pass that returns has begun -/

section Ordered
variable {env : Env} {request : Request} {stage : Stage env} {artifacts : List Artifact} {k₀ : Kernel} {pass : Pass}
  {record : Dict} {s t : Locals} {a : Artifact} {artifactId : Int}

theorem fresh_of_grown {names : List Name} {k k' : Kernel} {l : Loc} (h : stage.Grown names k k')
    (hnone : k'.fs.node l = none) : k.fs.node l = none := by
  by_contra hthere
  obtain ⟨node, hnode⟩ := Option.ne_none_iff_exists'.mp hthere
  rw [h.extends l node hnode] at hnone
  cases hnone

variable (hsound : Sound artifacts)
include hsound

/-- Nothing was in the place of an artifact that was begun. -/
theorem fresh_begin (hpath : request.stage = stage.path) (h : Built stage artifacts k₀ pass s)
    (hid : memberId record = some artifactId) (hfind : findArtifact artifacts artifactId = some a)
    (hun : Unlinked pass.begun a) :
    Triple (fun t => t = s) (beginArtifact env request artifacts record)
      (fun _ _ => s.kernel.fs.node (stage.loc ++ a.components) = none) fun _ _ => True := by
  have ha := (findArtifact_eq_some hfind).1
  have hne := hsound.nonempty a ha
  have hnamed := hsound.named a ha
  have hvalid : ∀ name ∈ a.components.dropLast, ValidName name :=
    fun name hname => hnamed name (List.mem_of_mem_dropLast hname)
  have hparent := h.tree.clear_parent h.inside.around hun hne
  unfold beginArtifact
  rw [recordId_eq hid, pure_bind, artifactById_eq hfind]
  refine Triple.bind (Q := fun _ t => t = { s with activeId := some artifactId }) (Triple.modify fun t ht => by rw [ht])
    fun _ => ?_
  rw [pure_bind, hpath]
  refine Triple.bind ((triple_system _ _).conseq (fun _ h => h) (fun _ _ h => h) fun _ _ _ => trivial) fun _ =>
    Triple.each fun t ht => ?_
  obtain ⟨k, hensure, rfl⟩ := ht
  unfold ensureParent at hensure
  rw [List.dropLast_append_of_ne_nil hne] at hensure
  obtain ⟨hgrown, -, -⟩ := (Stage.triple_makedirs true 0o700 h.inside.around hvalid hparent).ok rfl hensure
  have haround := hgrown.around h.inside.around
  have hplace : ∀ e, locate env.process k.fs (stage.path ++ a.components) = .ok e → k.fs.node e.loc = none →
      s.kernel.fs.node (stage.loc ++ a.components) = none := by
    intro e hlocate hfresh
    rw [(haround.locate_place hne hnamed (hgrown.clear hparent) hlocate).1] at hfresh
    exact fresh_of_grown hgrown hfresh
  cases htype : a.fileType with
  | directory =>
    have hclear : stage.Clear s.kernel.fs a.components := by
      refine h.tree.clear h.inside.around hun fun b hb heq hlink => ?_
      rw [hsound.eq_of_components (h.known b hb) ha heq, htype] at hlink
      cases hlink
    refine Triple.bind ((triple_system _ _).conseq (fun _ h => h) (fun _ _ h => h) fun _ _ _ => trivial) fun _ =>
      Triple.modify fun u hu => ?_
    obtain ⟨k', hmake, -⟩ := hu
    obtain ⟨-, -, hfresh⟩ := (Stage.triple_makedirs false 0o700 haround hnamed (hgrown.clear hclear)).ok rfl hmake
    exact fresh_of_grown hgrown (hfresh rfl)
  | regular =>
    refine Triple.bind ((triple_system _ _).conseq (fun _ h => h) (fun _ _ h => h) fun _ _ _ => trivial) fun _ =>
      Triple.modify fun u hu => ?_
    obtain ⟨k', hcreate, -⟩ := hu
    obtain ⟨e, hlocate, -, hfresh, -⟩ := (triple_addEntry _ _ _ _ k).ok rfl hcreate
    exact hplace e hlocate hfresh
  | symlink =>
    refine Triple.bind ((triple_python _ _).conseq (fun _ h => h) (fun _ _ h => h) fun _ _ _ => trivial) fun target =>
      Triple.each fun u hu => ?_
    obtain ⟨-, rfl⟩ := hu
    refine (triple_system _ _).conseq (fun _ h => h) (fun _ u hu => ?_) fun _ _ _ => trivial
    obtain ⟨k', hlink, -⟩ := hu
    obtain ⟨e, hlocate, hfresh, -⟩ := (triple_symlink _ _ k).ok rfl hlink
    exact hplace e hlocate hfresh

omit hsound in
/-- So it follows whatever stood there before, and stands where that has left room for it. -/
theorem follows_of_fresh (h : Built stage artifacts k₀ pass s) (ht : Built stage artifacts k₀ (pass.begin a) t)
    (hfresh : s.kernel.fs.node (stage.loc ++ a.components) = none) : ∀ b ∈ pass.begun, Follows b a := by
  intro b hb
  have hbefore : ¬ a.components <+: b.components := by
    rintro ⟨rest, hrest⟩
    have hthere := (h.tree.stands b hb).ne_none
    rw [← hrest, ← List.append_assoc, FileSystem.node_below hfresh] at hthere
    exact hthere rfl
  refine ⟨hbefore, ?_⟩
  rintro ⟨rest, hrest⟩
  have hnonempty : rest ≠ [] := by
    rintro rfl
    rw [List.append_nil] at hrest
    exact hbefore (hrest ▸ List.prefix_rfl)
  have hthere := (ht.tree.stands a List.mem_cons_self).ne_none
  rw [← hrest, ← List.append_assoc] at hthere
  obtain ⟨mode, hmode⟩ := FileSystem.dir_of_below hthere hnonempty
  have hstands := ht.tree.stands b (List.mem_cons_of_mem _ hb)
  rw [hmode] at hstands
  exact hstands.directory

variable (hlinks : ∀ a ∈ artifacts, a.fileType ≠ .symlink)
include hlinks

theorem parentFirst_line (hpath : request.stage = stage.path) (rawLine : Bytes) (lineNumber : Nat) :
    Triple (fun s => Built stage artifacts k₀ pass s ∧ ParentFirst pass.begun.reverse)
      (reassembleLine env request artifacts rawLine lineNumber)
      (fun _ t => ∃ reading, readingOf rawLine = some reading ∧
        Built stage artifacts k₀ (pass.next artifacts reading) t ∧ ParentFirst (pass.next artifacts reading).begun.reverse)
      fun _ _ => True := by
  refine Triple.each fun s hs => ?_
  obtain ⟨h, horder⟩ := hs
  have hline := @triple_reassembleLine env request stage artifacts k₀ pass hsound hpath rawLine lineNumber
    fun _ a _ _ => unlinked_of_no_link hlinks h a
  have hbuilt : Triple (fun t => t = s) (reassembleLine env request artifacts rawLine lineNumber)
      (fun _ t => ∃ reading, readingOf rawLine = some reading ∧ Built stage artifacts k₀ (pass.next artifacts reading) t)
      fun _ _ => True := hline.conseq (fun t ht => ht ▸ h) (fun _ _ h => h) fun _ _ _ => trivial
  have hkept : ∀ {reading}, readingOf rawLine = some reading → (pass.next artifacts reading).begun = pass.begun →
      Triple (fun t => t = s) (reassembleLine env request artifacts rawLine lineNumber)
        (fun _ t => ∃ reading, readingOf rawLine = some reading ∧ Built stage artifacts k₀ (pass.next artifacts reading) t ∧
          ParentFirst (pass.next artifacts reading).begun.reverse) fun _ _ => True := by
    intro reading hreading hsame
    refine hbuilt.conseq (fun _ h => h) (fun _ t ht => ?_) fun _ _ h => h
    obtain ⟨reading', hread, hafter⟩ := ht
    obtain rfl := Option.some.inj (hreading.symm.trans hread)
    exact ⟨reading, hread, hafter, hsame ▸ horder⟩
  cases hreading : readingOf rawLine with
  | none =>
    refine hbuilt.conseq (fun _ h => h) (fun _ t ht => ?_) fun _ _ h => h
    obtain ⟨reading, hread, -⟩ := ht
    rw [hreading] at hread
    cases hread
  | some reading =>
    rw [← hreading]
    cases reading with
    | begin artifactId =>
      cases hfind : findArtifact artifacts artifactId with
      | none => exact hkept hreading (by rw [Pass.next, hfind])
      | some a =>
        obtain ⟨record, hof, hrun⟩ := @reassembleLine_eq artifacts env request _ _ hreading lineNumber
        have hfresh := @fresh_begin env request stage artifacts k₀ pass record s a artifactId hsound hpath h hof hfind
          (unlinked_of_no_link hlinks h a)
        change Triple _ (Reading.step env request artifacts record lineNumber (.begin artifactId)) _ _ at hfresh
        rw [← hrun] at hfresh
        refine (hbuilt.and hfresh).conseq (fun _ h => h) (fun _ t ht => ?_) fun _ _ _ => trivial
        obtain ⟨⟨reading', hread, hafter⟩, hfresh⟩ := ht
        obtain rfl := Option.some.inj (hreading.symm.trans hread)
        refine ⟨_, hread, hafter, ?_⟩
        rw [pass.next_begin hfind] at hafter ⊢
        exact parentFirst_cons.mpr ⟨horder, follows_of_fresh h hafter hfresh⟩
    | chunk artifactId data =>
      refine hkept hreading ?_
      unfold Pass.next
      dsimp only
      cases pass.holder with
      | none => rfl
      | some a => rfl
    | finish artifactId => exact hkept hreading rfl
    | other => exact hkept hreading rfl

/-- Whatever a pass has returned from, it has begun in an order in which it can be built. -/
theorem parentFirst_lines (hpath : request.stage = stage.path) (rawLines : List Bytes) :
    ∀ {pass : Pass} {lineNumber : Nat},
    Triple (fun s => Built stage artifacts k₀ pass s ∧ ParentFirst pass.begun.reverse)
      (reassembleLines env request artifacts lineNumber rawLines)
      (fun _ _ => ParentFirst ((rawLines.filterMap readingOf).foldl (Pass.next artifacts) pass).begun.reverse)
      fun _ _ => True := by
  induction rawLines with
  | nil => exact fun {pass lineNumber} => Triple.pure fun _ h => h.2
  | cons rawLine rawLines ih =>
    intro pass lineNumber
    rw [reassembleLines]
    refine Triple.bind (parentFirst_line hsound hlinks hpath rawLine _) fun _ => Triple.each fun t ht => ?_
    obtain ⟨reading, hreading, hafter, horder⟩ := ht
    rw [List.filterMap_cons_some hreading]
    exact ih.conseq (fun u hu => hu ▸ ⟨hafter, horder⟩) (fun _ _ h => h) fun _ _ h => h

end Ordered

/-! ## The modes, from the deepest directory up -/

theorem deepestFirst_sorted (entries : List (List Name × Nat)) :
    (deepestFirst entries).Pairwise fun a b => b.1.length ≤ a.1.length := by
  have hsorted := @List.pairwise_mergeSort _ (fun a b : List Name × Nat => decide (b.1.length ≤ a.1.length))
    (by simp only [decide_eq_true_eq]; omega) (by simp only [Bool.or_eq_true, decide_eq_true_eq]; omega) entries
  exact hsorted.imp of_decide_eq_true

section Modes
variable {env : Env} {request : Request} {stage : Stage env} {artifacts : List Artifact} {k₀ : Kernel} {pass : Pass}
  {s : Locals}

variable (stage) in
/-- The directories above this depth grant their owner everything. -/
def OwnedAbove (n : Nat) (fs : FileSystem) : Prop :=
  ∀ names mode, names.length < n → fs.node (stage.loc ++ names) = some (.dir mode) → OwnerAll mode

theorem OwnedAbove.mono {n m : Nat} {fs : FileSystem} (h : OwnedAbove stage n fs) (hle : m ≤ n) : OwnedAbove stage m fs :=
  fun names mode hlength => h names mode (hlength.trans_le hle)

/-- The mode of a directory is not asked for on the way to it. -/
theorem OwnedAbove.open (hordinary : env.Ordinary) {names : List Name} {fs : FileSystem}
    (h : OwnedAbove stage (names.length + 1) fs) (hdir : fs.IsDir (stage.loc ++ names)) : stage.Open fs names := by
  intro above habove
  obtain ⟨rest, rfl⟩ := habove
  have hthere : ∃ mode, fs.node (stage.loc ++ above) = some (.dir mode) := by
    obtain ⟨mode, hmode⟩ := FileSystem.isDir_iff.mp hdir
    by_cases hrest : rest = []
    · rw [hrest, List.append_nil] at hmode
      exact ⟨mode, hmode⟩
    · rw [← List.append_assoc] at hmode
      exact FileSystem.dir_of_below (by rw [hmode]; exact Option.some_ne_none _) hrest
  obtain ⟨mode, hmode⟩ := hthere
  refine searched_eq_none.mpr ⟨mode, hmode, hordinary.search _ _ (h above mode ?_ hmode)⟩
  rw [List.length_append]
  omega

theorem ownedAbove_of_owned {fs : FileSystem} (h : stage.Owned fs) (n : Nat) : OwnedAbove stage n fs :=
  fun _ mode _ hnode => h _ mode (List.prefix_append _ _) hnode

variable (hordinary : env.Ordinary) (hsound : Sound artifacts)
include hordinary hsound

theorem completes_restoreModes (entries : List (List Name × Nat))
    (hentries : ∀ entry ∈ entries, ∃ a ∈ pass.begun, a.fileType = .directory ∧ entry.1 = stage.path ++ a.components)
    (hsorted : entries.Pairwise fun a b => b.1.length ≤ a.1.length) :
    Triple (fun s => Built stage artifacts k₀ pass s ∧
        ∀ entry ∈ entries, OwnedAbove stage (entry.1.length - stage.path.length) s.kernel.fs)
      (restoreModes env request entries) (fun _ => Built stage artifacts k₀ pass) fun _ _ => False := by
  induction entries with
  | nil => exact Triple.pure fun _ h => h.1
  | cons entry entries ih =>
    obtain ⟨directory, mode⟩ := entry
    obtain ⟨⟨a, ha, htype, hplace⟩, hrest⟩ := List.forall_mem_cons.mp hentries
    obtain ⟨hdeepest, hsorted'⟩ := List.pairwise_cons.mp hsorted
    obtain rfl : directory = stage.path ++ a.components := hplace
    refine Triple.each fun s hs => ?_
    obtain ⟨h, hopen⟩ := hs
    have hknown := h.known a ha
    have hne := hsound.nonempty a hknown
    have habove := hopen _ List.mem_cons_self
    simp only [List.length_append, Nat.add_sub_cancel_left] at habove
    have hsplit : a.components.dropLast ++ [a.components.getLast hne] = a.components := List.dropLast_concat_getLast hne
    obtain ⟨old, hold⟩ := (standing_directory htype).mp (h.tree.stands a ha)
    have hdir : s.kernel.fs.IsDir (stage.loc ++ a.components.dropLast) := by
      have hthere : s.kernel.fs.node (stage.loc ++ a.components.dropLast ++ [a.components.getLast hne]) ≠ none := by
        rw [List.append_assoc, hsplit, hold]
        exact Option.some_ne_none _
      exact FileSystem.isDir_iff.mpr (FileSystem.dir_of_below hthere (List.cons_ne_nil _ _))
    have hlength : a.components.dropLast.length + 1 = a.components.length := by
      rw [List.length_dropLast]
      have hpos := List.length_pos_of_ne_nil hne
      omega
    have hlocate := h.inside.around.locate_open ((hlength ▸ habove).open hordinary hdir)
      (hsound.named a hknown _ (List.getLast_mem hne))
    rw [hsplit] at hlocate
    have hloc : Entry.loc ⟨stage.loc ++ a.components.dropLast, a.components.getLast hne, stage.via⟩ =
        stage.loc ++ a.components := by rw [Entry.loc, List.append_assoc, hsplit]
    have hchmod := (@Stage.returns_chmod env s.kernel hordinary _ (mode &&& request.mask) old _ hlocate
      (by rw [hloc, hold])).with (triple_chmod (stage.path ++ a.components) (mode &&& request.mask) s.kernel)
    rw [restoreModes]
    have hone : restoreModes env request [(stage.path ++ a.components, mode)] =
        system (chmod env (stage.path ++ a.components) (mode &&& request.mask)) := bind_pure_unit
    have hbuilt := @triple_restoreModes env request stage artifacts k₀ pass hsound [(stage.path ++ a.components, mode)]
      (List.forall_mem_singleton.mpr ⟨a, ha, htype, rfl⟩)
    rw [hone] at hbuilt
    refine Triple.bind (Q := fun _ t => Built stage artifacts k₀ pass t ∧
        ∀ entry ∈ entries, OwnedAbove stage (entry.1.length - stage.path.length) t.kernel.fs) ?_ fun _ => ih hrest hsorted'
    refine ((completes_call hchmod).both hbuilt).conseq (fun t ht => ⟨ht, ht ▸ h⟩) (fun _ t ht => ?_) fun _ _ ht => ht.1
    obtain ⟨⟨k, ⟨e, node, hlocate', hnode, hchanged⟩, rfl⟩, hafter⟩ := ht
    refine ⟨hafter, fun entry hentry names m hdepth hm => ?_⟩
    obtain rfl := Except.ok.inj (hlocate.symm.trans hlocate')
    have hle := hdeepest entry hentry
    simp only [List.length_append] at hle
    rw [hchanged.node, FileSystem.setNode_of_ne] at hm
    · exact habove names m (by omega) hm
    · rw [hloc]
      intro heq
      have hsame := congrArg List.length (List.append_cancel_left heq)
      omega

end Modes

/-! ## The new name -/

section Publish
variable {env : Env} {request : Request} {stage : Stage env} {k₀ : Kernel} {s : Locals}

theorem returns_system {α : Type} {call : Call α} (h : ∀ k, Returns (fun k' => k' = k) call) :
    Returns (fun _ => True) (system call) :=
  Triple.each fun s _ => (completes_call (h s.kernel)).conseq (fun _ h => h) (fun _ _ _ => trivial) fun _ _ h => h

theorem returns_publish (hordinary : env.Ordinary) (hinside : stage.Inside k₀ s.kernel) (hpath : request.stage = stage.path)
    (habsent : stage.before.node (stage.base ++ [request.name]) = none) (hname : ValidName request.name)
    (hbase : modifiable env stage.before stage.base = true) : Returns (fun t => t = s) (publish env request) := by
  have haround := hinside.around
  obtain ⟨hparent, hstage⟩ := List.append_inj' hpath rfl
  have hbelow : ¬ stage.loc <+: stage.base := by
    intro hpre
    have hlength := hpre.length_le
    rw [Stage.loc, List.length_append, List.length_singleton] at hlength
    omega
  have hother : ¬ stage.loc <+: stage.base ++ [request.name] := by
    intro hpre
    have hsame : request.stageName = request.name := by
      rw [List.singleton_inj.mp hstage]
      exact List.singleton_inj.mp (List.append_cancel_left (hpre.eq_of_length (by simp [Stage.loc])))
    have hlength := congrArg List.length hsame
    simp only [Request.stageName, List.length_append] at hlength
    have hdot : (ascii ".").length = 1 := rfl
    omega
  have hmodifiable : modifiable env s.kernel.fs stage.base = true := by
    rw [modifiable, haround.apart _ hbelow]
    exact hbase
  have hdir : s.kernel.fs.IsDir stage.base := by
    obtain ⟨mode, hmode, -⟩ := searched_eq_none.mp haround.searchable
    exact FileSystem.isDir_iff.mpr ⟨mode, hmode⟩
  have hsource : locate env.process s.kernel.fs request.stage = .ok ⟨stage.base, stage.name, stage.via⟩ := by
    rw [hpath]
    exact haround.locate_path
  have htarget : locate env.process s.kernel.fs request.destination = .ok ⟨stage.base, request.name, stage.via⟩ := by
    rw [Request.destination, hparent]
    exact haround.locate_sibling hname
  have hfree : s.kernel.fs.node (stage.base ++ [request.name]) = none := by
    rw [haround.apart _ hother]
    exact habsent
  have hrename := (Stage.returns_renameDirectory hordinary hsource htarget hfree
    ⟨haround.dir, hdir, hname, hbelow, hmodifiable, hmodifiable⟩).with
    (triple_renameDirectory request.stage request.destination s.kernel)
  refine Triple.bind (completes_call hrename) fun _ => Triple.each fun t ht => ?_
  obtain ⟨k, ⟨e, e', hrenamed⟩, rfl⟩ := ht
  have hextends := extends_renamed haround hpath habsent hrenamed
  have hopen : Returns (fun k' => k' = k) (openDirectory env request.parent) := by
    rw [hparent]
    refine Stage.returns_openDirectory hordinary (walk_extends hextends _ stage.leads) ?_
    obtain ⟨mode, hmode, -⟩ := searched_eq_none.mp (searched_extends hextends stage.searchable)
    exact FileSystem.isDir_iff.mpr ⟨mode, hmode⟩
  have hticks : ∀ call, Returns (fun _ => True) (system (tick env call)) :=
    fun call => returns_system fun k => Triple.returns (Stage.returns_tick hordinary call k)
  refine Triple.bind ((completes_call (s := { s with kernel := k }) hopen).conseq (fun _ h => h) (fun _ _ _ => trivial)
    fun _ _ h => h) fun _ => ?_
  refine Triple.bind (Triple.tryCatch (E := fun _ _ => False) (hticks .fsync) fun error t ht => ht.elim) fun _ => ?_
  exact hticks .close

end Publish

/-! ## The whole run -/

section Run
variable {env : Env} {request : Request} {summary : ValidationSummary} {k k₁ k₂ : Kernel} {stage : Stage env}

/-- The directory of the stage can be changed, or it could not have been made. -/
theorem Making.modifiable (h : Making env request summary k k₁ k₂ stage) :
    modifiable env stage.before stage.base = true := by
  have hmade : Triple (fun s => s = k₁) (mkdir env request.stage 0o700)
      (fun _ _ => ∃ e, locate env.process k₁.fs request.stage = .ok e ∧ Posix.modifiable env k₁.fs e.dir = true)
      fun _ _ => True :=
    Triple.bind (Stage.modifiable_addEntry _ _ _ _ k₁) fun _ => Triple.pure fun _ h => h
  obtain ⟨e, hlocate, hmodifiable⟩ := hmade.ok rfl h.made
  rw [← h.before] at hlocate hmodifiable
  have hwalk := (locate_eq_ok hlocate).2.1
  rw [(List.append_inj' h.path rfl).1, stage.leads] at hwalk
  rwa [← (Found.mk.inj (Except.ok.inj hwalk)).1] at hmodifiable

theorem Making.owned (h : Making env request summary k k₁ k₂ stage) (hordinary : env.Ordinary) : stage.Owned k₂.fs := by
  rintro l mode ⟨rest, rfl⟩ hnode
  rw [h.changed.node] at hnode
  by_cases hroot : rest = []
  · rw [hroot, List.append_nil, FileSystem.setNode_self] at hnode
    rw [← Node.dir.inj (Option.some.inj hnode)]
    exact ownerAll_masked hordinary (by decide)
  · rw [FileSystem.setNode_of_ne _ (fun heq => hroot (List.append_right_eq_self.mp heq)), ← h.before, Stage.before_below] at hnode
    cases hnode

theorem Making.completes (h : Making env request summary k k₁ k₂ stage) (hordinary : env.Ordinary)
    (habsent : stage.before.node (stage.base ++ [request.name]) = none) (hname : ValidName request.name)
    {maximumRecordBytes : Nat} {input : Bytes} {fields : HeaderFields} {items : List Item} {f : FooterFields} {t : Shape}
    (hv : Validated maximumRecordBytes input summary fields items f t)
    (hlinks : ∀ a ∈ summary.artifacts, a.fileType ≠ .symlink) (horder : ParentFirst summary.artifacts) :
    Returns (fun t => t = Locals.start k₂) (build env request summary.artifacts input) := by
  have hcommand := h.granted.command
  have hsound := hv.sound hcommand
  have hread : ∀ rawLine ∈ fileLines input, readingOf rawLine ≠ none := by
    rw [fileLines_of_reads hv.reads]
    exact hv.reads.read
  have horder' : ParentFirst (deliveries summary.artifacts input).begun.reverse := by
    rw [hv.begun hcommand, List.reverse_reverse]
    exact horder
  unfold build
  have htended : Tended stage summary.artifacts k₂ .start none (Locals.start k₂) := ⟨h.built, h.owned hordinary, rfl⟩
  refine Triple.bind (Q := fun _ => Tended stage summary.artifacts k₂ .start none) ?_ fun _ => ?_
  · refine (completes_call (Stage.returns_tick hordinary _ (Locals.start k₂).kernel)).conseq (fun _ h => h) (fun _ u hu => ?_)
      fun _ _ h => h
    obtain ⟨k', hstill, rfl⟩ := hu
    exact ⟨htended.built.still hstill, htended.owned.of_eq hstill.fs, rfl⟩
  refine Triple.bind (completes_lines hordinary hsound hlinks h.path _ hread (hv.fitting hcommand) horder') fun _ => ?_
  refine Triple.get fun s hs => ?_
  obtain ⟨hbuilt, howned⟩ := hs
  have hsorted := deepestFirst_sorted s.directoryModes
  have hmodes := @completes_restoreModes env request stage summary.artifacts k₂ _ hordinary hsound
    (deepestFirst s.directoryModes) (fun entry hentry =>
      hbuilt.modes entry ((List.mergeSort_perm _ _).mem_iff.mp hentry)) hsorted
  refine Triple.bind (hmodes.conseq (fun t ht => ?_) (fun _ _ h => h) fun _ _ h => h) fun _ => Triple.each fun u hu => ?_
  · subst ht
    exact ⟨hbuilt, fun entry _ => ownedAbove_of_owned howned _⟩
  · exact returns_publish hordinary hu.inside h.path habsent hname h.modifiable

/-- A run that returns has begun the artifacts in an order in which they can be built. -/
theorem Making.parentFirst (h : Making env request summary k k₁ k₂ stage) (hsound : Sound summary.artifacts)
    (hlinks : ∀ a ∈ summary.artifacts, a.fileType ≠ .symlink) (source : Bytes) :
    Triple (fun t => t = Locals.start k₂) (tryCatch (build env request summary.artifacts source) (abandon env request))
      (fun _ _ => ParentFirst (deliveries summary.artifacts source).begun.reverse) fun _ _ => True := by
  have hbuild : Triple (fun s => Built stage summary.artifacts k₂ .start s) (build env request summary.artifacts source)
      (fun _ _ => ParentFirst (deliveries summary.artifacts source).begun.reverse) fun _ _ => True := by
    unfold build
    refine Triple.bind (triple_openSource.conseq (fun _ h => h) (fun _ _ h => h) fun _ _ _ => trivial) fun _ => ?_
    refine Triple.bind (Q := fun _ _ => ParentFirst (deliveries summary.artifacts source).begun.reverse)
      ((parentFirst_lines hsound hlinks h.path _).conseq (fun _ ht => ⟨ht, List.Pairwise.nil⟩) (fun _ _ h => h)
        fun _ _ h => h) fun _ => ?_
    intro s horder
    cases hrest : (get >>= fun s => restoreModes env request (deepestFirst s.directoryModes) >>= fun _ =>
        publish env request) s with
    | ok u t => exact horder
    | error error t => trivial
  refine Triple.tryCatch (hbuild.conseq (fun _ ht => ht ▸ h.built) (fun _ _ h => h) fun _ _ h => h) fun error s _ => ?_
  cases hrun : abandon env request error s with
  | ok u t => exact absurd hrun (abandon_ne_ok env request error s t u)
  | error error t => trivial

/-- On an ordinary file system, where the stage can be made and nothing is at the destination: a validated stream
without links is reassembled exactly when its artifacts come in an order in which they can be built. -/
theorem reassembly_completes_iff {maximumRecordBytes : Nat} {validated : Bytes}
    (hvalid : validate maximumRecordBytes validated = .ok summary)
    (hlinks : ∀ a ∈ summary.artifacts, a.fileType ≠ .symlink) (hordinary : env.Ordinary)
    (hmaking : Making env request summary k k₁ k₂ stage) (hname : ValidName request.name)
    (habsent : exists_ env k₁.fs request.destination = false) (hunlinked : isLink env k₁.fs request.destination = false) :
    (∃ t, reassemble env request summary validated (Locals.start k) = .ok () t) ↔ ParentFirst summary.artifacts := by
  obtain ⟨fields, items, f, shape, hv⟩ := validated_of_validate hvalid
  have hcommand := hmaking.granted.command
  rw [hmaking.run]
  constructor
  · rintro ⟨t, hrun⟩
    have horder := (hmaking.parentFirst (hv.sound hcommand) hlinks validated).ok rfl hrun
    rwa [hv.begun hcommand, List.reverse_reverse] at horder
  · intro horder
    have hbuild := hmaking.completes hordinary (hmaking.absent habsent hunlinked) hname hv hlinks horder
    have hblock : Returns (fun t => t = Locals.start k₂)
        (tryCatch (build env request summary.artifacts validated) (abandon env request)) :=
      Triple.tryCatch hbuild fun error t ht => ht.elim
    cases hrun : (tryCatch (build env request summary.artifacts validated) (abandon env request)) (Locals.start k₂) with
    | ok u t => exact ⟨t, rfl⟩
    | error error t => exact (hblock.error rfl hrun).elim

end Run

/-! ## A directory behind what is in it -/

theorem openEnv_ordinary : openEnv.Ordinary where
  faults _ := rfl
  accepts _ := Nat.zero_lt_succ _
  umask := by decide
  search _ _ _ := rfl
  modify _ _ _ := rfl

theorem reassembly_completes_iff_oneFile : ∃ summary, validate 1024 (artifactStream oneFile) = .ok summary ∧
    ((∃ t, reassemble openEnv outRequest summary (artifactStream oneFile) (Locals.start bareKernel) = .ok () t) ↔
      ParentFirst summary.artifacts) := by
  obtain ⟨summary, stage, e, hvalid, hun, hmaking, -, -, -⟩ := @exists_oneFile_making openEnv (by decide) (by decide)
    (by decide +kernel) (by decide +kernel)
  have hlinks : ∀ a ∈ summary.artifacts, a.fileType ≠ .symlink := by
    obtain ⟨summary', hvalid', -, -, hartifacts⟩ := exists_oneFile
    obtain rfl := Except.ok.inj (hvalid.symm.trans hvalid')
    rw [hartifacts]
    decide
  exact ⟨summary, hvalid, reassembly_completes_iff hvalid hlinks openEnv_ordinary hmaking (by decide) (by decide +kernel)
    (by decide +kernel)⟩

/-- The directory is made for the file, and cannot be made again. -/
def childFirst : List Specimen := [⟨.regular, ascii "a/b", []⟩, ⟨.directory, ascii "a", []⟩]

theorem childFirst_not_completed : ∃ (summary : ValidationSummary) (stage : Stage openEnv) (k₁ k₂ : Kernel),
    validate 1024 (artifactStream childFirst) = .ok summary ∧ (∀ a ∈ summary.artifacts, a.fileType ≠ .symlink) ∧
    openEnv.Ordinary ∧ Making openEnv outRequest summary bareKernel k₁ k₂ stage ∧
    ¬ ∃ t, reassemble openEnv outRequest summary (artifactStream childFirst) (Locals.start bareKernel) = .ok () t := by
  obtain ⟨summary, hvalid, hcommand, hsuccess, hartifacts⟩ := @exists_summary childFirst (by decide +kernel)
  have hlinks : ∀ a ∈ summary.artifacts, a.fileType ≠ .symlink := by
    rw [hartifacts]
    decide
  have hgranted : Granted openEnv outRequest summary bareKernel.fs :=
    ⟨hcommand, hsuccess, by decide, by decide, .inr hlinks, fun a ha htype => absurd htype (hlinks a ha)⟩
  obtain ⟨stage, e, hmaking, -, -⟩ := exists_making hgranted (run_of_returned (x := makeParents openEnv outRequest.parent)
    (by decide +kernel)) (run_of_returned (x := mkdir openEnv outRequest.stage 0o700) (by decide +kernel))
  refine ⟨summary, stage, _, _, hvalid, hlinks, openEnv_ordinary, hmaking, ?_⟩
  rintro ⟨t, hrun⟩
  have hraised : returned (construct openEnv outRequest (childFirst.mapIdx Specimen.artifact) (artifactStream childFirst)
      (Locals.start bareKernel)) = false := by decide +kernel
  rw [reassemble_of_granted hgranted, hartifacts] at hrun
  rw [hrun] at hraised
  cases hraised

end GetBibleSword.Tool
