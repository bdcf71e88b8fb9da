import GetBibleSword.Tool.ValidatedSource

/-!
# Nothing takes effect outside the stage

* `Making` : a run that makes its stage; `Making.run` : what is left of it is the block `try`;
* `Trail` : behind that everything took effect in the stage, but the rename and the removal of it;
* `reassembly_confined` : so it is for a validated stream in which no artifact lies below an earlier link.
-/

namespace GetBibleSword.Tool
open GetBibleSword.Lib Posix

section Making
variable (env : Env) (request : Request)

/-- A request that is granted and whose stage is made. -/
structure Making (summary : ValidationSummary) (k k₁ k₂ : Kernel) (stage : Stage env) : Prop
    extends Staged env request summary k k₁ k₂ stage where
  made : mkdir env request.stage 0o700 k₁ = .ok () k₂

variable {env request} {summary : ValidationSummary} {k k₁ k₂ : Kernel} {stage : Stage env}

theorem Making.granted (h : Making env request summary k k₁ k₂ stage) : Granted env request summary k.fs :=
  refusals_eq_ok.mp h.refusals

/-- The stage is where the path of `mkdtemp` leads. -/
theorem exists_making (hgranted : Granted env request summary k.fs) (hparents : makeParents env request.parent k = .ok () k₁)
    (hmade : mkdir env request.stage 0o700 k₁ = .ok () k₂) : ∃ (stage : Stage env) (e : Entry),
      Making env request summary k k₁ k₂ stage ∧ locate env.process k₁.fs request.stage = .ok e ∧ e.loc = stage.loc := by
  obtain ⟨e, hlocate, hfresh, -, hchanged⟩ := (triple_mkdir request.stage 0o700 k₁).ok rfl hmade
  have hloc : e.loc = (Stage.ofLocate hlocate hfresh).loc := by
    rw [Entry.loc, (locate_eq_ok hlocate).2.2.2]
    rfl
  rw [hloc] at hchanged
  exact ⟨Stage.ofLocate hlocate hfresh, e, ⟨⟨refusals_eq_ok.mpr hgranted, hparents, rfl, rfl, hchanged⟩, hmade⟩, hlocate, hloc⟩

theorem Making.run (h : Making env request summary k k₁ k₂ stage) (source : Bytes) :
    reassemble env request summary source (Locals.start k) =
      (tryCatch (build env request summary.artifacts source) (abandon env request)) (Locals.start k₂) := by
  have hparents : system (makeParents env request.parent) (Locals.start k) = .ok () (Locals.start k₁) := by
    unfold system
    rw [show makeParents env request.parent (Locals.start k).kernel = .ok () k₁ from h.parents]
    rfl
  have hmade : system (mkdir env request.stage 0o700) (Locals.start k₁) = .ok () (Locals.start k₂) := by
    unfold system
    rw [show mkdir env request.stage 0o700 (Locals.start k₁).kernel = .ok () k₂ from h.made]
    rfl
  rw [reassemble_of_granted h.granted, construct, run_bind, hparents]
  dsimp only
  rw [run_bind, hmade]

end Making

/-! ## The trail of a run -/

section Trail
variable {env : Env} {request : Request} (stage : Stage env) (k₂ : Kernel)

/-- First in the stage and through no link made there, and then the rename and the removal. -/
def Trail (k : Kernel) : Prop :=
  ∃ inner outer, k.effects = k₂.effects ++ (inner ++ outer) ∧
    (∀ e ∈ inner, stage.loc <+: e.loc ∧ ∀ l ∈ e.via, l ∈ stage.via) ∧
    ∀ e ∈ outer, e.deed = .rename ∨ e.deed = .remove

variable {stage k₂} {k k' : Kernel} {artifacts : List Artifact} {pass : Pass} {s t : Locals}

theorem Trail.still (h : Trail stage k₂ k) (hstill : k.Still k') : Trail stage k₂ k' := by
  obtain ⟨inner, outer, heffects, hrest⟩ := h
  exact ⟨inner, outer, hstill.effects.trans heffects, hrest⟩

theorem Trail.outer (h : Trail stage k₂ k) {e : Effect} (heffects : k'.effects = k.effects ++ [e])
    (hdeed : e.deed = .rename ∨ e.deed = .remove) : Trail stage k₂ k' := by
  obtain ⟨inner, outer, hbefore, hinner, houter⟩ := h
  refine ⟨inner, outer ++ [e], ?_, hinner, fun e' he' => ?_⟩
  · rw [heffects, hbefore, List.append_assoc, List.append_assoc]
  · rcases List.mem_append.mp he' with he' | he'
    · exact houter e' he'
    · rw [List.mem_singleton.mp he']
      exact hdeed

theorem Trail.of_inside (h : stage.Inside k₂ k) : Trail stage k₂ k := by
  obtain ⟨inner, heffects, hinner⟩ := h.confined.effects
  exact ⟨inner, [], by rw [heffects, List.append_nil], hinner, fun e he => absurd he List.not_mem_nil⟩

theorem Finished.trail (h : Finished stage artifacts k₂ pass env request t) : Trail stage k₂ t.kernel := by
  obtain ⟨s, e, e', hbuilt, ⟨k, hrenamed, hstill⟩, -⟩ := h
  exact ((Trail.of_inside hbuilt.inside).outer hrenamed.effects (.inl rfl)).still hstill

/-- The handler closes a descriptor and removes the stage. -/
theorem triple_closeLeft (P : Kernel → Prop) (hstill : ∀ {k k'}, P k → k.Still k' → P k') :
    Triple (fun s => P s.kernel) (closeLeft env) (fun _ s => P s.kernel) fun _ s => P s.kernel := by
  apply Triple.get
  intro s hs
  cases s.fileDescriptor with
  | none => exact Triple.pure fun t ht => ht ▸ hs
  | some descriptor =>
    refine (triple_close descriptor s).conseq (fun _ h => h) (fun _ t ht => ?_) fun _ t ht => hstill hs ht.1
    obtain ⟨k, hk, rfl⟩ := ht
    exact hstill hs hk

theorem triple_abandon (error : ReassembleError) :
    Triple (fun s => Trail stage k₂ s.kernel) (abandon env request error) (fun _ s => Trail stage k₂ s.kernel)
      fun _ s => Trail stage k₂ s.kernel := by
  refine Triple.bind (triple_closeLeft _ Trail.still) fun _ => ?_
  refine Triple.bind (Q := fun _ s => Trail stage k₂ s.kernel) ?_ fun _ => Triple.throw fun s hs => hs
  refine Triple.tryCatch (E := fun _ s => Trail stage k₂ s.kernel) ?_ fun _ => Triple.pure fun s hs => hs
  apply Triple.each
  intro s hs t ht
  subst ht
  have hremove := @triple_removeTree env request.stage t.kernel t.kernel rfl
  unfold system
  cases hrun : removeTree env request.stage t.kernel with
  | ok u k =>
    rw [hrun] at hremove
    obtain ⟨e, -, heffects, -⟩ := hremove
    exact hs.outer heffects (.inr rfl)
  | error error' k =>
    rw [hrun] at hremove
    exact hs.still hremove

end Trail

section Confined
variable {env : Env} {request : Request} {summary : ValidationSummary} {k k₁ k₂ : Kernel} {stage : Stage env}

/-- Where no artifact is begun below a link. -/
theorem Making.trail (h : Making env request summary k k₁ k₂ stage) (hsound : Sound summary.artifacts) {source : Bytes}
    (hapart : Pass.Apart summary.artifacts .start ((fileLines source).filterMap readingOf)) :
    Trail stage k₂ (final (reassemble env request summary source) (Locals.start k)).kernel := by
  have hrun : Triple (Built stage summary.artifacts k₂ .start)
      (tryCatch (build env request summary.artifacts source) (abandon env request))
      (fun _ t => Trail stage k₂ t.kernel) fun _ t => Trail stage k₂ t.kernel := by
    refine Triple.tryCatch ((triple_build hsound h.path source hapart).conseq (fun _ hs => hs)
      (fun _ t ht => ht.trail) fun _ t ht => ?_) fun error => triple_abandon error
    rcases ht with hstopped | hfinished
    · exact Trail.of_inside hstopped.inside
    · exact hfinished.trail
  have hstart := hrun (Locals.start k₂) h.built
  unfold final
  rw [h.run]
  cases hend : (tryCatch (build env request summary.artifacts source) (abandon env request)) (Locals.start k₂) with
  | ok u t =>
    rw [hend] at hstart
    exact hstart
  | error error t =>
    rw [hend] at hstart
    exact hstart

/-- A link the stage was reached through is not in it. -/
theorem via_apart {l : Loc} (hl : l ∈ stage.via) : ¬ stage.loc <+: l := by
  rintro ⟨rest, rfl⟩
  have hroot : stage.before.node [] ≠ none := by
    obtain ⟨mode, hmode⟩ := stage.before.root
    rw [hmode]
    exact Option.some_ne_none _
  obtain ⟨target, hlink⟩ := (walk_found maxLinks hroot stage.leads).2 _ hl
  rw [Stage.before_below] at hlink
  cases hlink

variable (env request summary k) in
/-- Whatever takes effect behind the making of the stage, the rename and the removal of the stage apart, does so
in the stage, and through no link that was made there before. -/
def Confines (source : Bytes) : Prop :=
  ∀ (stage : Stage env) (k₁ k₂ : Kernel), Making env request summary k k₁ k₂ stage →
    ∃ behind, (final (reassemble env request summary source) (Locals.start k)).kernel.effects = k₂.effects ++ behind ∧
      ∀ done effect more, behind = done ++ effect :: more → effect.deed ≠ .rename → effect.deed ≠ .remove →
        stage.loc <+: effect.loc ∧ ∀ link ∈ done, link.deed = .symlink → link.loc ∉ effect.via

theorem Trail.confines {k' : Kernel} (h : Trail stage k₂ k') : ∃ behind, k'.effects = k₂.effects ++ behind ∧
    ∀ done effect more, behind = done ++ effect :: more → effect.deed ≠ .rename → effect.deed ≠ .remove →
      stage.loc <+: effect.loc ∧ ∀ link ∈ done, link.deed = .symlink → link.loc ∉ effect.via := by
  obtain ⟨inner, outer, heffects, hinner, houter⟩ := h
  have hin : ∀ e ∈ inner ++ outer, e.deed ≠ .rename → e.deed ≠ .remove →
      stage.loc <+: e.loc ∧ ∀ l ∈ e.via, l ∈ stage.via := by
    intro e he hrename hremove
    rcases List.mem_append.mp he with he | he
    · exact hinner e he
    · exact absurd (houter e he) (not_or.mpr ⟨hrename, hremove⟩)
  refine ⟨inner ++ outer, heffects, fun done effect more hsplit hrename hremove => ?_⟩
  rw [hsplit] at hin
  obtain ⟨hloc, hvia⟩ := hin effect (List.mem_append_right _ List.mem_cons_self) hrename hremove
  refine ⟨hloc, fun link hlink hdeed hmem => ?_⟩
  have hplace := (hin link (List.mem_append_left _ hlink) (by rw [hdeed]; exact Deed.noConfusion)
    (by rw [hdeed]; exact Deed.noConfusion)).1
  exact via_apart (hvia _ hmem) hplace

/-- A validated stream in which no artifact lies below an earlier link is reassembled within the stage, whatever
the file system, the process, the calls that fail and the options are. -/
theorem reassembly_confined {maximumRecordBytes : Nat} {validated : Bytes}
    (hvalid : validate maximumRecordBytes validated = .ok summary) (hun : Unlinking summary.artifacts) :
    Confines env request summary k validated := by
  intro stage k₁ k₂ hmaking
  obtain ⟨fields, items, f, t, hv⟩ := validated_of_validate hvalid
  have hcommand := hmaking.granted.command
  exact (hmaking.trail (hv.sound hcommand) (hv.apart hcommand hun)).confines

end Confined

/-! ## A stream with links -/

theorem reassembly_confined_oneFile : ∃ summary, validate 1024 (artifactStream oneFile) = .ok summary ∧
    Confines openEnv outRequest summary bareKernel (artifactStream oneFile) := by
  obtain ⟨summary, hvalid, -, -, hartifacts⟩ := exists_oneFile
  have hun : Unlinking summary.artifacts := by
    rw [hartifacts]
    unfold Unlinking
    decide
  exact ⟨summary, hvalid, reassembly_confined hvalid hun⟩

theorem run_of_returned {ε σ : Type} {x : EStateM ε σ Unit} {s : σ} (h : returned (x s) = true) :
    x s = .ok () (final x s) := by
  unfold final
  cases hrun : x s with
  | ok u t => rfl
  | error error t =>
    rw [hrun] at h
    cases h

/-- A link to the root of the stage, one through it to the directory above, and a file below that one. -/
def escaping : List Specimen :=
  [⟨.symlink, ascii "p/q/r", ascii "../.."⟩, ⟨.symlink, ascii "x", ascii "p/q/r/.."⟩, ⟨.regular, ascii "x/f", []⟩]

/-- The kernel behind the making of the stage. -/
def escapingStart : Kernel :=
  final (mkdir openEnv outRequest.stage 0o700) (final (makeParents openEnv outRequest.parent) bareKernel)

/-- Where the stage is, and the directories and links made in it. -/
def escapingStage : Loc := [outRequest.stageName]

def escapingDone : List Effect :=
  [⟨.mkdir, escapingStage ++ [ascii "p"], []⟩, ⟨.mkdir, escapingStage ++ [ascii "p", ascii "q"], []⟩,
    ⟨.symlink, escapingStage ++ [ascii "p", ascii "q", ascii "r"], []⟩, ⟨.symlink, escapingStage ++ [ascii "x"], []⟩]

theorem escaping_effects : (final (construct openEnv outRequest (escaping.mapIdx Specimen.artifact)
      (artifactStream escaping)) (Locals.start bareKernel)).kernel.effects =
    escapingStart.effects ++ (escapingDone ++ ⟨.create, [ascii "f"],
      [escapingStage ++ [ascii "x"], escapingStage ++ [ascii "p", ascii "q", ascii "r"]]⟩ ::
      [⟨.chmod, [ascii "f"], []⟩, ⟨.rename, [ascii "out"], []⟩]) := by
  decide +kernel

/-- The stream is accepted and its targets are, but the file is created beside the stage. -/
theorem escaping_not_confined : ∃ summary, validate 1024 (artifactStream escaping) = .ok summary ∧
    ¬ Confines openEnv outRequest summary bareKernel (artifactStream escaping) := by
  obtain ⟨summary, hvalid, hcommand, hsuccess, hartifacts⟩ := @exists_summary escaping (by decide +kernel)
  refine ⟨summary, hvalid, fun hconfines => ?_⟩
  have htargets : ∀ a ∈ summary.artifacts, a.fileType = .symlink → safeSymlinkTarget a = .ok () := by
    rw [hartifacts]
    decide +kernel
  have hgranted : Granted openEnv outRequest summary bareKernel.fs :=
    ⟨hcommand, hsuccess, by decide, by decide, .inl rfl, htargets⟩
  have hlocate : locate openEnv.process (final (makeParents openEnv outRequest.parent) bareKernel).fs outRequest.stage =
      .ok ⟨[], outRequest.stageName, []⟩ := by decide +kernel
  obtain ⟨stage, e, hmaking, he, hloc⟩ := exists_making hgranted (run_of_returned (by decide +kernel))
    (run_of_returned (by decide +kernel))
  obtain rfl := Except.ok.inj (hlocate.symm.trans he)
  obtain ⟨behind, heffects, hbehind⟩ := hconfines stage _ _ hmaking
  have hrun : final (reassemble openEnv outRequest summary (artifactStream escaping)) (Locals.start bareKernel) =
      final (construct openEnv outRequest (escaping.mapIdx Specimen.artifact) (artifactStream escaping))
        (Locals.start bareKernel) := by
    unfold final
    rw [reassemble_of_granted hgranted, hartifacts]
  rw [hrun, escaping_effects] at heffects
  obtain rfl := List.append_cancel_left heffects
  obtain ⟨hbelow, -⟩ := hbehind _ _ _ rfl Deed.noConfusion Deed.noConfusion
  rw [← hloc] at hbelow
  revert hbelow
  decide

end GetBibleSword.Tool
