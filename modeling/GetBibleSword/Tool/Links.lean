import GetBibleSword.Lib.Posix.Course
import GetBibleSword.Tool.Confinement

/-!
# Where the links of a reassembly lead

A target is judged by its names alone, from the parent of its link on. A link among them leads elsewhere, and what goes
up from there goes up from elsewhere.

* `BehindLink`, `Straight` : no target goes up from a link of the stream or from below one;
* `LinksInside` : every link below a place, followed through all others, stays at or below it;
* `OnCourse` : the invariant of a resolution; `OnCourse.step`;
* `reassembly_links_inside` : the links of a reassembly.
-/

namespace GetBibleSword.Tool
open GetBibleSword.Lib Posix Relation

/-! ## Targets -/

/-- The path is that of a link of the stream, or below one. -/
def BehindLink (artifacts : List Artifact) (names : List Name) : Prop :=
  ∃ a ∈ artifacts, a.fileType = .symlink ∧ a.components <+: names

instance (artifacts : List Artifact) (names : List Name) : Decidable (BehindLink artifacts names) :=
  inferInstanceAs (Decidable (∃ a ∈ artifacts, _ ∧ _))

/-- The names, collected as `safe_symlink_target` does, go up from no path that is behind a link. -/
def Straight (artifacts : List Artifact) : List Name → List Name → Prop
  | _, [] => True
  | combined, component :: rest =>
    if component = [] ∨ component = dot then Straight artifacts combined rest
    else if component = dotdot then ¬ BehindLink artifacts combined ∧ Straight artifacts combined.dropLast rest
    else Straight artifacts (combined ++ [component]) rest

instance decidableStraight (artifacts : List Artifact) : ∀ combined names, Decidable (Straight artifacts combined names)
  | _, [] => Decidable.isTrue trivial
  | combined, component :: rest =>
    have := decidableStraight artifacts combined rest
    have := decidableStraight artifacts combined.dropLast rest
    have := decidableStraight artifacts (combined ++ [component]) rest
    inferInstanceAs (Decidable (if component = [] ∨ component = dot then Straight artifacts combined rest
      else if component = dotdot then ¬ BehindLink artifacts combined ∧ Straight artifacts combined.dropLast rest
      else Straight artifacts (combined ++ [component]) rest))

def StraightTargets (artifacts : List Artifact) : Prop :=
  ∀ a ∈ artifacts, a.fileType = .symlink → ∀ target ∈ a.target,
    Straight artifacts a.components.dropLast (target.splitOn slash)

section Targets
variable {artifacts : List Artifact} {a : Artifact} {combined : List Name} {component : Name} {rest : List Name}

theorem BehindLink.mono {names : List Name} (h : BehindLink artifacts combined) (hpre : combined <+: names) :
    BehindLink artifacts names := by
  obtain ⟨a, ha, htype, habove⟩ := h
  exact ⟨a, ha, htype, habove.trans hpre⟩

/-- Behind a link a straight target goes up no more. -/
theorem Straight.dotdot_notMem (names : List Name) : ∀ {combined : List Name}, BehindLink artifacts combined →
    Straight artifacts combined names → dotdot ∉ names := by
  induction names with
  | nil => exact fun _ _ => List.not_mem_nil
  | cons component rest ih =>
    intro combined hbehind h
    rw [Straight] at h
    split_ifs at h with hsame hup
    · rw [List.mem_cons, not_or]
      refine ⟨?_, ih hbehind h⟩
      rcases hsame with rfl | rfl
      all_goals decide
    · exact absurd hbehind h.1
    · rw [List.mem_cons, not_or]
      exact ⟨Ne.symm hup, ih (hbehind.mono (List.prefix_append combined [component])) h⟩

/-- The target does not go above the output root, by its names. -/
def Level (a : Artifact) (combined names : List Name) : Prop := ∃ last, combineTarget a combined names = .ok last

theorem level_same (hsame : component = [] ∨ component = dot) :
    Level a combined (component :: rest) ↔ Level a combined rest := by
  have hskip : component = [] ∨ component = ascii "." := hsame
  unfold Level
  rw [combineTarget, if_pos hskip]

theorem level_up : Level a combined (dotdot :: rest) ↔ combined ≠ [] ∧ Level a combined.dropLast rest := by
  unfold Level dotdot
  rw [combineTarget, if_neg (by decide), if_pos rfl]
  simp only [bind_eq_ok, failStream_eq_ok]
  constructor
  · rintro ⟨last, _, hne, hrest⟩
    exact ⟨hne, last, hrest⟩
  · rintro ⟨hne, last, hrest⟩
    exact ⟨last, (), hne, hrest⟩

theorem level_down (hnil : component ≠ []) (hdot : component ≠ dot) (hup : component ≠ dotdot) :
    Level a combined (component :: rest) ↔ Level a (combined ++ [component]) rest := by
  have hskip : ¬ (component = [] ∨ component = ascii ".") := not_or.mpr ⟨hnil, hdot⟩
  have hdown : component ≠ ascii ".." := hup
  unfold Level
  rw [combineTarget, if_neg hskip, if_neg hdown]

/-- What `safe_symlink_target` lets pass. -/
theorem target_of_safe {target : Bytes} (h : safeSymlinkTarget a = .ok ()) (htarget : a.target = some target) :
    isAbsolute target = false ∧ Level a a.components.dropLast (components target) := by
  unfold safeSymlinkTarget Validator.asserted at h
  rw [htarget] at h
  simp only [bind_eq_ok, failStream_eq_ok, not_or] at h
  obtain ⟨target', htarget', _, ⟨-, hrelative⟩, hcombined⟩ := h
  obtain rfl := Except.ok.inj htarget'
  refine ⟨decide_eq_false hrelative, ?_⟩
  cases hlast : combineTarget a a.components.dropLast (target.splitOn slash) with
  | ok last => exact ⟨last, hlast⟩
  | error error =>
    rw [hlast] at hcombined
    cases hcombined

end Targets

/-! ## A resolution -/

/-- Every link at or below the place, followed through all others, comes by no place outside of it. -/
def LinksInside (fs : FileSystem) (place : Loc) : Prop :=
  ∀ p names target, fs.node (place ++ names) = some (.link target) →
    ∀ l, ComesBy p fs (linkStart (place ++ names) target) (components target) l → place <+: l

/-- A resolution below `place`: what is left of the target it is in, from the names collected so far, and behind it
what is left of those it has come through, which goes up no more. -/
structure OnCourse (artifacts : List Artifact) (place : Loc) (c : Course) : Prop where
  split : ∃ a combined inner outer, c = (place ++ combined, inner ++ outer) ∧ Level a combined inner ∧
    Straight artifacts combined inner ∧ dotdot ∉ outer

section Resolution
variable {artifacts : List Artifact} {a : Artifact} {fs : FileSystem} {place : Loc} {p : Process} {c c' : Course}
  {combined outer names : List Name} {target : Bytes}

/-- The links below a place that holds the artifacts are artifacts. -/
theorem Contains.link (h : Contains artifacts fs place) (hnode : fs.node (place ++ names) = some (.link target)) :
    ∃ a ∈ artifacts, a.components = names ∧ a.fileType = .symlink ∧ a.target = some target := by
  have hnotdir : ¬ fs.IsDir (place ++ names) := by
    rw [FileSystem.isDir_iff, hnode]
    rintro ⟨mode, hmode⟩
    cases hmode
  have hne : names ≠ [] := by
    rintro rfl
    rw [List.append_nil] at hnotdir
    exact hnotdir h.directory
  rcases h.only names hne (by rw [hnode]; exact Option.some_ne_none _) with ⟨a, ha, rfl⟩ | ⟨hdir, -⟩
  · obtain ⟨content, hstands, -⟩ := h.artifact a ha
    rw [hnode] at hstands
    obtain ⟨target', htarget, hlink⟩ := (standing_symlink hstands.symlink).mp hstands
    obtain rfl := Node.link.inj (Option.some.inj hlink)
    exact ⟨a, ha, rfl, hstands.symlink, htarget⟩
  · exact absurd hdir hnotdir

variable (hcontains : Contains artifacts fs place)
  (hsafe : ∀ a ∈ artifacts, a.fileType = .symlink → safeSymlinkTarget a = .ok ()) (hstraight : StraightTargets artifacts)
include hcontains hsafe hstraight

/-- A link is entered at the start of its target. -/
theorem onCourse_link (hnode : fs.node (place ++ names) = some (.link target)) (hdown : dotdot ∉ outer) :
    OnCourse artifacts place (linkStart (place ++ names) target, components target ++ outer) := by
  obtain ⟨a, ha, rfl, htype, htarget⟩ := hcontains.link hnode
  obtain ⟨hrelative, hlevel⟩ := target_of_safe (hsafe a ha htype) htarget
  have hne : a.components ≠ [] := by
    intro hnil
    obtain ⟨mode, hmode⟩ := FileSystem.isDir_iff.mp hcontains.directory
    rw [hnil, List.append_nil, hmode] at hnode
    cases hnode
  refine ⟨a, a.components.dropLast, components target, outer, ?_, hlevel, hstraight a ha htype target htarget, hdown⟩
  rw [linkStart, hrelative, if_neg Bool.false_ne_true, List.dropLast_append_of_ne_nil hne]

/-- The next name of an outer target goes down or stays. -/
theorem onCourse_outer (a : Artifact) {name : Name} {rest : List Name} (hdown : dotdot ∉ name :: rest)
    (hstep : Resolves p fs (place ++ combined, name :: rest) c') : OnCourse artifacts place c' := by
  rw [List.mem_cons, not_or] at hdown
  cases hstep with
  | name hmove =>
    rcases enter_reached_cases hmove with ⟨-, rfl⟩ | ⟨rfl, -⟩ | ⟨-, -, -, rfl⟩
    · exact ⟨a, combined, [], rest, rfl, ⟨_, rfl⟩, trivial, hdown.2⟩
    · exact absurd rfl hdown.1
    · exact ⟨a, combined ++ [name], [], rest, by rw [List.append_assoc]; rfl, ⟨_, rfl⟩, trivial, hdown.2⟩
  | link hmove _ =>
    obtain ⟨-, -, -, rfl, hnode⟩ := enter_link_cases hmove
    rw [List.append_assoc] at hnode ⊢
    exact onCourse_link hcontains hsafe hstraight hnode hdown.2

/-- The next name of the target the resolution is in, by the case `safe_symlink_target` makes of it. -/
theorem onCourse_inner {name : Name} {rest : List Name} (hlevel : Level a combined (name :: rest))
    (hnext : Straight artifacts combined (name :: rest)) (hdown : dotdot ∉ outer)
    (hstep : Resolves p fs (place ++ combined, name :: (rest ++ outer)) c') : OnCourse artifacts place c' := by
  rw [Straight] at hnext
  cases hstep with
  | name hmove =>
    rcases enter_reached_cases hmove with ⟨hsame, rfl⟩ | ⟨rfl, rfl⟩ | ⟨hnil, hdot, hup, rfl⟩
    · rw [if_pos hsame] at hnext
      exact ⟨a, combined, rest, outer, rfl, (level_same hsame).mp hlevel, hnext, hdown⟩
    · rw [if_neg (by decide), if_pos rfl] at hnext
      obtain ⟨hne, hrest⟩ := level_up.mp hlevel
      refine ⟨a, combined.dropLast, rest, outer, ?_, hrest, hnext.2, hdown⟩
      rw [List.dropLast_append_of_ne_nil hne]
    · rw [if_neg (not_or.mpr ⟨hnil, hdot⟩), if_neg hup] at hnext
      refine ⟨a, combined ++ [name], rest, outer, ?_, (level_down hnil hdot hup).mp hlevel, hnext, hdown⟩
      rw [List.append_assoc]
  | link hmove _ =>
    obtain ⟨hnil, hdot, hup, rfl, hnode⟩ := enter_link_cases hmove
    rw [if_neg (not_or.mpr ⟨hnil, hdot⟩), if_neg hup] at hnext
    rw [List.append_assoc] at hnode ⊢
    obtain ⟨b, hb, hcomponents, htype, -⟩ := hcontains.link hnode
    -- from here on the target is behind a link
    have hrest : dotdot ∉ rest :=
      hnext.dotdot_notMem rest ⟨b, hb, htype, hcomponents ▸ List.prefix_rfl⟩
    refine onCourse_link hcontains hsafe hstraight hnode fun hmem => ?_
    rcases List.mem_append.mp hmem with hmem | hmem
    · exact hrest hmem
    · exact hdown hmem

theorem OnCourse.step (h : OnCourse artifacts place c) (hstep : Resolves p fs c c') : OnCourse artifacts place c' := by
  obtain ⟨a, combined, inner, outer, rfl, hlevel, hnext, hdown⟩ := h
  cases inner with
  | cons name rest => exact onCourse_inner hcontains hsafe hstraight hlevel hnext hdown hstep
  | nil =>
    cases outer with
    | cons name rest => exact onCourse_outer hcontains hsafe hstraight a hdown hstep
    | nil => cases hstep

/-- Where the artifacts are and no target goes up from behind a link, no link leads outside. -/
theorem linksInside_of_contains : LinksInside fs place := by
  intro p names target hnode l hcomes
  obtain ⟨rest, hway⟩ := hcomes
  have hstart := onCourse_link hcontains hsafe hstraight hnode (List.not_mem_nil (a := dotdot))
  rw [List.append_nil] at hstart
  have hend : OnCourse artifacts place (l, rest) := by
    generalize (l, rest) = c at hway
    induction hway with
    | refl => exact hstart
    | tail _ hstep ih => exact ih.step hcontains hsafe hstraight hstep
  obtain ⟨a, combined, inner, outer, hcourse, -⟩ := hend
  obtain ⟨rfl, -⟩ := Prod.mk.inj hcourse
  exact List.prefix_append place combined

end Resolution

/-! ## Runs -/

section Run
variable {env : Env} {request : Request} {summary : ValidationSummary} {k : Kernel} {m : Nat} {validated source : Bytes}
  {t : Locals}

theorem granted_of_ok (h : reassemble env request summary source (Locals.start k) = .ok () t) :
    Granted env request summary k.fs := by
  unfold reassemble at h
  rw [run_bind, run_get] at h
  dsimp only at h
  cases hrefusals : refusals env request summary (Locals.start k).kernel.fs with
  | ok u => exact refusals_eq_ok.mp hrefusals
  | error error =>
    rw [hrefusals] at h
    cases h

/-- A validated stream in which no artifact lies below an earlier link is reassembled whole. -/
theorem destination_of_unlinking (hvalid : validate m validated = .ok summary) (hun : Unlinking summary.artifacts)
    (h : reassemble env request summary validated (Locals.start k) = .ok () t) :
    DestinationContains summary.artifacts t.kernel := by
  obtain ⟨fields, items, f, shape, hv⟩ := validated_of_validate hvalid
  have hcommand := (granted_of_ok h).command
  have hsound := hv.sound hcommand
  obtain ⟨stage, k₂, hpath, hfinished⟩ := finished_of_ok hsound (hv.apart hcommand hun) h
  obtain ⟨s, loc, via, hbuilt, hlast, hsame⟩ := hfinished.destination hpath
  exact ⟨loc, via, hlast, hbuilt.contains hsound hsame (hv.delivered hcommand hbuilt)⟩

/-- The reassembly of a validated stream in which no artifact lies below an earlier link and no target goes up from
behind one, when it returns, has left no link at the destination that leads out of it, for any process. -/
theorem reassembly_links_inside (hvalid : validate m validated = .ok summary) (hun : Unlinking summary.artifacts)
    (hstraight : StraightTargets summary.artifacts)
    (h : reassemble env request summary validated (Locals.start k) = .ok () t) :
    ∃ loc via, t.kernel.effects.getLast? = some ⟨.rename, loc, via⟩ ∧ Contains summary.artifacts t.kernel.fs loc ∧
      LinksInside t.kernel.fs loc := by
  obtain ⟨loc, via, hlast, hcontains⟩ := destination_of_unlinking hvalid hun h
  exact ⟨loc, via, hlast, hcontains, linksInside_of_contains hcontains (granted_of_ok h).targets hstraight⟩

end Run

/-- The kernel behind the reassembly of a stream of these objects in an empty root. -/
def kernelOf (objects : List Specimen) : Kernel :=
  (final (construct openEnv outRequest (objects.mapIdx Specimen.artifact) (artifactStream objects))
    (Locals.start bareKernel)).kernel

theorem exists_reassembled_objects {objects : List Specimen} (haccepts : accepts objects = true)
    (htargets : ∀ a ∈ objects.mapIdx Specimen.artifact, a.fileType = .symlink → safeSymlinkTarget a = .ok ())
    (hreturned : returned (construct openEnv outRequest (objects.mapIdx Specimen.artifact) (artifactStream objects)
      (Locals.start bareKernel)) = true) :
    ∃ summary t, validate 1024 (artifactStream objects) = .ok summary ∧
      summary.artifacts = objects.mapIdx Specimen.artifact ∧
      reassemble openEnv outRequest summary (artifactStream objects) (Locals.start bareKernel) = .ok () t ∧
      t.kernel = kernelOf objects := by
  obtain ⟨summary, hvalid, hcommand, hsuccess, hartifacts⟩ := exists_summary haccepts
  have hgranted : Granted openEnv outRequest summary bareKernel.fs :=
    ⟨hcommand, hsuccess, by decide, by decide, .inl rfl, hartifacts ▸ htargets⟩
  refine ⟨summary, _, hvalid, hartifacts, ?_, rfl⟩
  rw [reassemble_of_granted hgranted, hartifacts]
  exact run_of_returned hreturned

/-- A link to the directory it is in, by way of the one above. -/
def beside : List Specimen := [⟨.symlink, ascii "d/u", ascii "../d"⟩]

theorem reassembly_links_inside_beside : ∃ (summary : ValidationSummary) (t : Locals) (loc : Loc) (via : List Loc),
    validate 1024 (artifactStream beside) = .ok summary ∧
    t.kernel.effects.getLast? = some ⟨.rename, loc, via⟩ ∧ Contains summary.artifacts t.kernel.fs loc ∧
    LinksInside t.kernel.fs loc := by
  obtain ⟨summary, t, hvalid, hartifacts, hrun, -⟩ :=
    @exists_reassembled_objects beside (by decide +kernel) (by decide +kernel) (by decide +kernel)
  have hun : Unlinking summary.artifacts := by
    rw [hartifacts]
    unfold Unlinking
    decide
  have hstraight : StraightTargets summary.artifacts := by
    rw [hartifacts]
    unfold StraightTargets
    decide +kernel
  obtain ⟨loc, via, hinside⟩ := reassembly_links_inside hvalid hun hstraight hrun
  exact ⟨summary, t, loc, via, hvalid, hinside⟩

/-- A link to the root of the destination, and one through it to the directory above. -/
def turning : List Specimen :=
  [⟨.symlink, ascii "p/q/r", ascii "../.."⟩, ⟨.symlink, ascii "x", ascii "p/q/r/.."⟩]

theorem turning_end : (kernelOf turning).effects.getLast? = some ⟨.rename, [ascii "out"], []⟩ ∧
    (kernelOf turning).fs.node ([ascii "out"] ++ [ascii "x"]) = some (.link (ascii "p/q/r/..")) ∧
    walk openEnv.process (kernelOf turning).fs true maxLinks (linkStart ([ascii "out"] ++ [ascii "x"]) (ascii "p/q/r/.."))
      (components (ascii "p/q/r/..")) = .ok ⟨[], [[ascii "out", ascii "p", ascii "q", ascii "r"]]⟩ := by
  decide +kernel

/-- Both targets pass, and the second link leads outside. -/
theorem turning_not_inside : ∃ (summary : ValidationSummary) (t : Locals) (loc : Loc) (via : List Loc),
    validate 1024 (artifactStream turning) = .ok summary ∧
    reassemble openEnv outRequest summary (artifactStream turning) (Locals.start bareKernel) = .ok () t ∧
    t.kernel.effects.getLast? = some ⟨.rename, loc, via⟩ ∧ ¬ LinksInside t.kernel.fs loc := by
  obtain ⟨summary, t, hvalid, -, hrun, hkernel⟩ :=
    @exists_reassembled_objects turning (by decide +kernel) (by decide +kernel) (by decide +kernel)
  have hend := turning_end
  rw [← hkernel] at hend
  obtain ⟨hrenamed, hlink, hwalk⟩ := hend
  refine ⟨summary, t, [ascii "out"], [], hvalid, hrun, hrenamed, fun hinside => ?_⟩
  have hout := hinside openEnv.process [ascii "x"] (ascii "p/q/r/..") hlink [] (comesBy_of_walk maxLinks hwalk)
  exact absurd (List.prefix_nil.mp hout) (List.cons_ne_nil _ _)

end GetBibleSword.Tool
