import GetBibleSword.Core.ConfigurationRun
import GetBibleSword.Core.DiscoveryOrder
import GetBibleSword.Tool.Chunking

/-!
# Complete or flagged

The capture of the configuration over a root that stays as it is, where any call may fail.

* `FileAt`, `ConfigFile` : the files of the configuration;
* `Observes` : the answers are those of the tree, or errors;
* `CompleteOrFlagged` : every configuration file of the module is written, or an error is reported;
* `Overlooked` : the status of a defining `mods.conf` cannot be read, and nothing else fails;
* `configuration_capture_iff` : the capture is complete or flagged exactly where that is not so.

`find_configuration_files` clears every error of `symlink_status`, not only that nothing is there.
-/

namespace GetBibleSword.Tool
open GetBibleSword.Lib Posix FsPath GetBibleSword.Core

/-! ## The files -/

section Files
variable (disk : Disk) (root : Loc)

/-- The path of the root. -/
abbrev rootPath (root : Loc) : Path := absolutePath root false

def masterLoc (root : Loc) : Loc := root ++ [ascii "mods.conf"]

def masterPath (root : Loc) : Path := join (rootPath root) (ascii "mods.conf")

def modsPath (root : Loc) : Path := join (rootPath root) (ascii "mods.d")

/-- A regular file with its octets: `mods.conf`, or at any depth below what `mods.d` leads to. -/
inductive FileAt : Path → Bytes → Prop where
  | master {mode : Nat} {data : Bytes} (hnode : disk.fs.node (masterLoc root) = some (.file mode data)) :
      FileAt (masterPath root) data
  | below {loc : Loc} {names : List Name} {mode : Nat} {data : Bytes} (hloc : disk.canonical (modsPath root) = .ok loc)
      (hne : names ≠ []) (hnode : disk.fs.node (loc ++ names) = some (.file mode data)) :
      FileAt (objectPath (modsPath root) names) data

/-- A file that may hold the configuration: `mods.conf` alone where that is a regular file. -/
def ConfigFile (path : Path) (data : Bytes) : Prop :=
  FileAt disk root path data ∧
    ((∃ mode data, disk.fs.node (masterLoc root) = some (.file mode data)) → path = masterPath root)

end Files

/-! ## The answers -/

/-- What `symlink_status` says about an object. -/
def kindOf : Node → FileKind
  | .file _ _ => .regular
  | .link _ => .symlink
  | _ => .other

/-- A stream on a file that stays as it is; any call on it may fail. -/
structure Static (data : Bytes) (input : IfstreamAnswers) : Prop where
  size : ∀ position, input.endPosition = some position → position = data.length
  content : input.content <+: data

/-- An iteration below a directory delivers each object at most once, and all unless an increment fails. -/
structure Visits (fs : FileSystem) (base : Path) (loc : Loc) (steps : List ConfigStep) : Prop where
  once : (steps.map ConfigStep.path).Nodup
  there : ∀ step ∈ steps, ∃ names node, names ≠ [] ∧ step.path = objectPath base names ∧
    fs.node (loc ++ names) = some node ∧ (∀ kind, step.status = .ok kind → kind = kindOf node) ∧
    ∀ mode data, node = .file mode data → Static data step.file
  all : (∀ step ∈ steps, step.increment = none) → ∀ names, names ≠ [] → fs.node (loc ++ names) ≠ none →
    ∃ step ∈ steps, step.path = objectPath base names

/-- Each answer is that of the tree, or an error. -/
structure Observes (disk : Disk) (root : Loc) (moduleName : Bytes) (answers : ConfigurationAnswers) : Prop where
  master : answers.masterStatus = .other ∨
    ∃ node, disk.fs.node (masterLoc root) = some node ∧ answers.masterStatus = kindOf node
  masterFile : ∀ mode data, disk.fs.node (masterLoc root) = some (.file mode data) → Static data answers.masterFile
  iterator : ∀ steps, answers.iterator = .ok steps →
    ∃ loc, disk.canonical (modsPath root) = .ok loc ∧ Visits disk.fs (modsPath root) loc steps
  reread : ∀ index path data, (configurationFound (rootPath root) moduleName answers).1[index]? = some path →
    FileAt disk root path data → Static data (answers.reread index)

/-! ## The property -/

/-- The sources are numbered from zero, in increasing order of their relative paths; each has the octets of
its file and defines the module; and a file that defines it is among them, or an error is reported. -/
def CompleteOrFlagged (disk : Disk) (root : Loc) (moduleName : Bytes) (records : List (Bytes × JsonFields)) : Prop :=
  ∃ captured : List (Path × Bytes),
    sourceRecords records = captured.mapIdx (sourceRecord (rootPath root)) ∧
    captured.Pairwise (fun a b => lexicallyRelative a.1 (rootPath root) < lexicallyRelative b.1 (rootPath root)) ∧
    (∀ source ∈ captured, FileAt disk root source.1 source.2 ∧ DefinesSection moduleName source.2) ∧
    ∀ path data, ConfigFile disk root path data → DefinesSection moduleName data →
      (∃ source ∈ captured, source.1 = path) ∨ ∃ record ∈ records, IsErrorRecord record

/-- A round in which nothing fails and no link is met. -/
def Quiet (step : ConfigStep) : Prop :=
  step.increment = none ∧ ∃ kind, step.status = .ok kind ∧ kind ≠ .symlink ∧
    (kind = .regular → ∃ bytes, readFile step.file = .ok bytes)

/-- A regular file that is read and has the section. -/
def defining (moduleName : Bytes) (step : ConfigStep) : Bool :=
  match step.status, readFile step.file with
  | .ok .regular, .ok bytes => definesModule bytes moduleName
  | _, _ => false

/-- The status of a `mods.conf` that defines the module cannot be read, and nothing else fails. -/
structure Overlooked (disk : Disk) (root : Loc) (moduleName : Bytes) (answers : ConfigurationAnswers) : Prop where
  master : ∃ mode data, disk.fs.node (masterLoc root) = some (.file mode data) ∧ DefinesSection moduleName data
  status : answers.masterStatus = .other
  quiet : ∃ steps, answers.iterator = .ok steps ∧ (∀ step ∈ steps, Quiet step) ∧
    ∀ index < (steps.filter (defining moduleName)).length, ∃ bytes, readFile (answers.reread index) = .ok bytes

/-! ## Paths -/

section Paths
variable {disk : Disk} {root : Loc} {path : Path} {data : Bytes} (hroot : disk.fs.IsDir root)

theorem plain_mods : PlainName (ascii "mods.d") := .of_valid (by decide)

theorem plain_master : PlainName (ascii "mods.conf") := .of_valid (by decide)

section Root
include hroot

theorem plain_root : ∀ name ∈ root, PlainName name := by
  obtain ⟨mode, hmode⟩ := FileSystem.isDir_iff.mp hroot
  exact fun name hname => .of_valid (FileSystem.valid_of_node (by rw [hmode]; exact Option.some_ne_none _) name hname)

theorem plain_rest {rest : List Name} (h : ∀ name ∈ rest, PlainName name) : ∀ name ∈ root ++ rest, PlainName name := by
  intro name hname
  exact (List.mem_append.mp hname).elim (plain_root hroot name) (h name)

theorem masterPath_eq : masterPath root = absolutePath (root ++ [ascii "mods.conf"]) false :=
  join_absolutePath (plain_root hroot) plain_master

theorem objectPath_modsPath {names : List Name} (hnames : ∀ name ∈ names, PlainName name) (hne : names ≠ []) :
    objectPath (modsPath root) names = absolutePath (root ++ ascii "mods.d" :: names) false := by
  have hplain : ∀ name ∈ root ++ [ascii "mods.d"] ++ names, PlainName name := by
    rw [List.append_assoc]
    exact plain_rest hroot (List.forall_mem_cons.mpr ⟨plain_mods, hnames⟩)
  rw [modsPath, join_absolutePath (plain_root hroot) plain_mods, objectPath_absolutePath hplain hne,
    List.append_assoc, List.singleton_append]

/-- A file of the configuration lies below the root. -/
theorem FileAt.below_root (h : FileAt disk root path data) : ∃ rest, path = absolutePath (root ++ rest) false ∧
    (∀ name ∈ rest, PlainName name) ∧ rest ≠ [] := by
  cases h with
  | master hnode => exact ⟨_, masterPath_eq hroot, by simpa using plain_master, List.cons_ne_nil _ _⟩
  | @below loc names mode data hloc hne hnode =>
    have hnames : ∀ name ∈ names, PlainName name := by
      intro name hname
      exact .of_valid (FileSystem.valid_of_node (by rw [hnode]; exact Option.some_ne_none _) name
        (List.mem_append_right _ hname))
    exact ⟨_, objectPath_modsPath hroot hnames hne, List.forall_mem_cons.mpr ⟨plain_mods, hnames⟩,
      List.cons_ne_nil _ _⟩

/-- Different files have different relative paths. -/
theorem FileAt.relative_inj {path' : Path} {data' : Bytes} (h : FileAt disk root path data)
    (h' : FileAt disk root path' data')
    (heq : lexicallyRelative path (rootPath root) = lexicallyRelative path' (rootPath root)) : path = path' := by
  obtain ⟨rest, rfl, hplain, hne⟩ := h.below_root hroot
  obtain ⟨rest', rfl, hplain', -⟩ := h'.below_root hroot
  rw [lexicallyRelative_below (plain_rest hroot hplain), lexicallyRelative_below (plain_rest hroot hplain')] at heq
  obtain ⟨rfl, -⟩ := relativePath_inj hplain hplain' hne heq
  rfl

theorem objectPath_inj_mods {names names' : List Name} (hnames : ∀ name ∈ names, PlainName name) (hne : names ≠ [])
    (hnames' : ∀ name ∈ names', PlainName name) (hne' : names' ≠ [])
    (heq : objectPath (modsPath root) names = objectPath (modsPath root) names') : names = names' := by
  rw [objectPath_modsPath hroot hnames hne, objectPath_modsPath hroot hnames' hne'] at heq
  have hrest := (absolutePath_inj (plain_rest hroot (List.forall_mem_cons.mpr ⟨plain_mods, hnames⟩))
    (plain_rest hroot (List.forall_mem_cons.mpr ⟨plain_mods, hnames'⟩)) heq).1
  exact (List.cons.inj (List.append_cancel_left hrest)).2

theorem objectPath_ne_masterPath {names : List Name} (hnames : ∀ name ∈ names, PlainName name) (hne : names ≠ []) :
    objectPath (modsPath root) names ≠ masterPath root := by
  rw [objectPath_modsPath hroot hnames hne, masterPath_eq hroot]
  intro heq
  have hrest := (absolutePath_inj (plain_rest hroot (List.forall_mem_cons.mpr ⟨plain_mods, hnames⟩))
    (plain_rest hroot (by simpa using plain_master)) heq).1
  exact absurd (List.cons.inj (List.append_cancel_left hrest)).1 (by decide)

end Root
end Paths

/-! ## What is found -/

section Steps
variable {root moduleName path : Bytes} {steps : List ConfigStep}

/-- A kept file is the one of the round. -/
theorem candidateFound_fst (step : ConfigStep) (kind : FileKind) (hstatus : step.status = .ok kind) :
    (candidateFound root moduleName step kind).1 = if defining moduleName step then [step.path] else [] := by
  unfold defining
  rw [hstatus]
  cases kind with
  | regular =>
    unfold candidateFound fileFound
    cases readFile step.file with
    | error message => rfl
    | ok bytes => rfl
  | symlink => rfl
  | other => rfl

theorem candidateFound_snd (step : ConfigStep) (kind : FileKind) :
    (candidateFound root moduleName step kind).2 = [] ↔
      kind ≠ .symlink ∧ (kind = .regular → ∃ bytes, readFile step.file = .ok bytes) := by
  cases kind with
  | regular =>
    unfold candidateFound fileFound
    cases readFile step.file with
    | error message => simp
    | ok bytes => simp
  | symlink => simp [candidateFound]
  | other => simp [candidateFound]

/-- A round finds its own file where that defines the module; the rounds behind it follow unless one fails. -/
theorem stepsFound_fst_cons (step : ConfigStep) (steps : List ConfigStep) : ∃ behind,
    (stepsFound root moduleName (step :: steps)).1 =
      (if defining moduleName step then [step.path] else []) ++ behind ∧
    (behind = [] ∨ behind = (stepsFound root moduleName steps).1) ∧
    (step.increment = none → behind = (stepsFound root moduleName steps).1) := by
  rw [stepsFound]
  cases hstatus : step.status with
  | error detail =>
    have hdefining : defining moduleName step = false := by
      unfold defining
      rw [hstatus]
    rw [hdefining, if_neg Bool.false_ne_true]
    dsimp only
    by_cases hincrement : step.increment.isSome = true
    · rw [if_pos hincrement]
      refine ⟨[], rfl, .inl rfl, fun hnone => ?_⟩
      rw [hnone] at hincrement
      cases hincrement
    · rw [if_neg hincrement]
      exact ⟨_, rfl, .inr rfl, fun _ => rfl⟩
  | ok kind =>
    dsimp only
    have hhere := @candidateFound_fst root moduleName step kind hstatus
    cases hincrement : step.increment with
    | some detail =>
      refine ⟨[], ?_, .inl rfl, fun hnone => by cases hnone⟩
      dsimp only
      rw [hhere, List.append_nil]
    | none =>
      refine ⟨_, ?_, .inr rfl, fun _ => rfl⟩
      dsimp only
      rw [hhere]

/-- What is found are files of rounds, in their order. -/
theorem stepsFound_sublist (steps : List ConfigStep) : (stepsFound root moduleName steps).1.Sublist
    ((steps.filter (defining moduleName)).map ConfigStep.path) := by
  induction steps with
  | nil => exact List.Sublist.refl _
  | cons step steps ih =>
    obtain ⟨behind, heq, hbehind, -⟩ := @stepsFound_fst_cons root moduleName step steps
    have hrest : behind.Sublist ((steps.filter (defining moduleName)).map ConfigStep.path) := by
      rcases hbehind with rfl | rfl
      · exact List.nil_sublist _
      · exact ih
    rw [heq, List.filter_cons]
    by_cases hdefining : defining moduleName step = true
    · rw [if_pos hdefining, if_pos hdefining]
      exact hrest.cons_cons step.path
    · rw [if_neg hdefining, if_neg hdefining]
      exact hrest

/-- Nothing is reported exactly where all rounds are quiet. -/
theorem stepsFound_snd (steps : List ConfigStep) :
    (stepsFound root moduleName steps).2 = [] ↔ ∀ step ∈ steps, Quiet step := by
  induction steps with
  | nil => exact iff_of_true rfl fun step hstep => absurd hstep List.not_mem_nil
  | cons step steps ih =>
    rw [stepsFound, List.forall_mem_cons]
    cases hstatus : step.status with
    | error detail =>
      refine iff_of_false (List.cons_ne_nil _ _) fun h => ?_
      obtain ⟨-, kind, hkind, -⟩ := h.1
      rw [hstatus] at hkind
      cases hkind
    | ok kind =>
      dsimp only
      cases hincrement : step.increment with
      | some detail =>
        refine iff_of_false (by simp) fun h => ?_
        rw [h.1.1] at hincrement
        cases hincrement
      | none =>
        dsimp only
        rw [List.append_eq_nil_iff, candidateFound_snd, ih]
        apply and_congr_left'
        constructor
        · exact fun h => ⟨hincrement, kind, hstatus, h⟩
        · intro h
          obtain ⟨-, kind', hkind, h⟩ := h
          obtain rfl := Except.ok.inj (hstatus.symm.trans hkind)
          exact h

/-- And then every file that defines the module is found. -/
theorem stepsFound_quiet (steps : List ConfigStep) (h : ∀ step ∈ steps, Quiet step) :
    (stepsFound root moduleName steps).1 = (steps.filter (defining moduleName)).map ConfigStep.path := by
  induction steps with
  | nil => rfl
  | cons step steps ih =>
    obtain ⟨hstep, hsteps⟩ := List.forall_mem_cons.mp h
    obtain ⟨behind, heq, -, hbehind⟩ := @stepsFound_fst_cons root moduleName step steps
    rw [heq, hbehind hstep.1, ih hsteps, List.filter_cons]
    by_cases hdefining : defining moduleName step = true
    · rw [if_pos hdefining, if_pos hdefining]
      rfl
    · rw [if_neg hdefining, if_neg hdefining]
      rfl

/-- What is found is one file at most, or what the rounds have found, sorted. -/
theorem configurationFound_cases (root moduleName : Bytes) (answers : ConfigurationAnswers) :
    (∃ bytes, answers.masterStatus = .regular ∧ readFile answers.masterFile = .ok bytes ∧
      (configurationFound root moduleName answers).1 =
        if definesModule bytes moduleName then [join root (ascii "mods.conf")] else []) ∨
    (configurationFound root moduleName answers).1 = [] ∨
    ∃ steps, answers.masterStatus = .other ∧ answers.iterator = .ok steps ∧
      (configurationFound root moduleName answers).1 = answers.sort root (stepsFound root moduleName steps).1 := by
  unfold configurationFound
  dsimp only
  cases hstatus : answers.masterStatus with
  | regular =>
    dsimp only
    unfold fileFound
    cases hread : readFile answers.masterFile with
    | error message => exact .inr (.inl rfl)
    | ok bytes => exact .inl ⟨bytes, rfl, rfl, rfl⟩
  | symlink => exact .inr (.inl rfl)
  | other =>
    dsimp only
    cases hiterator : answers.iterator with
    | error detail => exact .inr (.inl rfl)
    | ok steps => exact .inr (.inr ⟨steps, rfl, rfl, rfl⟩)

theorem defining_iff (step : ConfigStep) : defining moduleName step = true ↔
    step.status = .ok .regular ∧ ∃ bytes, readFile step.file = .ok bytes ∧ DefinesSection moduleName bytes := by
  unfold defining
  cases step.status with
  | error detail => simp
  | ok kind =>
    cases kind with
    | regular =>
      cases readFile step.file with
      | error message => simp
      | ok bytes => simp [definesModule_iff]
    | symlink => simp
    | other => simp

end Steps

section Sources
variable {reread : Nat → IfstreamAnswers}

/-- A source is a file with what its second reading delivers. -/
theorem mem_sources {source : Path × Bytes} (files : List Path) : ∀ {index : Nat}, source ∈ sources reread index files →
    ∃ i, files[i]? = some source.1 ∧ readFile (reread (index + i)) = .ok source.2 := by
  induction files with
  | nil => exact fun h => absurd h List.not_mem_nil
  | cons file files ih =>
    intro index h
    rw [sources] at h
    have hrest : source ∈ sources reread (index + 1) files →
        ∃ i, (file :: files)[i]? = some source.1 ∧ readFile (reread (index + i)) = .ok source.2 := by
      intro h
      obtain ⟨i, hfile, hread⟩ := ih h
      exact ⟨i + 1, hfile, by rwa [Nat.add_right_comm] at hread⟩
    cases hread : readFile (reread index) with
    | error message =>
      rw [hread] at h
      exact hrest h
    | ok bytes =>
      rw [hread] at h
      rcases List.mem_cons.mp h with rfl | h
      · exact ⟨0, rfl, hread⟩
      · exact hrest h

theorem sources_sublist (files : List Path) : ∀ index : Nat, ((sources reread index files).map Prod.fst).Sublist files := by
  induction files with
  | nil => exact fun _ => List.Sublist.refl _
  | cons file files ih =>
    intro index
    rw [sources]
    cases readFile (reread index) with
    | error message => exact (ih (index + 1)).cons file
    | ok bytes => exact (ih (index + 1)).cons_cons file

/-- Where no second reading fails all files are sources. -/
theorem sources_all (files : List Path) : ∀ {index : Nat},
    (∀ i < files.length, ∃ bytes, readFile (reread (index + i)) = .ok bytes) →
    (sources reread index files).map Prod.fst = files := by
  induction files with
  | nil => exact fun _ => rfl
  | cons file files ih =>
    intro index h
    obtain ⟨bytes, hread⟩ := h 0 (Nat.succ_pos _)
    rw [Nat.add_zero] at hread
    rw [sources, hread, List.map_cons, ih]
    intro i hi
    obtain ⟨more, hmore⟩ := h (i + 1) (Nat.succ_lt_succ hi)
    exact ⟨more, by rwa [Nat.add_right_comm]⟩

end Sources

theorem Static.readFile {data bytes : Bytes} {input : IfstreamAnswers} (h : Static data input)
    (hok : Core.readFile input = .ok bytes) : bytes = data := by
  unfold Core.readFile at hok
  by_cases hopens : (!input.opens) = true
  · rw [if_pos hopens] at hok
    cases hok
  rw [if_neg hopens] at hok
  cases hposition : input.endPosition with
  | none =>
    rw [hposition] at hok
    cases hok
  | some position =>
    rw [hposition] at hok
    obtain rfl := h.size position hposition
    dsimp only at hok
    split_ifs at hok with hlarge hrewinds hlength
    cases hbehind : input.behind with
    | octet =>
      rw [hbehind] at hok
      cases hok
    | failure =>
      rw [hbehind] at hok
      cases hok
    | endOfFile =>
      rw [hbehind] at hok
      obtain rfl := Except.ok.inj hok
      rw [not_not, Int.toNat_natCast] at hlength
      rw [Int.toNat_natCast]
      exact ((List.take_prefix _ _).trans h.content).eq_of_length hlength

/-! ## The whole capture -/

section Capture
variable {disk : Disk} {root : Loc} {moduleName : Bytes} {answers : ConfigurationAnswers} {path : Path} {data : Bytes}
  (h : Observes disk root moduleName answers)
include h

/-- What a round finds is a file of the configuration. -/
theorem Observes.defining_file {steps : List ConfigStep} {step : ConfigStep} (hiterator : answers.iterator = .ok steps)
    (hstep : step ∈ steps) (hdefining : defining moduleName step = true) :
    ∃ data, FileAt disk root step.path data ∧ DefinesSection moduleName data := by
  obtain ⟨loc, hloc, hvisits⟩ := h.iterator steps hiterator
  obtain ⟨names, node, hne, hpath, hnode, hstatus, hstatic⟩ := hvisits.there step hstep
  obtain ⟨hregular, bytes, hread, hdefines⟩ := (defining_iff step).mp hdefining
  have hkind := hstatus _ hregular
  cases node with
  | file mode data =>
    obtain rfl := (hstatic mode data rfl).readFile hread
    exact ⟨bytes, hpath ▸ .below hloc hne hnode, hdefines⟩
  | dir mode => cases hkind
  | link target => cases hkind
  | special mode => cases hkind

/-- A file that is found is a file of the configuration and defines the module. -/
theorem Observes.found (hpath : path ∈ (configurationFound (rootPath root) moduleName answers).1) :
    ∃ data, FileAt disk root path data ∧ DefinesSection moduleName data := by
  rcases configurationFound_cases (rootPath root) moduleName answers with ⟨bytes, hstatus, hread, heq⟩ | heq | ⟨steps, -, hiterator, heq⟩
  · rw [heq] at hpath
    obtain ⟨node, hnode, hkind⟩ := h.master.resolve_left (by rw [hstatus]; decide)
    rw [hstatus] at hkind
    split_ifs at hpath with hdefines
    · rw [List.mem_singleton.mp hpath]
      cases node with
      | file mode data =>
        obtain rfl := (h.masterFile mode data hnode).readFile hread
        exact ⟨bytes, .master hnode, (definesModule_iff _ _).mp hdefines⟩
      | dir mode => cases hkind
      | link target => cases hkind
      | special mode => cases hkind
    · exact absurd hpath List.not_mem_nil
  · rw [heq] at hpath
    exact absurd hpath List.not_mem_nil
  · rw [heq, (answers.sorting _ _).perm.mem_iff] at hpath
    obtain ⟨step, hstep, rfl⟩ := List.mem_map.mp ((stepsFound_sublist steps).subset hpath)
    obtain ⟨hmem, hdefining⟩ := List.mem_filter.mp hstep
    exact h.defining_file hiterator hmem hdefining

variable (hroot : disk.fs.IsDir root)
include hroot

/-- The files found are in increasing order. -/
theorem Observes.increasing : (configurationFound (rootPath root) moduleName answers).1.Pairwise fun a b =>
    lexicallyRelative a (rootPath root) < lexicallyRelative b (rootPath root) := by
  have hfound : ∀ {path}, path ∈ (configurationFound (rootPath root) moduleName answers).1 →
      ∃ data, FileAt disk root path data ∧ DefinesSection moduleName data := h.found
  rcases configurationFound_cases (rootPath root) moduleName answers with ⟨bytes, -, -, heq⟩ | heq | ⟨steps, -, hiterator, heq⟩
  · rw [heq]
    split_ifs
    · exact List.pairwise_singleton _ _
    · exact List.Pairwise.nil
  · rw [heq]
    exact List.Pairwise.nil
  · obtain ⟨loc, hloc, hvisits⟩ := h.iterator steps hiterator
    have hsorting := answers.sorting (rootPath root) (stepsFound (rootPath root) moduleName steps).1
    have hnodup : (stepsFound (rootPath root) moduleName steps).1.Nodup :=
      (hvisits.once.sublist (List.filter_sublist.map ConfigStep.path)).sublist (stepsFound_sublist steps)
    rw [heq] at hfound ⊢
    refine (hsorting.sorted.and (hsorting.perm.nodup_iff.mpr hnodup)).imp_of_mem ?_
    intro a b ha hb hle
    obtain ⟨data, hfile, -⟩ := hfound ha
    obtain ⟨data', hfile', -⟩ := hfound hb
    exact lt_of_le_of_ne hle.1 fun hsame => hle.2 (hfile.relative_inj hroot hfile' hsame)

/-- Where nothing is reported, a configuration file that defines the module is found or overlooked. -/
theorem Observes.finds (hnone : (configurationFound (rootPath root) moduleName answers).2 = [])
    (hfile : ConfigFile disk root path data) (hdefines : DefinesSection moduleName data) :
    path ∈ (configurationFound (rootPath root) moduleName answers).1 ∨
      (answers.masterStatus = .other ∧ ∃ mode, disk.fs.node (masterLoc root) = some (.file mode data)) := by
  obtain ⟨hat, halone⟩ := hfile
  -- a regular `mods.conf` is the only file
  have honly : ∀ {mode : Nat} {master : Bytes}, disk.fs.node (masterLoc root) = some (.file mode master) →
      path = masterPath root ∧ data = master := by
    intro mode master hmaster
    have hpath := halone ⟨mode, master, hmaster⟩
    refine ⟨hpath, ?_⟩
    cases hat with
    | master hnode =>
      rw [hmaster] at hnode
      cases hnode
      rfl
    | @below loc names mode' data hloc hne hnode =>
      have hnames : ∀ name ∈ names, PlainName name := fun name hname => .of_valid (FileSystem.valid_of_node
        (by rw [hnode]; exact Option.some_ne_none _) name (List.mem_append_right _ hname))
      exact absurd hpath (objectPath_ne_masterPath hroot hnames hne)
  unfold configurationFound at hnone ⊢
  dsimp only at hnone ⊢
  cases hstatus : answers.masterStatus with
  | regular =>
    left
    obtain ⟨node, hnode, hkind⟩ := h.master.resolve_left (by rw [hstatus]; decide)
    rw [hstatus] at hkind hnone
    dsimp only at hnone ⊢
    cases node with
    | file mode master =>
      obtain ⟨rfl, rfl⟩ := honly hnode
      unfold fileFound at hnone ⊢
      cases hread : readFile answers.masterFile with
      | error message =>
        rw [hread] at hnone
        cases hnone
      | ok bytes =>
        obtain rfl := (h.masterFile mode data hnode).readFile hread
        dsimp only
        rw [if_pos ((definesModule_iff _ _).mpr hdefines)]
        exact List.mem_singleton_self _
    | dir mode => cases hkind
    | link target => cases hkind
    | special mode => cases hkind
  | symlink =>
    rw [hstatus] at hnone
    cases hnone
  | other =>
    rw [hstatus] at hnone
    dsimp only at hnone ⊢
    cases hiterator : answers.iterator with
    | error detail =>
      rw [hiterator] at hnone
      cases hnone
    | ok steps =>
      rw [hiterator] at hnone
      dsimp only at hnone ⊢
      cases hat with
      | @master mode data hnode => exact .inr ⟨rfl, mode, hnode⟩
      | @below loc names mode data hloc hne hnode =>
        left
        have hquiet := (stepsFound_snd steps).mp hnone
        obtain ⟨loc', hloc', hvisits⟩ := h.iterator steps hiterator
        obtain rfl := Except.ok.inj (hloc.symm.trans hloc')
        have hthere : disk.fs.node (loc ++ names) ≠ none := by rw [hnode]; exact Option.some_ne_none _
        obtain ⟨step, hstep, hpath⟩ := hvisits.all (fun step hstep => (hquiet step hstep).1) names hne hthere
        obtain ⟨names', node, hne', hpath', hnode', hkind, hstatic⟩ := hvisits.there step hstep
        have hplain : ∀ {l : List Name}, disk.fs.node (loc ++ l) ≠ none → ∀ name ∈ l, PlainName name :=
          fun hl name hname => .of_valid (FileSystem.valid_of_node hl name (List.mem_append_right _ hname))
        obtain rfl := objectPath_inj_mods hroot (hplain hthere) hne
          (hplain (by rw [hnode']; exact Option.some_ne_none _)) hne' (hpath.symm.trans hpath')
        obtain rfl := Option.some.inj (hnode.symm.trans hnode')
        obtain ⟨-, kind, hok, -, hreads⟩ := hquiet step hstep
        obtain rfl := hkind kind hok
        obtain ⟨bytes, hread⟩ := hreads rfl
        obtain rfl := (hstatic mode data rfl).readFile hread
        rw [(answers.sorting _ _).perm.mem_iff, stepsFound_quiet steps hquiet, ← hpath]
        exact List.mem_map_of_mem (List.mem_filter.mpr ⟨hstep, (defining_iff step).mpr ⟨hok, bytes, hread, hdefines⟩⟩)

end Capture

/-! ## When it is complete or flagged -/

section Iff
variable {disk : Disk} {root : Loc} {moduleName : Bytes} {answers : ConfigurationAnswers}

/-- Behind the status of `mods.conf` nothing is reported exactly where nothing fails. -/
theorem unreported_iff {root : Bytes} (hstatus : answers.masterStatus = .other) :
    ((configurationFound root moduleName answers).2 = [] ∧
      ∀ i < (configurationFound root moduleName answers).1.length, ∃ bytes, readFile (answers.reread i) = .ok bytes) ↔
    ∃ steps, answers.iterator = .ok steps ∧ (∀ step ∈ steps, Quiet step) ∧
      ∀ index < (steps.filter (defining moduleName)).length, ∃ bytes, readFile (answers.reread index) = .ok bytes := by
  unfold configurationFound
  dsimp only
  rw [hstatus]
  dsimp only
  cases hiterator : answers.iterator with
  | error detail => exact iff_of_false (fun h => List.cons_ne_nil _ _ h.1) (fun h => by obtain ⟨_, hsteps, -⟩ := h; cases hsteps)
  | ok steps =>
    dsimp only
    rw [stepsFound_snd]
    have hlength : (∀ step ∈ steps, Quiet step) →
        (answers.sort root (stepsFound root moduleName steps).1).length = (steps.filter (defining moduleName)).length := by
      intro hquiet
      rw [(answers.sorting root _).perm.length_eq, stepsFound_quiet steps hquiet, List.length_map]
    constructor
    · intro h
      exact ⟨steps, rfl, h.1, hlength h.1 ▸ h.2⟩
    · intro h
      obtain ⟨steps', hsteps, hquiet, hreread⟩ := h
      obtain rfl := Except.ok.inj hsteps
      exact ⟨hquiet, (hlength hquiet).symm ▸ hreread⟩

theorem find_path (root : Bytes) (ordinal : Nat) (source : Path × Bytes) :
    (sourceRecord root ordinal source).2.find (ascii "path") = some (byteValueJson (lexicallyRelative source.1 root)) := by
  have hnodup : ((configSourceFields root ordinal source.1 source.2).map Prod.fst).Nodup := by
    show [ascii "ordinal", ascii "path", ascii "raw"].Nodup
    decide
  exact (find_fieldsOf hnodup).mpr (List.mem_cons_of_mem _ List.mem_cons_self)

variable (h : Observes disk root moduleName answers) (hroot : disk.fs.IsDir root)
include h hroot

theorem completeOrFlagged_of_not_overlooked (hnot : ¬ Overlooked disk root moduleName answers) :
    CompleteOrFlagged disk root moduleName
      ((configurationEmissions (rootPath root) moduleName answers).map Emission.written) := by
  have hsublist := @sources_sublist answers.reread (configurationFound (rootPath root) moduleName answers).1 0
  refine ⟨sources answers.reread 0 (configurationFound (rootPath root) moduleName answers).1,
    sourceRecords_configurationEmissions answers, ?_, ?_, ?_⟩
  · have hpaths := (h.increasing hroot).sublist hsublist
    rwa [List.pairwise_map] at hpaths
  · intro source hsource
    obtain ⟨i, hfile, hread⟩ := mem_sources _ hsource
    rw [Nat.zero_add] at hread
    obtain ⟨data, hat, hdefines⟩ := h.found (List.mem_of_getElem? hfile)
    rw [(h.reread i source.1 data hfile hat).readFile hread]
    exact ⟨hat, hdefines⟩
  · intro path data hfile hdefines
    by_cases herror : ∃ record ∈ (configurationEmissions (rootPath root) moduleName answers).map Emission.written,
        IsErrorRecord record
    · exact .inr herror
    left
    rw [error_configurationEmissions, not_or, not_not] at herror
    obtain ⟨hnone, hreads⟩ := herror
    have hall : ∀ i < (configurationFound (rootPath root) moduleName answers).1.length,
        ∃ bytes, readFile (answers.reread i) = .ok bytes := by
      intro i hi
      by_contra hfails
      exact hreads ⟨i, hi, not_exists.mp hfails⟩
    rcases h.finds hroot hnone hfile hdefines with hmem | ⟨hstatus, mode, hnode⟩
    · have hpaths := @sources_all answers.reread (configurationFound (rootPath root) moduleName answers).1 0
        (by simpa using hall)
      rw [← hpaths] at hmem
      obtain ⟨source, hsource, rfl⟩ := List.mem_map.mp hmem
      exact ⟨source, hsource, rfl⟩
    · exact absurd ⟨⟨mode, data, hnode, hdefines⟩, hstatus, (unreported_iff hstatus).mp ⟨hnone, hall⟩⟩ hnot

theorem not_completeOrFlagged_of_overlooked (hover : Overlooked disk root moduleName answers) :
    ¬ CompleteOrFlagged disk root moduleName
      ((configurationEmissions (rootPath root) moduleName answers).map Emission.written) := by
  intro hcomplete
  obtain ⟨captured, hrecords, -, hfiles, hall⟩ := hcomplete
  obtain ⟨mode, data, hnode, hdefines⟩ := hover.master
  obtain ⟨hnone, hreads⟩ := (@unreported_iff _ answers (rootPath root) hover.status).mpr hover.quiet
  rcases hall (masterPath root) data ⟨.master hnode, fun _ => rfl⟩ hdefines with ⟨source, hsource, hpath⟩ | herror
  · -- the record names a file of a round, and that is not `mods.conf`
    rw [sourceRecords_configurationEmissions] at hrecords
    obtain ⟨i, hi⟩ := List.mem_iff_getElem?.mp hsource
    have hrecord := congrArg (fun records => records[i]?) hrecords
    rw [List.getElem?_mapIdx, List.getElem?_mapIdx, hi, Option.map_some] at hrecord
    obtain ⟨actual, hactual, hsame⟩ := Option.map_eq_some_iff.mp hrecord
    have hrelative := congrArg (fun record => record.2.find (ascii "path")) hsame
    rw [find_path, find_path, Option.some.injEq] at hrelative
    obtain ⟨k, hfile, -⟩ := mem_sources _ (List.mem_of_getElem? hactual)
    have hmem := List.mem_of_getElem? hfile
    obtain ⟨data', hat, -⟩ := h.found hmem
    have hmaster := hat.relative_inj hroot (hfiles source hsource).1 (byteValueJson_inj hrelative)
    rcases configurationFound_cases (rootPath root) moduleName answers with ⟨_, hstatus, -⟩ | heq | ⟨steps, -, hiterator, heq⟩
    · rw [hover.status] at hstatus
      cases hstatus
    · rw [heq] at hmem
      exact absurd hmem List.not_mem_nil
    · rw [heq, (answers.sorting _ _).perm.mem_iff] at hmem
      obtain ⟨step, hstep, hstepPath⟩ := List.mem_map.mp ((stepsFound_sublist steps).subset hmem)
      obtain ⟨loc, hloc, hvisits⟩ := h.iterator steps hiterator
      obtain ⟨names, node, hne, hobject, hthere, -⟩ := hvisits.there step (List.mem_filter.mp hstep).1
      have hplain : ∀ name ∈ names, PlainName name := fun name hname => .of_valid (FileSystem.valid_of_node
        (by rw [hthere]; exact Option.some_ne_none _) name (List.mem_append_right _ hname))
      refine objectPath_ne_masterPath hroot hplain hne ?_
      rw [← hobject, hstepPath, hmaster, hpath]
  · rw [error_configurationEmissions] at herror
    rcases herror with hne | ⟨i, hi, hfails⟩
    · exact hne hnone
    · obtain ⟨bytes, hread⟩ := hreads i hi
      exact hfails bytes hread

end Iff

/-- The run ends, and what it has written is complete or flagged. -/
def CapturesConfiguration (disk : Disk) (root : Loc) (moduleName : Bytes) (answers : ConfigurationAnswers)
    (s : Extraction) : Prop :=
  ∃ t records, captureConfiguration (rootPath root) moduleName noFaults answers s = .ok () t ∧
    s.session.Ran t.session records ∧ CompleteOrFlagged disk root moduleName records

theorem not_captures_of_overlooked {disk : Disk} {root : Loc} {moduleName : Bytes} {answers : ConfigurationAnswers}
    {s : Extraction} (hs : s.session.Open) (hroot : disk.fs.IsDir root) (h : Observes disk root moduleName answers)
    (hover : Overlooked disk root moduleName answers) : ¬ CapturesConfiguration disk root moduleName answers s := by
  intro hcaptures
  obtain ⟨t, hrun, hran⟩ := @captureConfiguration_noFaults (rootPath root) moduleName s hs answers
  obtain ⟨t', records, hrun', hran', hcomplete⟩ := hcaptures
  rw [hrun] at hrun'
  cases hrun'
  have hsame := List.append_cancel_left (hran.session.emitted.symm.trans hran'.emitted)
  rw [← hsame] at hcomplete
  exact not_completeOrFlagged_of_overlooked h hroot hover hcomplete

/-- Over a root that stays as it is the configuration is captured or an error reported, whatever calls fail,
unless only the status of a defining `mods.conf` cannot be read. -/
theorem configuration_capture_iff {disk : Disk} {root : Loc} {moduleName : Bytes} {answers : ConfigurationAnswers}
    {s : Extraction} (hs : s.session.Open) (hroot : disk.fs.IsDir root) (h : Observes disk root moduleName answers) :
    CapturesConfiguration disk root moduleName answers s ↔ ¬ Overlooked disk root moduleName answers := by
  refine ⟨fun hcaptures hover => not_captures_of_overlooked hs hroot h hover hcaptures, fun hnot => ?_⟩
  obtain ⟨t, hrun, hran⟩ := @captureConfiguration_noFaults (rootPath root) moduleName s hs answers
  exact ⟨t, _, hrun, hran.session, completeOrFlagged_of_not_overlooked h hroot hnot⟩

/-! ## One file -/

/-- A stream on a file, without an error. -/
def readable (data : Bytes) : IfstreamAnswers where
  opens := true
  endPosition := some data.length
  rewinds := true
  content := data
  behind := .endOfFile

/-- The answers where only the status of `mods.conf` is as given. -/
def masterAnswers (status : FileKind) : ConfigurationAnswers where
  masterStatus := status
  masterFile := readable (ascii "[KJV]")
  iterator := .ok []
  sort root files := files.mergeSort fun a b => decide (lexicallyRelative a root ≤ lexicallyRelative b root)
  sorting root files := sorting_mergeSort (fun path => lexicallyRelative path root) files
  reread _ := readable (ascii "[KJV]")

theorem masterTree_isDir : (openDisk masterTree).fs.IsDir [] := by decide

theorem static_readable (data : Bytes) : Static data (readable data) where
  size := fun _ h => (Option.some.inj h).symm
  content := List.prefix_rfl

theorem masterTree_empty {names : List Name} (hne : names ≠ []) :
    (openDisk masterTree).fs.node ([ascii "mods.d"] ++ names) = none := by
  obtain ⟨name, rest, rfl⟩ := List.exists_cons_of_ne_nil hne
  unfold openDisk masterTree FileSystem.insert
  dsimp only
  rw [FileSystem.setNode_of_ne _ (by simp), FileSystem.setNode_of_ne _ (by simp)]
  unfold FileSystem.bare
  dsimp only
  rw [if_neg (by simp)]

theorem masterTree_observes {status : FileKind} (hstatus : status = .other ∨ status = .regular) :
    Observes (openDisk masterTree) [] (ascii "KJV") (masterAnswers status) := by
  have hnode : (openDisk masterTree).fs.node (masterLoc []) = some (.file 0o644 (ascii "[KJV]")) := by decide
  have hstatic : ∀ {mode : Nat} {data : Bytes}, (openDisk masterTree).fs.node (masterLoc []) = some (.file mode data) →
      Static data (readable (ascii "[KJV]")) := by
    intro mode data hfile
    rw [hnode] at hfile
    cases hfile
    exact static_readable _
  have hloc : (openDisk masterTree).canonical (modsPath []) = .ok [ascii "mods.d"] := by decide +kernel
  refine ⟨?_, fun mode data hfile => hstatic hfile, ?_, ?_⟩
  · rcases hstatus with rfl | rfl
    · exact .inl rfl
    · exact .inr ⟨_, hnode, rfl⟩
  · intro steps hsteps
    obtain rfl := Except.ok.inj hsteps
    refine ⟨_, hloc, List.nodup_nil, fun step hstep => absurd hstep List.not_mem_nil, ?_⟩
    exact fun _ names hne hthere => absurd (masterTree_empty hne) hthere
  · intro index path data _ hat
    cases hat with
    | master hfile => exact hstatic hfile
    | below hloc' hne hfile =>
      obtain rfl := Except.ok.inj (hloc.symm.trans hloc')
      rw [masterTree_empty hne] at hfile
      cases hfile

theorem configuration_capture_iff_masterTree :
    CapturesConfiguration (openDisk masterTree) [] (ascii "KJV") (masterAnswers .regular) (Extraction.start openStream) := by
  refine (configuration_capture_iff openStream_open masterTree_isDir (masterTree_observes (.inr rfl))).mpr ?_
  intro hover
  cases hover.status

/-- The status of `mods.conf` cannot be read, and `mods.d` is empty. -/
theorem unreadStatus_not_captured :
    ¬ CapturesConfiguration (openDisk masterTree) [] (ascii "KJV") (masterAnswers .other) (Extraction.start openStream) := by
  apply not_captures_of_overlooked openStream_open masterTree_isDir (masterTree_observes (.inl rfl))
  refine ⟨⟨0o644, ascii "[KJV]", by decide, ?_⟩, rfl, [], rfl, fun step hstep => absurd hstep List.not_mem_nil, ?_⟩
  · exact (definesModule_iff _ _).mp (by decide)
  · exact fun index hindex => absurd hindex (Nat.not_lt_zero index)

end GetBibleSword.Tool
