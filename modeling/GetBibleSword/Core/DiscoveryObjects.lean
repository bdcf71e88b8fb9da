import GetBibleSword.Core.Discovery

/-!
# What the iteration for a DataPath delivers

The objects at or below a DataPath, or beside one that does not exist, and which of them an iteration
lists in some order of the directories' entries.

* `mem_enumerate`, `enumerate_complete`, `enumerate_error` : a recursive iteration in any order;
* `exists_toward` : the orders that go to one object first; `enumerate_toward`, `enumerate_stopped`;
* `DataObject`, `Reached` : what is there, and what no unreadable directory hides;
* `listing` : the paths delivered; `listing_sound`, `listing_complete`, `listing_reached`, `listing_stopped`.
-/

namespace GetBibleSword.Core
open GetBibleSword.Lib Posix FsPath

/-! ## Visiting names -/

section Visit
variable {step : Name → List Path × Option Errno} {name : Name} {names : List Name} {path : Path}

theorem visit_cons (step : Name → List Path × Option Errno) (name : Name) (names : List Name) :
    visit step (name :: names) =
      match (step name).2 with
      | some error => ((step name).1, some error)
      | none => ((step name).1 ++ (visit step names).1, (visit step names).2) := rfl

theorem mem_visit_head (h : path ∈ (step name).1) : path ∈ (visit step (name :: names)).1 := by
  rw [visit_cons]
  cases (step name).2 with
  | some error => exact h
  | none => exact List.mem_append_left _ h

theorem mem_visit (h : path ∈ (visit step names).1) : ∃ name ∈ names, path ∈ (step name).1 := by
  induction names with
  | nil => exact absurd h List.not_mem_nil
  | cons name names ih =>
    rw [visit_cons] at h
    cases hstep : (step name).2 with
    | some error =>
      rw [hstep] at h
      exact ⟨name, List.mem_cons_self, h⟩
    | none =>
      rw [hstep] at h
      rcases List.mem_append.mp h with h | h
      · exact ⟨name, List.mem_cons_self, h⟩
      · obtain ⟨other, hother, hmem⟩ := ih h
        exact ⟨other, List.mem_cons_of_mem _ hother, hmem⟩

/-- Where nothing fails every name has had its turn. -/
theorem visit_complete (h : (visit step names).2 = none) :
    ∀ name ∈ names, (step name).2 = none ∧ ∀ path ∈ (step name).1, path ∈ (visit step names).1 := by
  induction names with
  | nil => exact fun name hname => absurd hname List.not_mem_nil
  | cons first names ih =>
    rw [visit_cons] at h ⊢
    cases hstep : (step first).2 with
    | some error =>
      rw [hstep] at h
      cases h
    | none =>
      rw [hstep] at h
      intro name hname
      rcases List.mem_cons.mp hname with rfl | hname
      · exact ⟨hstep, fun path hpath => List.mem_append_left _ hpath⟩
      · obtain ⟨hnone, hall⟩ := ih h name hname
        exact ⟨hnone, fun path hpath => List.mem_append_right _ (hall path hpath)⟩

theorem visit_error {error : Errno} (h : (visit step names).2 = some error) :
    ∃ name ∈ names, (step name).2 = some error ∧ ∀ path ∈ (step name).1, path ∈ (visit step names).1 := by
  induction names with
  | nil => cases h
  | cons first names ih =>
    rw [visit_cons] at h ⊢
    cases hstep : (step first).2 with
    | some error' =>
      rw [hstep] at h
      exact ⟨first, List.mem_cons_self, hstep.trans h, fun path hpath => hpath⟩
    | none =>
      rw [hstep] at h
      obtain ⟨name, hname, hsome, hall⟩ := ih h
      exact ⟨name, List.mem_cons_of_mem _ hname, hsome, fun path hpath => List.mem_append_right _ (hall path hpath)⟩

end Visit

/-! ## A recursive iteration -/

/-- The path of what lies at these names below another. -/
def objectPath (base : Path) (names : List Name) : Path := names.foldl join base

theorem objectPath_cons (base : Path) (name : Name) (names : List Name) :
    objectPath base (name :: names) = objectPath (join base name) names := rfl

namespace Disk
variable {disk : Disk} {order : DirectoryOrder} {path : Path} {loc : Loc} {fuel : Nat}

/-- What one entry contributes. -/
def entryStep (disk : Disk) (order : DirectoryOrder) (fuel : Nat) (path : Path) (loc : Loc) (name : Name) :
    List Path × Option Errno :=
  if disk.fs.IsDir (loc ++ [name]) then
    match disk.unreadable (loc ++ [name]) with
    | some error => ([join path name], some error)
    | none =>
      (join path name :: (disk.enumerate order fuel (join path name) (loc ++ [name])).1,
        (disk.enumerate order fuel (join path name) (loc ++ [name])).2)
  else ([join path name], none)

theorem enumerate_succ (order : DirectoryOrder) (fuel : Nat) (path : Path) (loc : Loc) :
    disk.enumerate order (fuel + 1) path loc = visit (disk.entryStep order fuel path loc) (order loc) := rfl

theorem join_mem_entryStep (name : Name) : join path name ∈ (disk.entryStep order fuel path loc name).1 := by
  unfold entryStep
  split_ifs
  · cases disk.unreadable (loc ++ [name]) with
    | some error => exact List.mem_cons_self
    | none => exact List.mem_cons_self
  · exact List.mem_cons_self

/-- Nothing of what leads to the names is hidden. -/
def Reached (disk : Disk) (loc : Loc) (names : List Name) : Prop :=
  ∀ above, above <+: names → above ≠ names → disk.unreadable (loc ++ above) = none

theorem Reached.tail {name : Name} {names : List Name} (h : disk.Reached loc (name :: names)) :
    disk.Reached (loc ++ [name]) names := by
  intro above habove hne
  have hcons := h (name :: above) ((List.prefix_cons_inj name).mpr habove) fun heq => hne (List.cons.inj heq).2
  rwa [List.append_cons] at hcons

/-- What is listed is there, and nothing above it is hidden. -/
theorem mem_enumerate (horder : disk.Lists order) : ∀ {fuel : Nat} {path : Path} {loc : Loc} {found : Path},
    disk.unreadable loc = none → found ∈ (disk.enumerate order fuel path loc).1 →
    ∃ names, names ≠ [] ∧ found = objectPath path names ∧ disk.fs.node (loc ++ names) ≠ none ∧
      disk.Reached loc names := by
  intro fuel
  induction fuel with
  | zero => exact fun _ h => absurd h List.not_mem_nil
  | succ fuel ih =>
    intro path loc found hreadable h
    rw [enumerate_succ] at h
    obtain ⟨name, hname, hfound⟩ := mem_visit h
    have hthere := FileSystem.mem_entries.mp ((horder loc).mem_iff.mp hname)
    have hself : found = join path name →
        ∃ names, names ≠ [] ∧ found = objectPath path names ∧ disk.fs.node (loc ++ names) ≠ none ∧
          disk.Reached loc names := by
      intro heq
      refine ⟨[name], List.cons_ne_nil _ _, heq, hthere, ?_⟩
      intro above habove hne
      rcases List.prefix_cons_iff.mp habove with rfl | ⟨rest, rfl, hrest⟩
      · rwa [List.append_nil]
      · exact absurd (by rw [List.prefix_nil.mp hrest]) hne
    unfold entryStep at hfound
    split_ifs at hfound with hdir
    · cases hread : disk.unreadable (loc ++ [name]) with
      | some error =>
        rw [hread] at hfound
        exact hself (List.mem_singleton.mp hfound)
      | none =>
        rw [hread] at hfound
        rcases List.mem_cons.mp hfound with hfound | hfound
        · exact hself hfound
        · obtain ⟨names, hne, heq, hnode, hreached⟩ := ih hread hfound
          refine ⟨name :: names, List.cons_ne_nil _ _, heq, ?_, ?_⟩
          · rwa [List.append_cons]
          · intro above habove hne'
            rcases List.prefix_cons_iff.mp habove with rfl | ⟨rest, rfl, hrest⟩
            · rwa [List.append_nil]
            · rw [List.append_cons]
              exact hreached rest hrest fun heq' => hne' (by rw [heq'])
    · exact hself (List.mem_singleton.mp hfound)

/-- An iteration without an error lists everything. -/
theorem enumerate_complete (horder : disk.Lists order) : ∀ {fuel : Nat} {path : Path} {loc : Loc}
    {names : List Name}, names.length ≤ fuel → (disk.enumerate order fuel path loc).2 = none → names ≠ [] →
    disk.fs.node (loc ++ names) ≠ none → objectPath path names ∈ (disk.enumerate order fuel path loc).1 := by
  intro fuel
  induction fuel with
  | zero => exact fun hlength _ hne _ => absurd (List.length_eq_zero_iff.mp (Nat.le_zero.mp hlength)) hne
  | succ fuel ih =>
    intro path loc names hlength hnone hne hnode
    obtain ⟨name, rest, rfl⟩ := List.exists_cons_of_ne_nil hne
    rw [List.append_cons] at hnode
    have hentry : disk.fs.node (loc ++ [name]) ≠ none := FileSystem.node_above hnode (List.prefix_append _ _)
    have hmem := (horder loc).mem_iff.mpr (FileSystem.mem_entries.mpr hentry)
    rw [enumerate_succ] at hnone ⊢
    obtain ⟨hstep, hall⟩ := visit_complete hnone name hmem
    apply hall
    by_cases hrest : rest = []
    · subst hrest
      exact join_mem_entryStep name
    · have hdir := FileSystem.isDir_iff.mpr (FileSystem.dir_of_below hnode hrest)
      unfold entryStep at hstep ⊢
      rw [if_pos hdir] at hstep ⊢
      cases hread : disk.unreadable (loc ++ [name]) with
      | some error =>
        rw [hread] at hstep
        cases hstep
      | none =>
        rw [hread] at hstep
        apply List.mem_cons_of_mem
        rw [objectPath_cons]
        exact ih (Nat.le_of_succ_le_succ hlength) hstep hrest hnode

/-- An error is that of a directory, and the way to it is listed. -/
theorem enumerate_error : ∀ {fuel : Nat} {path : Path} {loc : Loc} {error : Errno},
    (disk.enumerate order fuel path loc).2 = some error →
    ∃ names, disk.fs.IsDir (loc ++ names) ∧ disk.unreadable (loc ++ names) = some error ∧
      ∀ above, above <+: names → above ≠ [] → objectPath path above ∈ (disk.enumerate order fuel path loc).1 := by
  intro fuel
  induction fuel with
  | zero => exact nofun
  | succ fuel ih =>
    intro path loc error h
    rw [enumerate_succ] at h ⊢
    obtain ⟨name, -, hstep, hall⟩ := visit_error h
    have hhead : objectPath path [name] ∈ (visit (disk.entryStep order fuel path loc) (order loc)).1 :=
      hall _ (join_mem_entryStep name)
    unfold entryStep at hstep
    split_ifs at hstep with hdir
    cases hread : disk.unreadable (loc ++ [name]) with
    | some error' =>
      rw [hread] at hstep
      refine ⟨[name], hdir, hread.trans hstep, ?_⟩
      intro above habove hne
      rcases List.prefix_cons_iff.mp habove with rfl | ⟨rest, rfl, hrest⟩
      · exact absurd rfl hne
      · rwa [List.prefix_nil.mp hrest]
    | none =>
      rw [hread] at hstep
      obtain ⟨names, hdir', hread', habove'⟩ := ih hstep
      refine ⟨name :: names, ?_, ?_, ?_⟩
      · rwa [List.append_cons]
      · rwa [List.append_cons]
      · intro above habove hne
        rcases List.prefix_cons_iff.mp habove with rfl | ⟨rest, rfl, hrest⟩
        · exact absurd rfl hne
        · by_cases hnil : rest = []
          · rwa [hnil]
          · apply hall
            unfold entryStep
            rw [if_pos hdir, hread]
            exact List.mem_cons_of_mem _ (habove' rest hrest hnil)

/-! ## The way to one object first -/

/-- An iteration may take the way to an object first. -/
theorem exists_toward (disk : Disk) {target : Loc} (hthere : disk.fs.node target ≠ none) :
    ∃ order, disk.Lists order ∧ ∀ loc name rest, target = loc ++ name :: rest → ∃ others, order loc = name :: others := by
  have hlocal : ∀ loc, ∃ names : List Name, names.Perm (disk.fs.entries loc) ∧
      ∀ name rest, target = loc ++ name :: rest → ∃ others, names = name :: others := by
    intro loc
    by_cases hbelow : ∃ name rest, target = loc ++ name :: rest
    · obtain ⟨name, rest, htarget⟩ := hbelow
      have hmem : name ∈ disk.fs.entries loc := by
        apply FileSystem.mem_entries.mpr
        apply FileSystem.node_above hthere
        exact ⟨rest, by rw [htarget, ← List.append_cons]⟩
      refine ⟨name :: (disk.fs.entries loc).erase name, (List.perm_cons_erase hmem).symm, ?_⟩
      intro name' rest' htarget'
      have hsame := (List.cons.inj (List.append_cancel_left (htarget.symm.trans htarget'))).1
      exact ⟨_, by rw [hsame]⟩
    · refine ⟨disk.fs.entries loc, List.Perm.refl _, ?_⟩
      intro name rest htarget
      exact absurd ⟨name, rest, htarget⟩ hbelow
  choose order hperm htoward using hlocal
  exact ⟨order, hperm, htoward⟩

/-- It is listed then, if nothing hides it. -/
theorem enumerate_toward : ∀ {names : List Name} {fuel : Nat} {path : Path} {loc : Loc},
    (∀ l name rest, loc ++ names = l ++ name :: rest → ∃ others, order l = name :: others) →
    names.length ≤ fuel → names ≠ [] → disk.fs.node (loc ++ names) ≠ none → disk.Reached loc names →
    objectPath path names ∈ (disk.enumerate order fuel path loc).1 := by
  intro names
  induction names with
  | nil => exact fun _ _ hne => absurd rfl hne
  | cons name rest ih =>
    intro fuel path loc htoward hlength _ hnode hreached
    obtain ⟨fuel, rfl⟩ := Nat.exists_eq_succ_of_ne_zero (Nat.ne_of_gt (Nat.lt_of_lt_of_le (Nat.succ_pos _) hlength))
    obtain ⟨others, hothers⟩ := htoward loc name rest rfl
    rw [enumerate_succ, hothers]
    apply mem_visit_head
    by_cases hrest : rest = []
    · subst hrest
      exact join_mem_entryStep name
    · rw [List.append_cons] at hnode htoward
      have hdir := FileSystem.isDir_iff.mpr (FileSystem.dir_of_below hnode hrest)
      have hread := hreached.tail [] List.nil_prefix (Ne.symm hrest)
      rw [List.append_nil] at hread
      unfold entryStep
      rw [if_pos hdir, hread]
      apply List.mem_cons_of_mem
      exact ih htoward (Nat.le_of_succ_le_succ hlength) hrest hnode hreached.tail

/-- And where it is a directory that cannot be read, the way to it is all that is listed. -/
theorem enumerate_stopped : ∀ {names : List Name} {fuel : Nat} {path : Path} {loc : Loc},
    (∀ l name rest, loc ++ names = l ++ name :: rest → ∃ others, order l = name :: others) →
    names ≠ [] → disk.fs.IsDir (loc ++ names) → disk.unreadable (loc ++ names) ≠ none → names.length ≤ fuel →
    (disk.enumerate order fuel path loc).2 ≠ none ∧
      ∀ found ∈ (disk.enumerate order fuel path loc).1, ∃ above, above ≠ [] ∧ above <+: names ∧
        found = objectPath path above := by
  intro names
  induction names with
  | nil => exact fun _ hne => absurd rfl hne
  | cons name rest ih =>
    intro fuel path loc htoward _ hdir hread hlength
    obtain ⟨fuel, rfl⟩ := Nat.exists_eq_succ_of_ne_zero (Nat.ne_of_gt (Nat.lt_of_lt_of_le (Nat.succ_pos _) hlength))
    obtain ⟨others, hothers⟩ := htoward loc name rest rfl
    rw [List.append_cons] at hdir hread htoward
    have hfirst : disk.fs.IsDir (loc ++ [name]) := by
      by_cases hrest : rest = []
      · rwa [hrest, List.append_nil] at hdir
      · obtain ⟨mode, hmode⟩ := FileSystem.isDir_iff.mp hdir
        have hnode : disk.fs.node (loc ++ [name] ++ rest) ≠ none := by
          rw [hmode]
          exact Option.some_ne_none _
        exact FileSystem.isDir_iff.mpr (FileSystem.dir_of_below hnode hrest)
    have hhead : ∃ above, above ≠ [] ∧ above <+: name :: rest ∧ join path name = objectPath path above :=
      ⟨[name], List.cons_ne_nil _ _, (List.prefix_cons_inj name).mpr List.nil_prefix, rfl⟩
    rw [enumerate_succ, hothers, visit_cons]
    unfold entryStep
    rw [if_pos hfirst]
    cases hhere : disk.unreadable (loc ++ [name]) with
    | some error =>
      refine ⟨Option.some_ne_none _, ?_⟩
      intro found hfound
      rwa [List.mem_singleton.mp hfound]
    | none =>
      have hrest : rest ≠ [] := by
        rintro rfl
        rw [List.append_nil, hhere] at hread
        exact hread rfl
      obtain ⟨herror, hway⟩ := @ih fuel (join path name) _ htoward hrest hdir hread (Nat.le_of_succ_le_succ hlength)
      obtain ⟨error, herror⟩ := Option.ne_none_iff_exists'.mp herror
      dsimp only
      rw [herror]
      refine ⟨Option.some_ne_none _, ?_⟩
      intro found hfound
      rcases List.mem_cons.mp hfound with rfl | hfound
      · exact hhead
      · obtain ⟨above, hne, habove, rfl⟩ := hway found hfound
        exact ⟨name :: above, List.cons_ne_nil _ _, (List.prefix_cons_inj name).mpr habove, rfl⟩

/-- A tree is no deeper than the number of its locations. -/
theorem length_le_support (disk : Disk) {names : List Name} (h : disk.fs.node (loc ++ names) ≠ none) :
    names.length ≤ disk.fs.support.length := by
  have hsub : (List.ofFn fun i : Fin names.length => loc ++ names.take (i + 1)) ⊆ disk.fs.support := by
    intro l hl
    obtain ⟨i, rfl⟩ := List.mem_ofFn.mp hl
    apply disk.fs.listed
    apply FileSystem.node_above h
    exact (List.prefix_append_right_inj loc).mpr (List.take_prefix _ _)
  have hnodup : (List.ofFn fun i : Fin names.length => loc ++ names.take (i + 1)).Nodup := by
    apply List.nodup_ofFn.mpr
    intro i j hij
    have hlength := congrArg List.length (List.append_cancel_left hij)
    rw [List.length_take, List.length_take] at hlength
    apply Fin.ext
    omega
  have hle := (hnodup.subperm hsub).length_le
  rwa [List.length_ofFn] at hle

end Disk

/-! ## The objects of a DataPath -/

/-- An object at or below a DataPath, or, where that does not exist, an entry beside it that starts with its
name: the path and the location of a directory or file, and the names from there. -/
inductive DataObject (disk : Disk) (data : Path) : Path → Loc → List Name → Prop where
  | atOrBelow {loc : Loc} {names : List Name} (hexists : disk.symlinkStatus data = some loc)
      (hthere : disk.fs.node (loc ++ names) ≠ none) : DataObject disk data data loc names
  | beside {found : Found} {name : Name} (hmissing : disk.symlinkStatus data = none)
      (hparent : walk disk.process disk.fs true maxLinks [] (components (cString (parentPath data))) = .ok found)
      (hthere : disk.fs.node (found.loc ++ [name]) ≠ none) (hname : (filename data).isPrefixOf name = true) :
      DataObject disk data (parentPath data) found.loc [name]

/-- A directory the iteration for a DataPath opens, unless it fails before. -/
def Opened (disk : Disk) (data : Path) (loc : Loc) (names : List Name) : Prop :=
  disk.fs.IsDir (loc ++ names) ∧ (disk.symlinkStatus data = none → names = [])

/-- The paths the iteration for a DataPath delivers. -/
def listing (disk : Disk) (order : DirectoryOrder) (data : Path) : List Path :=
  match disk.symlinkStatus data with
  | some loc => data :: if disk.fs.IsDir loc then (disk.recursiveDirectory order data).1 else []
  | none =>
    (disk.directoryIterator order (parentPath data)).1.filter fun path => (filename data).isPrefixOf (filename path)

/-- The role of what it delivers. -/
def dataRole (disk : Disk) (data : Path) : String :=
  match disk.symlinkStatus data with
  | some _ => "module_data"
  | none => "module_data_prefix"

section Listing
variable {disk : Disk} {order : DirectoryOrder} {root data dataPath base path : Path} {loc : Loc} {names : List Name}

theorem dataRole_ne (disk : Disk) (data : Path) : ascii (dataRole disk data) ≠ ascii "configuration" := by
  unfold dataRole
  cases disk.symlinkStatus data with
  | some loc =>
    show ascii "module_data" ≠ ascii "configuration"
    decide
  | none =>
    show ascii "module_data_prefix" ≠ ascii "configuration"
    decide

/-- A DataPath contributes what is listed. -/
theorem dataCandidates_fst (hne : dataPath ≠ []) (hdata : normalizeCandidate root dataPath = some data) :
    (dataCandidates (disk.discovery order) root dataPath).1 =
      (listing disk order data).map fun path => candidate root path (dataRole disk data) := by
  unfold dataCandidates listing dataRole
  have hstatus : (disk.discovery order).symlinkStatus data =
      (disk.symlinkStatus data).map fun loc => decide (disk.fs.IsDir loc) := rfl
  rw [if_neg hne, hdata]
  dsimp only
  rw [hstatus]
  cases disk.symlinkStatus data with
  | some loc =>
    show (existingData (disk.discovery order) root data (decide (disk.fs.IsDir loc))).1 =
      (data :: if disk.fs.IsDir loc then (disk.recursiveDirectory order data).1 else []).map
        fun path => candidate root path "module_data"
    unfold existingData
    by_cases hdir : disk.fs.IsDir loc
    · rw [if_pos (decide_eq_true hdir), if_pos hdir]
      rfl
    · rw [if_neg (by simpa using hdir), if_neg hdir]
      rfl
  | none => rfl

theorem symlinkStatus_eq_some (h : disk.symlinkStatus data = some loc) :
    ∃ found, walk disk.process disk.fs false maxLinks [] (components (cString data)) = .ok found ∧ found.loc = loc := by
  unfold Disk.symlinkStatus at h
  cases hwalk : walk disk.process disk.fs false maxLinks [] (components (cString data)) with
  | ok found =>
    rw [hwalk] at h
    exact ⟨found, rfl, Option.some.inj h⟩
  | error error =>
    rw [hwalk] at h
    cases h

/-- The directory a DataPath names is the one that is iterated. -/
theorem recursiveDirectory_of_exists (h : disk.symlinkStatus data = some loc) (hdir : disk.fs.IsDir loc) :
    disk.recursiveDirectory order data =
      match disk.unreadable loc with
      | some error => ([], some error)
      | none => disk.enumerate order disk.fs.support.length data loc := by
  obtain ⟨found, hwalk, rfl⟩ := symlinkStatus_eq_some h
  have hlink : ∀ target, disk.fs.node found.loc ≠ some (.link target) := by
    intro target hnode
    obtain ⟨mode, hmode⟩ := FileSystem.isDir_iff.mp hdir
    rw [hmode] at hnode
    cases hnode
  unfold Disk.recursiveDirectory Disk.directory
  rw [walk_follow maxLinks hwalk hlink]
  dsimp only
  rw [if_pos hdir]
  cases disk.unreadable found.loc with
  | some error => rfl
  | none => rfl

theorem listing_of_exists (h : disk.symlinkStatus data = some loc) :
    listing disk order data = data :: if disk.fs.IsDir loc then (disk.recursiveDirectory order data).1 else [] := by
  unfold listing
  rw [h]

theorem directoryIterator_of_walk {found : Found}
    (h : walk disk.process disk.fs true maxLinks [] (components (cString path)) = .ok found) (hdir : disk.fs.IsDir found.loc)
    (hread : disk.unreadable found.loc = none) :
    (disk.directoryIterator order path).1 = (order found.loc).map (join path) := by
  unfold Disk.directoryIterator Disk.directory
  rw [h]
  dsimp only
  rw [if_pos hdir, hread]

theorem listing_of_missing (h : disk.symlinkStatus data = none) :
    listing disk order data = (disk.directoryIterator order (parentPath data)).1.filter
      fun path => (filename data).isPrefixOf (filename path) := by
  unfold listing
  rw [h]

/-- The last component of an entry's path is its name. -/
theorem filename_join {name : Name} (hname : ValidName name) (path : Path) : filename (join path name) = name := by
  have hplain := PlainName.of_valid hname
  have hjoined : ∀ front : Path, filename (front ++ separator :: name) = name := by
    intro front
    unfold filename
    rw [components_append, components_name hplain, List.getLastD_concat]
  unfold join
  split_ifs with hcond hlast
  · unfold filename
    rw [components_name hplain]
    rfl
  · rw [← List.dropLast_append_getLast? separator hlast, List.append_assoc]
    exact hjoined _
  · exact hjoined path

/-- What is listed is an object, and nothing hides it. -/
theorem listing_sound (horder : disk.Lists order) (h : path ∈ listing disk order data) :
    ∃ base loc names, DataObject disk data base loc names ∧ disk.Reached loc names ∧ path = objectPath base names := by
  cases hstatus : disk.symlinkStatus data with
  | some loc =>
    rw [listing_of_exists hstatus] at h
    rcases List.mem_cons.mp h with rfl | h
    · obtain ⟨found, hwalk, rfl⟩ := symlinkStatus_eq_some hstatus
      obtain ⟨mode, hmode⟩ := disk.fs.root
      have hthere := (walk_found maxLinks (by rw [hmode]; exact Option.some_ne_none _) hwalk).1
      refine ⟨path, found.loc, [], .atOrBelow hstatus (by rwa [List.append_nil]), ?_, rfl⟩
      exact fun above habove hne => absurd (List.prefix_nil.mp habove) hne
    · split_ifs at h with hdir
      · rw [recursiveDirectory_of_exists hstatus hdir] at h
        cases hread : disk.unreadable loc with
        | some error =>
          rw [hread] at h
          exact absurd h List.not_mem_nil
        | none =>
          rw [hread] at h
          obtain ⟨names, -, heq, hthere, hreached⟩ := Disk.mem_enumerate horder hread h
          exact ⟨data, loc, names, .atOrBelow hstatus hthere, hreached, heq⟩
      · exact absurd h List.not_mem_nil
  | none =>
    rw [listing_of_missing hstatus] at h
    obtain ⟨hlisted, hpre⟩ := List.mem_filter.mp h
    unfold Disk.directoryIterator Disk.directory at hlisted
    cases hwalk : walk disk.process disk.fs true maxLinks [] (components (cString (parentPath data))) with
    | error error =>
      rw [hwalk] at hlisted
      exact absurd hlisted List.not_mem_nil
    | ok found =>
      rw [hwalk] at hlisted
      dsimp only at hlisted
      by_cases hdir : disk.fs.IsDir found.loc
      · rw [if_pos hdir] at hlisted
        cases hread : disk.unreadable found.loc with
        | some error =>
          rw [hread] at hlisted
          exact absurd hlisted List.not_mem_nil
        | none =>
          rw [hread] at hlisted
          obtain ⟨name, hname, rfl⟩ := List.mem_map.mp hlisted
          have hthere := FileSystem.mem_entries.mp ((horder _).mem_iff.mp hname)
          rw [filename_join (disk.fs.named _ _ hthere)] at hpre
          refine ⟨parentPath data, found.loc, [name], .beside hstatus hwalk hthere hpre, ?_, rfl⟩
          intro above habove hne
          rcases List.prefix_cons_iff.mp habove with rfl | ⟨rest, rfl, hrest⟩
          · rwa [List.append_nil]
          · exact absurd (by rw [List.prefix_nil.mp hrest]) hne
      · rw [if_neg hdir] at hlisted
        exact absurd hlisted List.not_mem_nil

/-- An object is listed, or the iteration may fail before it. -/
theorem listing_complete (horder : disk.Lists order) (h : DataObject disk data base loc names) :
    objectPath base names ∈ listing disk order data ∨
      ∃ below, Opened disk data loc below ∧ disk.unreadable (loc ++ below) ≠ none ∧ ¬ names <+: below := by
  cases h with
  | @atOrBelow loc names hexists hthere =>
    rw [listing_of_exists hexists]
    by_cases hne : names = []
    · left
      rw [hne]
      exact List.mem_cons_self
    have hdir := FileSystem.isDir_iff.mpr (FileSystem.dir_of_below hthere hne)
    have hopened : ∀ below, disk.fs.IsDir (loc ++ below) → Opened disk data loc below := by
      intro below hbelow
      refine ⟨hbelow, fun hmissing => ?_⟩
      rw [hexists] at hmissing
      cases hmissing
    rw [if_pos hdir, recursiveDirectory_of_exists hexists hdir]
    cases hread : disk.unreadable loc with
    | some error =>
      right
      refine ⟨[], hopened [] (by rwa [List.append_nil]), ?_, fun hpre => hne (List.prefix_nil.mp hpre)⟩
      rw [List.append_nil, hread]
      exact Option.some_ne_none _
    | none =>
      cases herror : (disk.enumerate order disk.fs.support.length data loc).2 with
      | none =>
        left
        apply List.mem_cons_of_mem
        exact Disk.enumerate_complete horder (Disk.length_le_support disk hthere) herror hne hthere
      | some error =>
        obtain ⟨below, hbelow, hunread, hway⟩ := Disk.enumerate_error herror
        by_cases hpre : names <+: below
        · left
          exact List.mem_cons_of_mem _ (hway names hpre hne)
        · right
          refine ⟨below, hopened below hbelow, ?_, hpre⟩
          rw [hunread]
          exact Option.some_ne_none _
  | @beside found name hmissing hparent hthere hname =>
    have hdir := FileSystem.isDir_iff.mpr (disk.fs.tree _ _ hthere)
    cases hread : disk.unreadable found.loc with
    | some error =>
      right
      refine ⟨[], ⟨by rwa [List.append_nil], fun _ => rfl⟩, ?_, fun hpre => ?_⟩
      · rw [List.append_nil, hread]
        exact Option.some_ne_none _
      · cases List.prefix_nil.mp hpre
    | none =>
      left
      rw [listing_of_missing hmissing, directoryIterator_of_walk hparent hdir hread]
      apply List.mem_filter.mpr
      refine ⟨List.mem_map.mpr ⟨name, (horder _).mem_iff.mpr (FileSystem.mem_entries.mpr hthere), rfl⟩, ?_⟩
      show (filename data).isPrefixOf (filename (join (parentPath data) name)) = true
      rwa [filename_join (disk.fs.named _ _ hthere)]

/-- What nothing hides is listed in some order. -/
theorem listing_reached (h : DataObject disk data base loc names) (hreached : disk.Reached loc names) :
    ∃ order, disk.Lists order ∧ objectPath base names ∈ listing disk order data := by
  cases h with
  | @atOrBelow loc names hexists hthere =>
    obtain ⟨order, horder, htoward⟩ := Disk.exists_toward disk hthere
    refine ⟨order, horder, ?_⟩
    rw [listing_of_exists hexists]
    by_cases hne : names = []
    · rw [hne]
      exact List.mem_cons_self
    have hdir := FileSystem.isDir_iff.mpr (FileSystem.dir_of_below hthere hne)
    have hread := hreached [] List.nil_prefix (Ne.symm hne)
    rw [List.append_nil] at hread
    rw [if_pos hdir, recursiveDirectory_of_exists hexists hdir, hread]
    apply List.mem_cons_of_mem
    exact Disk.enumerate_toward htoward (Disk.length_le_support disk hthere) hne hthere hreached
  | @beside found name hmissing hparent hthere hname =>
    obtain ⟨order, horder, -⟩ := Disk.exists_toward disk hthere
    refine ⟨order, horder, ?_⟩
    have hread := hreached [] List.nil_prefix (List.cons_ne_nil _ _).symm
    rw [List.append_nil] at hread
    rcases listing_complete horder (.beside hmissing hparent hthere hname) with hlisted | ⟨below, hopened, hunread, -⟩
    · exact hlisted
    · rw [hopened.2 hmissing, List.append_nil, hread] at hunread
      exact absurd rfl hunread

/-- A directory that cannot be read may be the first the iteration comes to. -/
theorem listing_stopped (h : DataObject disk data base loc names) {below : List Name}
    (hopened : Opened disk data loc below) (hread : disk.unreadable (loc ++ below) ≠ none) :
    ∃ order, disk.Lists order ∧
      ∀ path ∈ listing disk order data, ∃ above, above <+: below ∧ path = objectPath base above := by
  have hthere : disk.fs.node (loc ++ below) ≠ none := by
    obtain ⟨mode, hmode⟩ := FileSystem.isDir_iff.mp hopened.1
    rw [hmode]
    exact Option.some_ne_none _
  obtain ⟨order, horder, htoward⟩ := Disk.exists_toward disk hthere
  refine ⟨order, horder, ?_⟩
  cases h with
  | @atOrBelow loc names hexists _ =>
    rw [listing_of_exists hexists]
    intro path hpath
    rcases List.mem_cons.mp hpath with rfl | hpath
    · exact ⟨[], List.nil_prefix, rfl⟩
    split_ifs at hpath with hdir
    · rw [recursiveDirectory_of_exists hexists hdir] at hpath
      cases hhere : disk.unreadable loc with
      | some error =>
        rw [hhere] at hpath
        exact absurd hpath List.not_mem_nil
      | none =>
        rw [hhere] at hpath
        have hne : below ≠ [] := by
          rintro rfl
          rw [List.append_nil, hhere] at hread
          exact hread rfl
        obtain ⟨-, hway⟩ := @Disk.enumerate_stopped disk order below disk.fs.support.length data loc htoward hne
          hopened.1 hread (Disk.length_le_support disk hthere)
        obtain ⟨above, -, habove, heq⟩ := hway path hpath
        exact ⟨above, habove, heq⟩
    · exact absurd hpath List.not_mem_nil
  | @beside found name hmissing hparent hnode _ =>
    rw [hopened.2 hmissing, List.append_nil] at hread
    have hempty : listing disk order data = [] := by
      rw [listing_of_missing hmissing]
      unfold Disk.directoryIterator Disk.directory
      rw [hparent]
      dsimp only
      rw [if_pos (FileSystem.isDir_iff.mpr (disk.fs.tree _ _ hnode))]
      obtain ⟨error, herror⟩ := Option.ne_none_iff_exists'.mp hread
      rw [herror]
      rfl
    rw [hempty]
    exact fun path hpath => absurd hpath List.not_mem_nil

end Listing

end GetBibleSword.Core
