import GetBibleSword.Lib.Posix.Stage

/-!
# Calls that return

* `Env.Ordinary` : no call fails by itself, and a directory whose owner has all rights can be used;
* `Stage.Open` : the directories on the way to a place in the stage can be searched; `Around.locate_open`;
* `Stage.Owned` : the directories in the stage belong to the process; `owned_*` : calls leave it so;
* `returns_*` : calls that have all they need return.
-/

namespace GetBibleSword.Lib.Posix

/-- The bits of the owner. -/
def OwnerAll (mode : Nat) : Prop := mode &&& 0o700 = 0o700

instance (mode : Nat) : Decidable (OwnerAll mode) := inferInstanceAs (Decidable (_ = _))

structure Env.Ordinary (env : Env) : Prop where
  faults : ∀ n, env.faults n = none
  accepts : ∀ n, 0 < env.accepts n
  umask : env.process.umask &&& 0o700 = 0
  search : ∀ loc mode, OwnerAll mode → env.process.search loc mode = true
  modify : ∀ loc mode, OwnerAll mode → env.process.modify loc mode = true

theorem ownerAll_masked {env : Env} (h : env.Ordinary) {mode : Nat} (hmode : OwnerAll mode) :
    OwnerAll (masked env mode) := by
  apply Nat.eq_of_testBit_eq
  intro i
  have hbit : (mode &&& 0o700).testBit i = (0o700 : Nat).testBit i := by rw [hmode]
  have hmask : (env.process.umask &&& 0o700).testBit i = (0 : Nat).testBit i := by rw [h.umask]
  have hsub : ((0o700 : Nat) &&& 0o777).testBit i = (0o700 : Nat).testBit i := by rfl
  rw [masked]
  rw [Nat.testBit_and] at hbit hmask hsub
  rw [Nat.testBit_and, Nat.testBit_and, Nat.testBit_xor, Nat.testBit_and]
  rw [Nat.zero_testBit] at hmask
  revert hbit hmask hsub
  cases mode.testBit i <;> cases (0o700 : Nat).testBit i <;> cases (0o777 : Nat).testBit i <;>
    cases env.process.umask.testBit i <;> simp

section Returns
variable {ε σ α β : Type}

/-- The program returns. -/
def Returns (P : σ → Prop) (x : EStateM ε σ α) : Prop := Triple P x (fun _ _ => True) fun _ _ => False

theorem Returns.with {P : σ → Prop} {x : EStateM ε σ α} {Q : α → σ → Prop} {E : ε → σ → Prop} (h : Returns P x)
    (hspec : Triple P x Q E) : Triple P x Q fun _ _ => False :=
  (hspec.and h).conseq (fun _ hs => hs) (fun _ _ hs => hs.1) fun _ _ hs => hs.2

theorem Triple.returns {P : σ → Prop} {x : EStateM ε σ α} {Q : α → σ → Prop}
    (h : Triple P x Q fun _ _ => False) : Returns P x :=
  h.conseq (fun _ hs => hs) (fun _ _ _ => trivial) fun _ _ hs => hs

end Returns

namespace Stage
variable {env : Env} {stage : Stage env} {fs : FileSystem} {names : List Name} {k : Kernel}

/-! ## Places that can be reached -/

variable (stage) in
def Open (fs : FileSystem) (names : List Name) : Prop :=
  ∀ above, above <+: names → searched env.process fs (stage.loc ++ above) = none

theorem Open.mono {below : List Name} (h : stage.Open fs below) (hpre : names <+: below) : stage.Open fs names :=
  fun above habove => h above (habove.trans hpre)

theorem Open.isDir (h : stage.Open fs names) : fs.IsDir (stage.loc ++ names) := by
  obtain ⟨mode, hmode, -⟩ := searched_eq_none.mp (h names List.prefix_rfl)
  exact FileSystem.isDir_iff.mpr ⟨mode, hmode⟩

theorem Open.valid (h : stage.Open fs names) : ∀ name ∈ names, ValidName name := by
  obtain ⟨mode, hmode⟩ := FileSystem.isDir_iff.mp h.isDir
  have hthere : fs.node (stage.loc ++ names) ≠ none := by
    rw [hmode]
    exact Option.some_ne_none _
  exact fun name hname => FileSystem.valid_of_node hthere name (List.mem_append_right _ hname)

section Around
variable (haround : stage.Around fs) (hopen : stage.Open fs names)
include haround hopen

theorem Around.walk_open : walk env.process fs true maxLinks [] (stage.path ++ names) =
    .ok ⟨stage.loc ++ names, stage.via⟩ := by
  have hloc : ∀ q, stage.base ++ stage.name :: q = stage.loc ++ q := fun q => List.append_cons _ _ _
  obtain ⟨mode, hmode⟩ := FileSystem.isDir_iff.mp hopen.isDir
  have hlast : walk env.process fs true (maxLinks - stage.via.length) stage.base (stage.name :: names) =
      .ok ⟨stage.base ++ stage.name :: names, []⟩ := by
    apply walk_dirs
    · exact List.forall_mem_cons.mpr ⟨stage.named, hopen.valid⟩
    · intro q hq hne
      cases q with
      | nil =>
        rw [List.append_nil]
        exact haround.searchable
      | cons name q =>
        obtain ⟨rfl, hbelow⟩ := List.cons_prefix_cons.mp hq
        rw [hloc]
        exact hopen q hbelow
    · rw [hloc, hmode]
      exact Option.some_ne_none _
    · intro _ _ target hlink
      rw [hloc, hmode] at hlink
      cases hlink
  rw [haround.walk_path, hlast, hloc]
  dsimp only
  rw [List.append_nil]

theorem Around.exists_open : exists_ env fs (stage.path ++ names) = true := by
  rw [exists_, haround.walk_open hopen]

theorem Around.isDirectory_open : isDirectory env fs (stage.path ++ names) = true := by
  rw [isDirectory, haround.walk_open hopen]
  exact decide_eq_true hopen.isDir

theorem Around.locate_open {name : Name} (hname : ValidName name) :
    locate env.process fs (stage.path ++ (names ++ [name])) = .ok ⟨stage.loc ++ names, name, stage.via⟩ := by
  unfold locate
  rw [← List.append_assoc, List.getLast?_concat, List.dropLast_concat]
  dsimp only
  rw [if_pos hname, haround.walk_open hopen]
  dsimp only
  rw [hopen names List.prefix_rfl]

end Around

/-- Another name beside the stage. -/
theorem Around.locate_sibling {name : Name} (haround : stage.Around fs) (hname : ValidName name) :
    locate env.process fs (stage.parent ++ [name]) = .ok ⟨stage.base, name, stage.via⟩ := by
  unfold locate
  rw [List.getLast?_concat, List.dropLast_concat]
  dsimp only
  rw [if_pos hname, haround.walk_parent]
  dsimp only
  rw [haround.searchable]

/-- A place where nothing is is not found. -/
theorem Around.exists_absent (haround : stage.Around fs) (hvalid : ∀ name ∈ names, ValidName name)
    (hclear : stage.Clear fs names) (hnone : fs.node (stage.loc ++ names) = none) :
    exists_ env fs (stage.path ++ names) = false := by
  rw [exists_]
  cases hw : walk env.process fs true maxLinks [] (stage.path ++ names) with
  | error error => rfl
  | ok found =>
    have hroot : fs.node [] ≠ none := by
      obtain ⟨mode, hmode⟩ := fs.root
      rw [hmode]
      exact Option.some_ne_none _
    have hthere := (walk_found maxLinks hroot hw).1
    obtain rfl := haround.walk_below hvalid (fun above habove _ => hclear above habove) hw
    exact absurd hnone hthere

/-! ## Directories of the process -/

variable (stage) in
/-- Every directory in the stage grants its owner everything. -/
def Owned (fs : FileSystem) : Prop :=
  ∀ l mode, stage.loc <+: l → fs.node l = some (.dir mode) → OwnerAll mode

theorem Owned.of_eq {fs' : FileSystem} (h : stage.Owned fs) (heq : fs' = fs) : stage.Owned fs' := by
  rwa [heq]

theorem Owned.open (hordinary : env.Ordinary) (h : stage.Owned fs) (hdir : fs.IsDir (stage.loc ++ names)) :
    stage.Open fs names := by
  intro above habove
  obtain ⟨rest, rfl⟩ := habove
  have hthere : ∃ mode, fs.node (stage.loc ++ above) = some (.dir mode) := by
    obtain ⟨mode, hmode⟩ := FileSystem.isDir_iff.mp hdir
    by_cases hrest : rest = []
    · rw [hrest, List.append_nil] at hmode
      exact ⟨mode, hmode⟩
    · rw [← List.append_assoc] at hmode
      exact FileSystem.dir_of_below (by rw [hmode]; exact Option.some_ne_none _) hrest
  obtain ⟨mode, hmode⟩ := hthere
  exact searched_eq_none.mpr ⟨mode, hmode, hordinary.search _ _ (h _ _ (List.prefix_append _ _) hmode)⟩

theorem Owned.modifiable (hordinary : env.Ordinary) (h : stage.Owned fs) (hdir : fs.IsDir (stage.loc ++ names)) :
    modifiable env fs (stage.loc ++ names) = true := by
  obtain ⟨mode, hmode⟩ := FileSystem.isDir_iff.mp hdir
  rw [Posix.modifiable, hmode]
  exact hordinary.modify _ _ (h _ _ (List.prefix_append _ _) hmode)

theorem Owned.changed {effect : Effect} {new : Node} {k' : Kernel} (h : stage.Owned k.fs)
    (hchanged : k.Changed effect new k') (hnew : stage.loc <+: effect.loc → ∀ mode, new = .dir mode → OwnerAll mode) :
    stage.Owned k'.fs := by
  intro l mode hl hnode
  rw [hchanged.node] at hnode
  by_cases hsame : l = effect.loc
  · rw [hsame] at hl hnode
    rw [FileSystem.setNode_self] at hnode
    exact hnew hl mode (Option.some.inj hnode)
  · rw [FileSystem.setNode_of_ne new hsame] at hnode
    exact h l mode hl hnode

theorem owned_tick (call : Syscall) : Keeps (fun k => stage.Owned k.fs) (tick env call) fun _ => True := by
  intro k hk
  have htick := @triple_tick env call k k rfl
  cases hrun : tick env call k with
  | ok u k' =>
    rw [hrun] at htick
    exact ⟨trivial, hk.of_eq htick.fs⟩
  | error error k' =>
    rw [hrun] at htick
    exact hk.of_eq htick.fs

theorem owned_addEntry {call : Syscall} {deed : Deed} {path : List Name} {new : Node}
    (hnew : ∀ mode, new = .dir mode → OwnerAll mode) :
    Keeps (fun k => stage.Owned k.fs) (addEntry env call deed path new) fun _ => True := by
  intro k hk
  have hcall := @triple_addEntry env call deed path new k k rfl
  cases hrun : addEntry env call deed path new k with
  | ok u k' =>
    rw [hrun] at hcall
    obtain ⟨e, -, -, -, -, hchanged⟩ := hcall
    exact ⟨trivial, hk.changed hchanged fun _ => hnew⟩
  | error error k' =>
    rw [hrun] at hcall
    exact hk.of_eq hcall.fs

theorem owned_symlink (target : Bytes) (path : List Name) :
    Keeps (fun k => stage.Owned k.fs) (symlink env target path) fun _ => True := by
  unfold symlink
  by_cases htarget : target = []
  · rw [if_pos htarget]
    exact Keeps.throw _
  · rw [if_neg htarget]
    exact Keeps.bind (owned_addEntry fun mode hlink => by cases hlink) fun _ _ => Keeps.pure trivial

/-- A write leaves directories alone. -/
theorem owned_writeSome (loc : Loc) (data : Bytes) :
    Keeps (fun k => stage.Owned k.fs) (writeSome env loc data) fun _ => True := by
  intro k hk
  have hcall := @triple_writeSome env loc data k k rfl
  cases hrun : writeSome env loc data k with
  | ok count k' =>
    rw [hrun] at hcall
    obtain ⟨-, node, hnode, hchanged⟩ := hcall
    refine ⟨trivial, hk.changed hchanged fun hl mode hdir => hk loc mode hl ?_⟩
    rw [hnode]
    cases node with
    | dir _ => exact congrArg some hdir
    | file _ _ => cases hdir
    | link _ => cases hdir
    | special _ => cases hdir
  | error error k' =>
    rw [hrun] at hcall
    exact hk.of_eq hcall.fs

theorem owned_mkdir (hordinary : env.Ordinary) (path : List Name) {mode : Nat} (hmode : OwnerAll mode) :
    Keeps (fun k => stage.Owned k.fs) (mkdir env path mode) fun _ => True := by
  refine Keeps.bind (owned_addEntry fun m hm => ?_) fun _ _ => Keeps.pure trivial
  rw [← Node.dir.inj hm]
  exact ownerAll_masked hordinary hmode

theorem owned_makedirs (hordinary : env.Ordinary) (path : List Name) {mode : Nat} (hmode : OwnerAll mode) (existOk : Bool) :
    Keeps (fun k => stage.Owned k.fs) (makedirs env path mode existOk) fun _ => True :=
  keeps_makedirsOf (C := OwnerAll) (fun path _ hmode => owned_mkdir hordinary path hmode) (by decide) existOk _ hmode

/-! ## Calls that return -/

omit stage in
/-- An entry is made in a directory that can be changed. -/
theorem modifiable_addEntry (call : Syscall) (deed : Deed) (path : List Name) (new : Node) (k : Kernel) :
    Triple (fun s => s = k) (addEntry env call deed path new)
      (fun _ _ => ∃ e, locate env.process k.fs path = .ok e ∧ modifiable env k.fs e.dir = true) fun _ _ => True := by
  refine Triple.bind ((triple_tick call k).conseq (fun _ hs => hs) (fun _ _ hs => hs) fun _ _ _ => trivial) fun _ =>
    Triple.get fun s hstill => ?_
  rw [← hstill.fs]
  cases hlocate : locate env.process s.fs path with
  | error error => exact Triple.throw fun _ _ => trivial
  | ok e =>
    dsimp only
    by_cases hfresh : s.fs.node e.loc = none
    · rw [dif_pos hfresh]
      by_cases h : s.fs.IsDir e.dir ∧ ValidName e.name ∧ modifiable env s.fs e.dir = true
      · rw [dif_pos h]
        exact fun _ _ => ⟨e, rfl, h.2.2⟩
      · rw [dif_neg h]
        exact Triple.throw fun _ _ => trivial
    · rw [dif_neg hfresh]
      exact Triple.throw fun _ _ => trivial

section Ordinary
variable (hordinary : env.Ordinary)
include hordinary

omit stage in
theorem returns_tick (call : Syscall) (k : Kernel) : Triple (fun s => s = k) (tick env call) (fun _ => k.Still) fun _ _ => False := by
  intro s hs
  have htick := (@triple_tick env call k).and (@triple_tick_made env call k) s hs
  cases hrun : tick env call s with
  | ok u k' =>
    rw [hrun] at htick
    exact htick.1
  | error error k' =>
    rw [hrun] at htick
    have hfault := htick.2.1
    rw [hordinary.faults] at hfault
    cases hfault

omit stage in
theorem returns_ticked {α : Type} {call : Syscall} {x : Call α} (hx : ∀ k' : Kernel, k'.fs = k.fs → Returns (fun s => s = k') x) :
    Returns (fun s => s = k) (tick env call >>= fun _ => x) :=
  Triple.bind (returns_tick hordinary call k) fun _ s hs => hx s hs.fs s rfl

omit stage in
theorem returns_addEntry {call : Syscall} {deed : Deed} {path : List Name} {new : Node} {e : Entry}
    (hlocate : locate env.process k.fs path = .ok e) (hfresh : k.fs.node e.loc = none)
    (h : k.fs.IsDir e.dir ∧ ValidName e.name ∧ modifiable env k.fs e.dir = true) :
    Returns (fun s => s = k) (addEntry env call deed path new) := by
  refine returns_ticked hordinary fun k' hfs => Triple.get fun s hs => ?_
  subst hs
  rw [← hfs] at hlocate hfresh h
  rw [hlocate]
  dsimp only
  rw [dif_pos hfresh, dif_pos h]
  exact fun _ _ => trivial

omit stage in
omit hordinary in
theorem returns_changeNode {deed : Deed} {loc : Loc} {via : List Loc} {f : Node → Node}
    {hf : ∀ mode, ∃ mode', f (.dir mode) = .dir mode'} (hthere : k.fs.node loc ≠ none) :
    Returns (fun s => s = k) (changeNode deed loc via f hf) := by
  refine Triple.get fun s hs => ?_
  subst hs
  rw [dif_pos (Option.isSome_iff_ne_none.mpr hthere)]
  exact fun _ _ => trivial

omit stage in
theorem returns_changeMode {loc : Loc} {mode : Nat} (hthere : k.fs.node loc ≠ none) :
    Returns (fun s => s = k) (changeMode env loc mode) :=
  returns_ticked hordinary fun _ hfs => returns_changeNode (by rwa [hfs])

omit stage in
/-- A write makes progress. -/
theorem returns_writeSome {loc : Loc} {data : Bytes} (hthere : k.fs.node loc ≠ none) (hdata : data ≠ []) :
    Triple (fun s => s = k) (writeSome env loc data) (fun count _ => 0 < count) fun _ _ => False := by
  refine Triple.get fun s hs => ?_
  subst hs
  have hcount : 0 < min (env.accepts s.calls.length) data.length :=
    lt_min (hordinary.accepts _) (List.length_pos_of_ne_nil hdata)
  refine Triple.bind (returns_tick hordinary _ s) fun _ => Triple.each fun k' hstill => ?_
  exact Triple.bind (returns_changeNode (by rwa [hstill.fs])) fun _ => Triple.pure fun _ _ => hcount

omit stage in
/-- The mode of a directory is set. -/
theorem returns_chmod {path : List Name} {mode old : Nat} {e : Entry} (hlocate : locate env.process k.fs path = .ok e)
    (hdir : k.fs.node e.loc = some (.dir old)) : Returns (fun s => s = k) (chmod env path mode) := by
  refine returns_ticked hordinary fun k' hfs => Triple.get fun s hs => ?_
  subst hs
  rw [← hfs] at hlocate hdir
  rw [hlocate]
  dsimp only
  rw [hdir]
  exact returns_changeNode (by rw [hdir]; exact Option.some_ne_none _)

omit stage in
theorem returns_renameDirectory {old new : List Name} {source target : Entry}
    (hsource : locate env.process k.fs old = .ok source) (htarget : locate env.process k.fs new = .ok target)
    (hfree : k.fs.node target.loc = none)
    (h : k.fs.IsDir source.loc ∧ k.fs.IsDir target.dir ∧ ValidName target.name ∧ ¬ source.loc <+: target.dir ∧
      modifiable env k.fs source.dir = true ∧ modifiable env k.fs target.dir = true) :
    Returns (fun s => s = k) (renameDirectory env old new) := by
  refine returns_ticked hordinary fun k' hfs => Triple.get fun s hs => ?_
  subst hs
  rw [← hfs] at hsource htarget hfree h
  have hreplace : replaceable s.fs target.loc = none := by rw [replaceable, hfree]
  rw [hsource, htarget]
  dsimp only
  rw [hreplace]
  dsimp only
  rw [dif_pos h]
  exact fun _ _ => trivial

omit stage in
theorem returns_openDirectory {path : List Name} {found : Found}
    (hwalk : walk env.process k.fs true maxLinks [] path = .ok found) (hdir : k.fs.IsDir found.loc) :
    Returns (fun s => s = k) (openDirectory env path) := by
  refine returns_ticked hordinary fun k' hfs => Triple.get fun s hs => ?_
  subst hs
  rw [← hfs] at hwalk hdir
  rw [hwalk]
  dsimp only
  rw [if_pos hdir]
  exact Triple.pure fun _ _ => trivial

section Made
variable (haround : stage.Around k.fs) (howned : stage.Owned k.fs)
include haround howned

/-- A new entry below a directory. -/
theorem returns_entry {call : Syscall} {deed : Deed} {new : Node} {name : Name} (hname : ValidName name)
    (hdir : k.fs.IsDir (stage.loc ++ names)) (hnone : k.fs.node (stage.loc ++ (names ++ [name])) = none) :
    Returns (fun s => s = k) (addEntry env call deed (stage.path ++ (names ++ [name])) new) := by
  have hopen := howned.open hordinary hdir
  refine returns_addEntry hordinary (haround.locate_open hopen hname) ?_ ⟨hdir, hname, howned.modifiable hordinary hdir⟩
  rwa [Entry.loc, List.append_assoc]

theorem returns_makeDirectory {existOk : Bool} {mode : Nat} {name : Name} (hname : ValidName name)
    (hdir : k.fs.IsDir (stage.loc ++ names)) (hway : k.fs.node (stage.loc ++ (names ++ [name])) = none ∨
      existOk = true ∧ k.fs.IsDir (stage.loc ++ (names ++ [name]))) :
    Returns (fun s => s = k) (makedirsOf.makeDirectory env existOk mode (stage.path ++ (names ++ [name]))) := by
  rcases hway with hnone | ⟨hok, hthere⟩
  · refine Triple.tryCatch (E := fun _ _ => False) ?_ fun error s hs => hs.elim
    exact Triple.bind (returns_entry hordinary haround howned hname hdir hnone) fun _ => Triple.pure fun _ _ => trivial
  · refine Triple.tryCatch ((triple_mkdir _ mode k).conseq (fun _ hs => hs) (fun _ _ _ => trivial) fun _ _ h => h) fun error => ?_
    apply Triple.get
    intro k' hstill
    have hfound : isDirectory env k'.fs (stage.path ++ (names ++ [name])) = true := by
      rw [hstill.fs]
      exact haround.isDirectory_open (howned.open hordinary hthere)
    rw [if_pos ⟨hok, hfound⟩]
    exact Triple.pure fun _ _ => trivial

end Made

/-- The missing directories above a place are made where nothing else is in the way. -/
theorem returns_makedirsOf (existOk : Bool) (names : List Name) : ∀ {mode : Nat} {k : Kernel}, OwnerAll mode →
    stage.Around k.fs → stage.Owned k.fs → (∀ n ∈ names, ValidName n) →
    (∀ above, above <+: names → k.fs.node (stage.loc ++ above) = none ∨ k.fs.IsDir (stage.loc ++ above)) →
    (existOk = true ∨ k.fs.node (stage.loc ++ names) = none) →
    Returns (fun s => s = k) (makedirsOf env existOk mode (stage.path ++ names).reverse) := by
  induction names using List.reverseRecOn with
  | nil =>
    intro mode k _ haround _ _ _ hok
    have hthere : existOk = true := by
      refine hok.resolve_right fun hnone => ?_
      obtain ⟨m, hm⟩ := FileSystem.isDir_iff.mp haround.dir
      rw [List.append_nil, hm] at hnone
      cases hnone
    have hpath : (stage.path ++ []).reverse = stage.name :: stage.parent.reverse := by
      rw [List.append_nil, path, List.reverse_concat]
    rw [hpath, makedirsOf]
    apply Triple.get
    intro s hs
    subst hs
    rw [List.reverse_reverse, if_pos haround.exists_parent, List.reverse_cons, List.reverse_reverse]
    refine Triple.tryCatch ((triple_mkdir _ mode s).conseq (fun _ hs => hs) (fun _ _ _ => trivial) fun _ _ h => h) fun error => ?_
    apply Triple.get
    intro k' hstill
    have hfound : isDirectory env k'.fs stage.path = true := by
      rw [hstill.fs]
      exact haround.isDirectory_path
    rw [← path, if_pos ⟨hthere, hfound⟩]
    exact Triple.pure fun _ _ => trivial
  | append_singleton names name ih =>
    intro mode k hmode haround howned hvalid hway hok
    have hname : ValidName name := hvalid name (List.mem_append_right _ (List.mem_singleton_self _))
    have hfront : ∀ n ∈ names, ValidName n := fun n hn => hvalid n (List.mem_append_left _ hn)
    have hend : k.fs.node (stage.loc ++ (names ++ [name])) = none ∨
        existOk = true ∧ k.fs.IsDir (stage.loc ++ (names ++ [name])) := by
      rcases hway _ List.prefix_rfl with hnone | hdir
      · exact .inl hnone
      · refine .inr ⟨hok.resolve_right fun hnone => ?_, hdir⟩
        obtain ⟨m, hm⟩ := FileSystem.isDir_iff.mp hdir
        rw [hnone] at hm
        cases hm
    have hclear : stage.Clear k.fs names := by
      intro above habove target hlink
      rcases hway above (habove.trans (List.prefix_append _ _)) with hnone | hdir
      · rw [hnone] at hlink
        cases hlink
      · obtain ⟨m, hm⟩ := FileSystem.isDir_iff.mp hdir
        rw [hlink] at hm
        cases hm
    have hpath : (stage.path ++ (names ++ [name])).reverse = name :: (stage.path ++ names).reverse := by
      rw [← List.append_assoc, List.reverse_concat]
    have hback : (name :: (stage.path ++ names).reverse).reverse = stage.path ++ (names ++ [name]) := by
      rw [← hpath, List.reverse_reverse]
    rw [hpath, makedirsOf]
    apply Triple.get
    intro s hs
    subst hs
    rw [List.reverse_reverse, hback]
    rcases hway names (List.prefix_append _ _) with hnone | hdir
    · rw [if_neg (by rw [haround.exists_absent hfront hclear hnone]; exact Bool.false_ne_true)]
      have hhead := (ih (by decide) haround howned hfront (fun above habove => hway above (habove.trans (List.prefix_append _ _)))
        (.inr hnone) : Returns (fun t => t = s) (makedirsOf env existOk 0o777 (stage.path ++ names).reverse))
      have hown : Keeps (fun k => stage.Owned k.fs) (makedirsOf env existOk 0o777 (stage.path ++ names).reverse)
          fun _ => True := owned_makedirs hordinary (stage.path ++ names) (by decide) existOk
      have hmade := (hhead.with (triple_makedirsOf existOk names haround hfront hclear)).both hown.triple
      refine Triple.bind (Triple.tryCatch (hmade.conseq (fun t ht => ⟨ht, ht ▸ howned⟩) (fun _ _ h => h)
        fun _ _ h => (h.1 : False)) fun _ t ht => ht.elim) fun _ => Triple.each fun k' hk' => ?_
      obtain ⟨⟨hgrown, hdir, -⟩, -, howned'⟩ := hk'
      refine returns_makeDirectory hordinary (hgrown.around haround) howned' hname hdir ?_
      rcases hgrown.node (stage.loc ++ (names ++ [name])) with hsame | ⟨-, -, above, habove, heq⟩
      · rw [FileSystem.isDir_iff, hsame, ← FileSystem.isDir_iff]
        exact hend
      · rw [← List.append_cancel_left heq] at habove
        have hlength := habove.length_le
        rw [List.length_append, List.length_singleton] at hlength
        omega
    · rw [if_pos (haround.exists_open (howned.open hordinary hdir))]
      exact returns_makeDirectory hordinary haround howned hname hdir hend

end Ordinary

end Stage

end GetBibleSword.Lib.Posix
