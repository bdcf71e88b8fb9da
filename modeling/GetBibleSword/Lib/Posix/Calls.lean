import GetBibleSword.Lib.Posix.Walk
import GetBibleSword.Lib.Program

/-!
# System calls

A call changes the tree and leaves a record of where the change took effect.

* `Kernel`, `Env` : the tree with the calls and their effects; the process, which calls fail, what a
  write takes;
* `addEntry` : the calls that make one new entry; `changeMode`, `writeSome` : those on an object;
* `renameDirectory`, `removeTree` : those on a subtree; `exists_`, `isDirectory` : the questions;
* `triple_*` : what a call has done when it returns, and that it has done nothing when it fails.
-/

namespace GetBibleSword.Lib.Posix

inductive Deed where
  | mkdir
  | create
  | symlink
  | write
  | chmod
  | rename
  | remove
deriving DecidableEq

/-- What was done, where it took effect, and the links followed to get there. -/
structure Effect where
  deed : Deed
  loc : Loc
  via : List Loc
deriving DecidableEq

/-- What was asked of the kernel. -/
inductive Syscall where
  | mkdir
  | open
  | symlink
  | write
  | fsync
  | fchmod
  | chmod
  | close
  | rename
  | remove
deriving DecidableEq

structure Kernel where
  fs : FileSystem
  /-- The calls that were made, whether they failed or not. -/
  calls : List Syscall
  effects : List Effect

structure Env where
  process : Process
  /-- Whether a call fails, by the number of calls before it. -/
  faults : Nat → Option Errno
  /-- How many octets a write takes at most. -/
  accepts : Nat → Nat

abbrev Call := EStateM Errno Kernel

section Calls
variable (env : Env)

/-- A call is made, which may fail. -/
def tick (call : Syscall) : Call Unit := do
  let k ← get
  set { k with calls := k.calls ++ [call] }
  match env.faults k.calls.length with
  | some error => throw error
  | none => pure ()

/-- The mode of a new object. -/
def masked (mode : Nat) : Nat := mode &&& (0o777 ^^^ (env.process.umask &&& 0o777))

/-- Whether entries of a directory can be changed. -/
def modifiable (fs : FileSystem) (loc : Loc) : Bool :=
  match fs.node loc with
  | some (.dir mode) => env.process.modify loc mode
  | _ => false

/-- A new entry where nothing is; the path is not followed at its end. -/
def addEntry (call : Syscall) (deed : Deed) (path : List Name) (new : Node) : Call Loc := do
  tick env call
  let k ← get
  match locate env.process k.fs path with
  | .error error => throw error
  | .ok e =>
    if hfresh : k.fs.node e.loc = none then
      if h : k.fs.IsDir e.dir ∧ ValidName e.name ∧ modifiable env k.fs e.dir = true then do
        set { k with
          fs := k.fs.insert e.dir e.name new h.1 hfresh h.2.1
          effects := k.effects ++ [Effect.mk deed e.loc e.via] }
        return e.loc
      else throw .acces
    else throw .exist

def mkdir (path : List Name) (mode : Nat) : Call Unit := do
  discard <| addEntry env .mkdir .mkdir path (.dir (masked env mode))

/-- `open` with `O_CREAT | O_EXCL`; returns the object the descriptor is for. -/
def createFile (path : List Name) (mode : Nat) : Call Loc :=
  addEntry env .open .create path (.file (masked env mode) [])

def symlink (target : Bytes) (path : List Name) : Call Unit := do
  if target = [] then throw .noent
  else discard <| addEntry env .symlink .symlink path (.link target)

/-- The node with another mode; a link has none. -/
def Node.withMode (mode : Nat) : Node → Node
  | .dir _ => .dir mode
  | .file _ data => .file mode data
  | .link target => .link target
  | .special _ => .special mode

/-- The node with more data at its end. -/
def Node.append (more : Bytes) : Node → Node
  | .file mode data => .file mode (data ++ more)
  | node => node

/-- Another node in the place of the one that is there. -/
def changeNode (deed : Deed) (loc : Loc) (via : List Loc) (f : Node → Node)
    (hf : ∀ mode, ∃ mode', f (.dir mode) = .dir mode') : Call Unit := do
  let k ← get
  if h : (k.fs.node loc).isSome = true then
    set { k with
      fs := k.fs.replace loc (f ((k.fs.node loc).get h)) (Option.isSome_iff_ne_none.mp h) (by
        intro hdir
        obtain ⟨mode, hmode⟩ := FileSystem.isDir_iff.mp hdir
        obtain ⟨mode', hnew⟩ := hf mode
        exact ⟨mode', by rw [← hnew]; congr 1; simp [hmode]⟩)
      effects := k.effects ++ [Effect.mk deed loc via] }
  else throw .noent

/-- `fchmod`. -/
def changeMode (loc : Loc) (mode : Nat) : Call Unit := do
  tick env .fchmod
  changeNode .chmod loc [] (Node.withMode mode) fun _ => ⟨mode, rfl⟩

/-- `chmod` that does not follow the path at its end; not on links. -/
def chmod (path : List Name) (mode : Nat) : Call Unit := do
  tick env .chmod
  let k ← get
  match locate env.process k.fs path with
  | .error error => throw error
  | .ok e =>
    match k.fs.node e.loc with
    | some (.link _) => throw (.other 95)
    | _ => changeNode .chmod e.loc e.via (Node.withMode mode) fun _ => ⟨mode, rfl⟩

/-- `write` to an open file: how much of the data it took. -/
def writeSome (loc : Loc) (data : Bytes) : Call Nat := do
  let k ← get
  tick env .write
  let count := min (env.accepts k.calls.length) data.length
  changeNode .write loc [] (Node.append (data.take count)) fun mode => ⟨mode, rfl⟩
  return count

/-- Whether a directory can be put in the place of what is at a location. -/
def replaceable (fs : FileSystem) (loc : Loc) : Option Errno :=
  match fs.node loc with
  | none => none
  | some (.dir _) => if fs.entries loc = [] then none else some .notempty
  | some _ => some .notdir

/-- `rename` of a directory. -/
def renameDirectory (old new : List Name) : Call Unit := do
  tick env .rename
  let k ← get
  match locate env.process k.fs old, locate env.process k.fs new with
  | .error error, _ => throw error
  | _, .error error => throw error
  | .ok source, .ok target =>
    match replaceable k.fs target.loc with
    | some error => throw error
    | none =>
      if h : k.fs.IsDir source.loc ∧ k.fs.IsDir target.dir ∧ ValidName target.name ∧
          ¬ source.loc <+: target.dir ∧ modifiable env k.fs source.dir = true ∧
          modifiable env k.fs target.dir = true then
        set { k with
          fs := k.fs.move source.loc target.dir target.name h.2.1 h.2.2.1 h.2.2.2.1
          effects := k.effects ++ [Effect.mk .rename target.loc target.via] }
      else throw .inval

/-- `shutil.rmtree`, which follows no link. -/
def removeTree (path : List Name) : Call Unit := do
  tick env .remove
  let k ← get
  match locate env.process k.fs path with
  | .error error => throw error
  | .ok e =>
    set { k with
      fs := k.fs.remove e.loc (by simp [Entry.loc])
      effects := k.effects ++ [Effect.mk .remove e.loc e.via] }

/-- `open` of a directory, without its descriptor. -/
def openDirectory (path : List Name) : Call Unit := do
  tick env .open
  let k ← get
  match walk env.process k.fs true maxLinks [] path with
  | .error error => throw error
  | .ok found => if k.fs.IsDir found.loc then pure () else throw .notdir

/-- `os.path.exists`: through a link at the end. -/
def exists_ (fs : FileSystem) (path : List Name) : Bool :=
  match walk env.process fs true maxLinks [] path with
  | .ok _ => true
  | .error _ => false

/-- `os.path.isdir`. -/
def isDirectory (fs : FileSystem) (path : List Name) : Bool :=
  match walk env.process fs true maxLinks [] path with
  | .ok found => decide (fs.IsDir found.loc)
  | .error _ => false

/-- `os.path.islink`. -/
def isLink (fs : FileSystem) (path : List Name) : Bool :=
  match walk env.process fs false maxLinks [] path with
  | .ok found =>
    match fs.node found.loc with
    | some (.link _) => true
    | _ => false
  | .error _ => false

end Calls

/-! ## What a call has done -/

section Specs
variable {env : Env}

/-- A call was made and nothing came of it. -/
structure Kernel.Still (k k' : Kernel) : Prop where
  fs : k'.fs = k.fs
  effects : k'.effects = k.effects

theorem Kernel.Still.refl (k : Kernel) : k.Still k := ⟨rfl, rfl⟩

theorem Kernel.Still.trans {k k' k'' : Kernel} (h : k.Still k') (h' : k'.Still k'') : k.Still k'' :=
  ⟨h'.fs.trans h.fs, h'.effects.trans h.effects⟩

/-- One object is new or another one. -/
structure Kernel.Changed (k : Kernel) (effect : Effect) (new : Node) (k' : Kernel) : Prop where
  node : k'.fs.node = FileSystem.setNode k.fs.node effect.loc new
  effects : k'.effects = k.effects ++ [effect]

theorem triple_tick (call : Syscall) (k : Kernel) :
    Triple (fun s => s = k) (tick env call) (fun _ => k.Still) fun _ => k.Still := by
  intro s hs
  subst hs
  unfold tick
  rw [run_bind, run_get]
  dsimp only
  rw [run_bind, run_set]
  dsimp only
  cases env.faults s.calls.length with
  | none => exact ⟨rfl, rfl⟩
  | some error => exact ⟨rfl, rfl⟩

theorem tick_calls (call : Syscall) (k : Kernel) :
    Triple (fun s => s = k) (tick env call) (fun _ k' => k'.calls = k.calls ++ [call])
      fun _ k' => k'.calls = k.calls ++ [call] := by
  intro s hs
  subst hs
  unfold tick
  rw [run_bind, run_get]
  dsimp only
  rw [run_bind, run_set]
  dsimp only
  cases env.faults s.calls.length with
  | none => rfl
  | some error => rfl

/-- A call that is made and then does its work. -/
theorem triple_ticked {α : Type} {call : Syscall} {k : Kernel} {x : Call α} {Q : α → Kernel → Prop}
    (hx : ∀ k', k.Still k' → Triple (fun s => s = k') x Q fun _ => k.Still) :
    Triple (fun s => s = k) (tick env call >>= fun _ => x) Q fun _ => k.Still :=
  Triple.bind (triple_tick call k) fun _ s hs => hx s hs s rfl

theorem triple_addEntry (call : Syscall) (deed : Deed) (path : List Name) (new : Node) (k : Kernel) :
    Triple (fun s => s = k) (addEntry env call deed path new)
      (fun loc k' => ∃ e, locate env.process k.fs path = .ok e ∧ loc = e.loc ∧ k.fs.node e.loc = none ∧
        k.fs.IsDir e.dir ∧ k.Changed ⟨deed, e.loc, e.via⟩ new k') fun _ => k.Still := by
  unfold addEntry
  apply triple_ticked
  intro k' hstill
  rw [← hstill.fs]
  apply Triple.get
  intro s hs
  subst hs
  cases hlocate : locate env.process s.fs path with
  | error error => exact Triple.throw fun t ht => ht ▸ hstill
  | ok e =>
    dsimp only
    by_cases hfresh : s.fs.node e.loc = none
    · rw [dif_pos hfresh]
      by_cases h : s.fs.IsDir e.dir ∧ ValidName e.name ∧ modifiable env s.fs e.dir = true
      · rw [dif_pos h]
        intro t ht
        subst ht
        refine ⟨e, rfl, rfl, hfresh, h.1, ?_, congrArg (· ++ [_]) hstill.effects⟩
        show FileSystem.setNode t.fs.node e.loc new = FileSystem.setNode k.fs.node e.loc new
        rw [hstill.fs]
      · rw [dif_neg h]
        exact Triple.throw fun t ht => ht ▸ hstill
    · rw [dif_neg hfresh]
      exact Triple.throw fun t ht => ht ▸ hstill

theorem triple_mkdir (path : List Name) (mode : Nat) (k : Kernel) :
    Triple (fun s => s = k) (mkdir env path mode)
      (fun _ k' => ∃ e, locate env.process k.fs path = .ok e ∧ k.fs.node e.loc = none ∧ k.fs.IsDir e.dir ∧
        k.Changed ⟨.mkdir, e.loc, e.via⟩ (.dir (masked env mode)) k') fun _ => k.Still := by
  refine Triple.bind (triple_addEntry _ _ _ _ k) fun loc => Triple.pure fun k' h => ?_
  obtain ⟨e, hlocate, -, h⟩ := h
  exact ⟨e, hlocate, h⟩

theorem triple_symlink (target : Bytes) (path : List Name) (k : Kernel) :
    Triple (fun s => s = k) (symlink env target path)
      (fun _ k' => ∃ e, locate env.process k.fs path = .ok e ∧ k.fs.node e.loc = none ∧ k.fs.IsDir e.dir ∧
        k.Changed ⟨.symlink, e.loc, e.via⟩ (.link target) k') fun _ => k.Still := by
  unfold symlink
  by_cases htarget : target = []
  · rw [if_pos htarget]
    exact Triple.throw fun s hs => hs ▸ Kernel.Still.refl k
  · rw [if_neg htarget]
    refine Triple.bind (triple_addEntry _ _ _ _ k) fun loc => Triple.pure fun k' h => ?_
    obtain ⟨e, hlocate, -, h⟩ := h
    exact ⟨e, hlocate, h⟩

theorem triple_changeNode (deed : Deed) (loc : Loc) (via : List Loc) (f : Node → Node)
    (hf : ∀ mode, ∃ mode', f (.dir mode) = .dir mode') (k : Kernel) :
    Triple (fun s => s = k) (changeNode deed loc via f hf)
      (fun _ k' => ∃ node, k.fs.node loc = some node ∧ k.Changed ⟨deed, loc, via⟩ (f node) k') fun _ => k.Still := by
  apply Triple.get
  intro s hs
  subst hs
  by_cases h : (s.fs.node loc).isSome = true
  · rw [dif_pos h]
    intro t ht
    subst ht
    exact ⟨(t.fs.node loc).get h, (Option.some_get h).symm, rfl, rfl⟩
  · rw [dif_neg h]
    exact Triple.throw fun t ht => ht ▸ Kernel.Still.refl s

/-- What a change of an object does behind what has left it alone. -/
theorem triple_changeNode_still {deed : Deed} {loc : Loc} {via : List Loc} {f : Node → Node}
    (hf : ∀ mode, ∃ mode', f (.dir mode) = .dir mode') {k k' : Kernel} (h : k.Still k') :
    Triple (fun s => s = k') (changeNode deed loc via f hf)
      (fun _ k'' => ∃ node, k.fs.node loc = some node ∧ k.Changed ⟨deed, loc, via⟩ (f node) k'') fun _ => k.Still := by
  refine (triple_changeNode deed loc via f hf k').conseq (fun _ hs => hs) ?_ fun _ _ hstill => h.trans hstill
  intro _ k'' hnode
  obtain ⟨node, hnode, hchanged⟩ := hnode
  rw [h.fs] at hnode
  refine ⟨node, hnode, ?_, ?_⟩
  · rw [hchanged.node, h.fs]
  · rw [hchanged.effects, h.effects]

theorem triple_changeMode (loc : Loc) (mode : Nat) (k : Kernel) :
    Triple (fun s => s = k) (changeMode env loc mode)
      (fun _ k' => ∃ node, k.fs.node loc = some node ∧ k.Changed ⟨.chmod, loc, []⟩ (node.withMode mode) k')
      fun _ => k.Still :=
  triple_ticked fun _ hstill => triple_changeNode_still _ hstill

theorem triple_chmod (path : List Name) (mode : Nat) (k : Kernel) :
    Triple (fun s => s = k) (chmod env path mode)
      (fun _ k' => ∃ e node, locate env.process k.fs path = .ok e ∧ k.fs.node e.loc = some node ∧
        k.Changed ⟨.chmod, e.loc, e.via⟩ (node.withMode mode) k') fun _ => k.Still := by
  unfold chmod
  apply triple_ticked
  intro k' hstill
  apply Triple.get
  intro s hs
  subst hs
  cases hlocate : locate env.process s.fs path with
  | error error => exact Triple.throw fun t ht => ht ▸ hstill
  | ok e =>
    have hchange := @triple_changeNode_still .chmod e.loc e.via (Node.withMode mode) (fun _ => ⟨mode, rfl⟩) k s hstill
    rw [hstill.fs] at hlocate ⊢
    have hdone := hchange.conseq (fun _ hs => hs)
      (fun _ k' h => (⟨e, h.choose, hlocate, h.choose_spec⟩ : ∃ e node, locate env.process k.fs path = .ok e ∧
        k.fs.node e.loc = some node ∧ k.Changed ⟨.chmod, e.loc, e.via⟩ (node.withMode mode) k')) fun _ _ h => h
    dsimp only
    cases k.fs.node e.loc with
    | none => exact hdone
    | some node =>
      cases node with
      | link target => exact Triple.throw fun t ht => ht ▸ hstill
      | dir _ => exact hdone
      | file _ _ => exact hdone
      | special _ => exact hdone

theorem triple_writeSome (loc : Loc) (data : Bytes) (k : Kernel) :
    Triple (fun s => s = k) (writeSome env loc data)
      (fun count k' => count ≤ data.length ∧ ∃ node, k.fs.node loc = some node ∧
        k.Changed ⟨.write, loc, []⟩ (node.append (data.take count)) k') fun _ => k.Still := by
  unfold writeSome
  apply Triple.get
  intro s hs
  subst hs
  apply triple_ticked
  intro k' hstill
  refine Triple.bind (triple_changeNode_still _ hstill) fun _ => Triple.pure fun k'' h => ?_
  exact ⟨Nat.min_le_right _ _, h⟩

theorem triple_openDirectory (path : List Name) (k : Kernel) :
    Triple (fun s => s = k) (openDirectory env path) (fun _ => k.Still) fun _ => k.Still := by
  unfold openDirectory
  apply triple_ticked
  intro k' hstill
  apply Triple.get
  intro s hs
  subst hs
  cases walk env.process s.fs true maxLinks [] path with
  | error error => exact Triple.throw fun t ht => ht ▸ hstill
  | ok found =>
    dsimp only
    by_cases hdir : s.fs.IsDir found.loc
    · rw [if_pos hdir]
      exact Triple.pure fun t ht => ht ▸ hstill
    · rw [if_neg hdir]
      exact Triple.throw fun t ht => ht ▸ hstill

/-- What a rename of the directory at one entry to another has done. -/
structure Renamed (env : Env) (old new : List Name) (k k' : Kernel) (e e' : Entry) : Prop where
  source : locate env.process k.fs old = .ok e
  target : locate env.process k.fs new = .ok e'
  free : replaceable k.fs e'.loc = none
  dir : k.fs.IsDir e.loc
  apart : ¬ e.loc <+: e'.dir
  node : k'.fs.node = FileSystem.moveNode k.fs.node e.loc e'.loc
  effects : k'.effects = k.effects ++ [⟨.rename, e'.loc, e'.via⟩]

theorem triple_renameDirectory (old new : List Name) (k : Kernel) :
    Triple (fun s => s = k) (renameDirectory env old new)
      (fun _ k' => ∃ source target, Renamed env old new k k' source target) fun _ => k.Still := by
  unfold renameDirectory
  apply triple_ticked
  intro k' hstill
  apply Triple.get
  intro s hs
  subst hs
  cases hsource : locate env.process s.fs old with
  | error error => exact Triple.throw fun t ht => ht ▸ hstill
  | ok source =>
    cases htarget : locate env.process s.fs new with
    | error error => exact Triple.throw fun t ht => ht ▸ hstill
    | ok target =>
      dsimp only
      cases hreplace : replaceable s.fs target.loc with
      | some error => exact Triple.throw fun t ht => ht ▸ hstill
      | none =>
        dsimp only
        by_cases h : s.fs.IsDir source.loc ∧ s.fs.IsDir target.dir ∧ ValidName target.name ∧
            ¬ source.loc <+: target.dir ∧ modifiable env s.fs source.dir = true ∧
            modifiable env s.fs target.dir = true
        · rw [dif_pos h]
          intro t ht
          subst ht
          rw [hstill.fs] at hsource htarget hreplace
          refine ⟨source, target, hsource, htarget, hreplace, hstill.fs ▸ h.1, h.2.2.2.1, ?_, ?_⟩
          · show FileSystem.moveNode t.fs.node source.loc target.loc = _
            rw [hstill.fs]
          · exact congrArg (· ++ [_]) hstill.effects
        · rw [dif_neg h]
          exact Triple.throw fun t ht => ht ▸ hstill

theorem triple_removeTree (path : List Name) (k : Kernel) :
    Triple (fun s => s = k) (removeTree env path)
      (fun _ k' => ∃ e, locate env.process k.fs path = .ok e ∧ k'.effects = k.effects ++ [⟨.remove, e.loc, e.via⟩] ∧
        ∀ l, k'.fs.node l = if e.loc <+: l then none else k.fs.node l) fun _ => k.Still := by
  unfold removeTree
  apply triple_ticked
  intro k' hstill
  apply Triple.get
  intro s hs
  subst hs
  cases hlocate : locate env.process s.fs path with
  | error error => exact Triple.throw fun t ht => ht ▸ hstill
  | ok e =>
    intro t ht
    subst ht
    rw [hstill.fs] at hlocate
    refine ⟨e, hlocate, congrArg (· ++ [_]) hstill.effects, fun l => ?_⟩
    show (if e.loc <+: l then none else t.fs.node l) = _
    rw [hstill.fs]

end Specs

/-! ## The calls that were made -/

section Made
variable {env : Env} {before : List Syscall}

/-- These calls were made, and others behind them. -/
def Kernel.Began (before : List Syscall) (k : Kernel) : Prop := before <+: k.calls

theorem keeps_tick (call : Syscall) : Keeps (Kernel.Began before) (tick env call) fun _ => True := by
  refine Keeps.bind Keeps.get fun k hk => ?_
  refine Keeps.bind (Q := fun _ => True) (fun _ _ => ⟨trivial, hk.trans (List.prefix_append _ _)⟩) fun _ _ => ?_
  cases env.faults k.calls.length with
  | none => exact Keeps.pure trivial
  | some error => exact Keeps.throw error

/-- The rest of a call, which makes no other. -/
theorem keeps_ticked {α : Type} {call : Syscall} {x : Kernel → Call α}
    (hx : ∀ k, k.Began before → Keeps (Kernel.Began before) (x k) fun _ => True) :
    Keeps (Kernel.Began before) (tick env call >>= fun _ => get >>= x) fun _ => True :=
  Keeps.bind (keeps_tick call) fun _ _ => Keeps.bind Keeps.get hx

theorem keeps_addEntry (call : Syscall) (deed : Deed) (path : List Name) (new : Node) :
    Keeps (Kernel.Began before) (addEntry env call deed path new) fun _ => True := by
  refine keeps_ticked fun k hk => ?_
  cases locate env.process k.fs path with
  | error error => exact Keeps.throw error
  | ok e =>
    dsimp only
    by_cases hfresh : k.fs.node e.loc = none
    · rw [dif_pos hfresh]
      by_cases h : k.fs.IsDir e.dir ∧ ValidName e.name ∧ modifiable env k.fs e.dir = true
      · rw [dif_pos h]
        exact fun _ _ => ⟨trivial, hk⟩
      · rw [dif_neg h]
        exact Keeps.throw _
    · rw [dif_neg hfresh]
      exact Keeps.throw _

theorem keeps_mkdir (path : List Name) (mode : Nat) : Keeps (Kernel.Began before) (mkdir env path mode) fun _ => True :=
  Keeps.bind (keeps_addEntry _ _ _ _) fun _ _ => Keeps.pure trivial

theorem keeps_symlink (target : Bytes) (path : List Name) :
    Keeps (Kernel.Began before) (symlink env target path) fun _ => True := by
  unfold symlink
  by_cases htarget : target = []
  · rw [if_pos htarget]
    exact Keeps.throw _
  · rw [if_neg htarget]
    exact Keeps.bind (keeps_addEntry _ _ _ _) fun _ _ => Keeps.pure trivial

theorem keeps_changeNode (deed : Deed) (loc : Loc) (via : List Loc) (f : Node → Node)
    (hf : ∀ mode, ∃ mode', f (.dir mode) = .dir mode') :
    Keeps (Kernel.Began before) (changeNode deed loc via f hf) fun _ => True := by
  refine Keeps.bind Keeps.get fun k hk => ?_
  by_cases h : (k.fs.node loc).isSome = true
  · rw [dif_pos h]
    exact fun _ _ => ⟨trivial, hk⟩
  · rw [dif_neg h]
    exact Keeps.throw _

theorem keeps_changeMode (loc : Loc) (mode : Nat) :
    Keeps (Kernel.Began before) (changeMode env loc mode) fun _ => True :=
  Keeps.bind (keeps_tick _) fun _ _ => keeps_changeNode _ _ _ _ _

theorem keeps_chmod (path : List Name) (mode : Nat) : Keeps (Kernel.Began before) (chmod env path mode) fun _ => True := by
  refine keeps_ticked fun k hk => ?_
  cases locate env.process k.fs path with
  | error error => exact Keeps.throw error
  | ok e =>
    dsimp only
    cases k.fs.node e.loc with
    | none => exact keeps_changeNode _ _ _ _ _
    | some node =>
      cases node with
      | link target => exact Keeps.throw _
      | dir _ => exact keeps_changeNode _ _ _ _ _
      | file _ _ => exact keeps_changeNode _ _ _ _ _
      | special _ => exact keeps_changeNode _ _ _ _ _

theorem keeps_writeSome (loc : Loc) (data : Bytes) :
    Keeps (Kernel.Began before) (writeSome env loc data) fun _ => True := by
  refine Keeps.bind Keeps.get fun k _ => Keeps.bind (keeps_tick _) fun _ _ => ?_
  exact Keeps.bind (keeps_changeNode _ _ _ _ _) fun _ _ => Keeps.pure trivial

theorem keeps_openDirectory (path : List Name) : Keeps (Kernel.Began before) (openDirectory env path) fun _ => True := by
  refine keeps_ticked fun k hk => ?_
  cases walk env.process k.fs true maxLinks [] path with
  | error error => exact Keeps.throw error
  | ok found =>
    dsimp only
    by_cases hdir : k.fs.IsDir found.loc
    · rw [if_pos hdir]
      exact Keeps.pure trivial
    · rw [if_neg hdir]
      exact Keeps.throw _

theorem keeps_removeTree (path : List Name) : Keeps (Kernel.Began before) (removeTree env path) fun _ => True := by
  refine keeps_ticked fun k hk => ?_
  cases locate env.process k.fs path with
  | error error => exact Keeps.throw error
  | ok e => exact fun _ _ => ⟨trivial, hk⟩

/-- A call fails when its number says so. -/
theorem triple_tick_made (call : Syscall) (k : Kernel) :
    Triple (fun s => s = k) (tick env call)
      (fun _ k' => env.faults k.calls.length = none ∧ k'.calls = k.calls ++ [call])
      fun error k' => env.faults k.calls.length = some error ∧ k'.calls = k.calls ++ [call] := by
  intro s hs
  subst hs
  unfold tick
  rw [run_bind, run_get]
  dsimp only
  rw [run_bind, run_set]
  dsimp only
  cases hfault : env.faults s.calls.length with
  | none => exact ⟨rfl, rfl⟩
  | some error => exact ⟨rfl, rfl⟩

theorem calls_renameDirectory (old new : List Name) (k : Kernel) :
    Triple (fun s => s = k) (renameDirectory env old new) (fun _ k' => k'.calls = k.calls ++ [.rename])
      fun _ k' => k'.calls = k.calls ++ [.rename] := by
  unfold renameDirectory
  refine Triple.bind (tick_calls .rename k) fun _ => Triple.get fun s hs => ?_
  cases locate env.process s.fs old with
  | error error => exact Triple.throw fun t ht => ht ▸ hs
  | ok source =>
    cases locate env.process s.fs new with
    | error error => exact Triple.throw fun t ht => ht ▸ hs
    | ok target =>
      dsimp only
      cases replaceable s.fs target.loc with
      | some error => exact Triple.throw fun t ht => ht ▸ hs
      | none =>
        dsimp only
        by_cases h : s.fs.IsDir source.loc ∧ s.fs.IsDir target.dir ∧ ValidName target.name ∧
            ¬ source.loc <+: target.dir ∧ modifiable env s.fs source.dir = true ∧
            modifiable env s.fs target.dir = true
        · rw [dif_pos h]
          exact fun t ht => hs
        · rw [dif_neg h]
          exact Triple.throw fun t ht => ht ▸ hs

end Made

end GetBibleSword.Lib.Posix
