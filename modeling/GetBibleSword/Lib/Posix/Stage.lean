import GetBibleSword.Lib.Posix.Calls

/-!
# A tree built in a new directory

* `Stage` : a new directory, with the tree before it is made; `Around` : the tree outside is that one;
* `Clear` : no link on the way to a place in it; `walk_below`, `locate_below` : then a path ends there;
* `Confined`, `Inside` : what was done between two moments lies in it; `Grown` : nothing but missing
  directories are new;
* `makedirs`, `makeParents` : of the Python library; `triple_makedirs`.
-/

namespace GetBibleSword.Lib.Posix

structure Stage (env : Env) where
  before : FileSystem
  /-- The path of the directory it is made in. -/
  parent : List Name
  name : Name
  base : Loc
  via : List Loc
  leads : walk env.process before true maxLinks [] parent = .ok ⟨base, via⟩
  searchable : searched env.process before base = none
  named : ValidName name
  fresh : before.node (base ++ [name]) = none

namespace Stage
variable {env : Env} (stage : Stage env)

def loc : Loc := stage.base ++ [stage.name]

def path : List Name := stage.parent ++ [stage.name]

/-- The stage is there, and nothing outside is another. -/
structure Around (fs : FileSystem) : Prop where
  apart : ∀ l, ¬ stage.loc <+: l → fs.node l = stage.before.node l
  dir : fs.IsDir stage.loc

/-- No link at or above a place in the stage. -/
def Clear (fs : FileSystem) (names : List Name) : Prop :=
  ∀ above, above <+: names → ∀ target, fs.node (stage.loc ++ above) ≠ some (.link target)

/-- What was done took effect in the stage, and through no link that was made meanwhile. -/
structure Confined (k k' : Kernel) : Prop where
  apart : ∀ l, ¬ stage.loc <+: l → k'.fs.node l = k.fs.node l
  effects : ∃ more, k'.effects = k.effects ++ more ∧
    ∀ e ∈ more, stage.loc <+: e.loc ∧ ∀ l ∈ e.via, l ∈ stage.via

/-- Only directories at and above a place in the stage are new. -/
structure Grown (names : List Name) (k k' : Kernel) : Prop extends stage.Confined k k' where
  node : ∀ l, k'.fs.node l = k.fs.node l ∨
    k.fs.node l = none ∧ k'.fs.IsDir l ∧ ∃ above, above <+: names ∧ l = stage.loc ++ above

/-- The stage that `mkdir` of a fresh path makes. -/
def ofLocate {fs : FileSystem} {parent : List Name} {name : Name} {e : Entry}
    (h : locate env.process fs (parent ++ [name]) = .ok e) (hfresh : fs.node e.loc = none) : Stage env where
  before := fs
  parent := parent
  name := name
  base := e.dir
  via := e.via
  leads := (locate_eq_ok h).2.1
  searchable := (locate_eq_ok h).2.2.1
  named := (locate_eq_ok h).1
  fresh := by
    rw [← (locate_eq_ok h).2.2.2]
    exact hfresh

variable {stage} {fs : FileSystem} {names : List Name} {k k' k'' : Kernel}

/-! ## Places in the stage -/

theorem Clear.mono {below : List Name} (h : stage.Clear fs below) (hpre : names <+: below) : stage.Clear fs names :=
  fun above habove => h above (habove.trans hpre)

theorem before_below (names : List Name) : stage.before.node (stage.loc ++ names) = none :=
  FileSystem.node_below stage.fresh names

section Around
variable (h : stage.Around fs)
include h

theorem Around.extends : Extends stage.before fs := by
  intro l node hnode
  rw [h.apart l, hnode]
  intro hpre
  obtain ⟨rest, rfl⟩ := hpre
  rw [before_below] at hnode
  cases hnode

theorem Around.searchable : searched env.process fs stage.base = none := searched_extends h.extends stage.searchable

theorem Around.walk_parent : walk env.process fs true maxLinks [] stage.parent = .ok ⟨stage.base, stage.via⟩ :=
  walk_extends h.extends _ stage.leads

theorem Around.walk_path (follow : Bool) (names : List Name) :
    walk env.process fs follow maxLinks [] (stage.path ++ names) =
      match walk env.process fs follow (maxLinks - stage.via.length) stage.base (stage.name :: names) with
      | .ok last => .ok ⟨last.loc, stage.via ++ last.via⟩
      | .error error => .error error := by
  rw [path, List.append_assoc]
  exact walk_append (.inl (List.cons_ne_nil _ _)) _ h.walk_parent

theorem Around.walk_below {follow : Bool} {found : Found} (hvalid : ∀ name ∈ names, ValidName name)
    (hclear : ∀ above, above <+: names → (above ≠ names ∨ follow = true) →
      ∀ target, fs.node (stage.loc ++ above) ≠ some (.link target))
    (hw : walk env.process fs follow maxLinks [] (stage.path ++ names) = .ok found) :
    found = ⟨stage.loc ++ names, stage.via⟩ := by
  rw [h.walk_path] at hw
  cases hlast : walk env.process fs follow (maxLinks - stage.via.length) stage.base (stage.name :: names) with
  | error error =>
    rw [hlast] at hw
    cases hw
  | ok last =>
    rw [hlast] at hw
    obtain rfl := Except.ok.inj hw
    have hlinks : ∀ q, q ≠ [] → q <+: stage.name :: names → (q ≠ stage.name :: names ∨ follow = true) →
        ∀ target, fs.node (stage.base ++ q) ≠ some (.link target) := by
      intro q hne hpre hfollow target
      obtain ⟨first, above, rfl⟩ := List.exists_cons_of_ne_nil hne
      obtain ⟨rfl, habove⟩ := List.cons_prefix_cons.mp hpre
      rw [List.append_cons]
      exact hclear above habove (hfollow.imp_left fun hne heq => hne (by rw [heq])) target
    rw [walk_plain (List.forall_mem_cons.mpr ⟨stage.named, hvalid⟩) hlinks hlast, List.append_nil, List.append_cons]
    rfl

theorem Around.locate_below {name : Name} {e : Entry} (hvalid : ∀ name ∈ names, ValidName name)
    (hclear : stage.Clear fs names) (hlocate : locate env.process fs (stage.path ++ (names ++ [name])) = .ok e) :
    e = ⟨stage.loc ++ names, name, stage.via⟩ := by
  unfold locate at hlocate
  rw [← List.append_assoc, List.getLast?_concat, List.dropLast_concat] at hlocate
  dsimp only at hlocate
  split_ifs at hlocate
  cases hw : walk env.process fs true maxLinks [] (stage.path ++ names) with
  | error error =>
    rw [hw] at hlocate
    cases hlocate
  | ok found =>
    rw [hw] at hlocate
    dsimp only at hlocate
    obtain rfl := h.walk_below hvalid (fun above habove _ => hclear above habove) hw
    cases hs : searched env.process fs (stage.loc ++ names) with
    | some error =>
      rw [hs] at hlocate
      cases hlocate
    | none =>
      rw [hs] at hlocate
      exact (Except.ok.inj hlocate).symm

theorem Around.locate_place {e : Entry} (hne : names ≠ []) (hvalid : ∀ name ∈ names, ValidName name)
    (hclear : stage.Clear fs names.dropLast) (hlocate : locate env.process fs (stage.path ++ names) = .ok e) :
    e.loc = stage.loc ++ names ∧ e.via = stage.via := by
  rw [← List.dropLast_concat_getLast hne] at hlocate
  have hfront : ∀ name ∈ names.dropLast, ValidName name := fun name hname => hvalid name (List.mem_of_mem_dropLast hname)
  rw [h.locate_below hfront hclear hlocate]
  refine ⟨?_, rfl⟩
  rw [Entry.loc, List.append_assoc, List.dropLast_concat_getLast hne]

theorem Around.isDirectory_below (hvalid : ∀ name ∈ names, ValidName name) (hclear : stage.Clear fs names)
    (hdir : isDirectory env fs (stage.path ++ names) = true) : fs.IsDir (stage.loc ++ names) := by
  unfold isDirectory at hdir
  cases hw : walk env.process fs true maxLinks [] (stage.path ++ names) with
  | error error =>
    rw [hw] at hdir
    cases hdir
  | ok found =>
    rw [hw] at hdir
    obtain rfl := h.walk_below hvalid (fun above habove _ => hclear above habove) hw
    exact of_decide_eq_true hdir

theorem Around.walk_stage : walk env.process fs true maxLinks [] stage.path = .ok ⟨stage.loc, stage.via⟩ := by
  have hpath := h.walk_path true []
  obtain ⟨mode, hmode⟩ := FileSystem.isDir_iff.mp h.dir
  have hlast : walk env.process fs true (maxLinks - stage.via.length) stage.base [stage.name] =
      .ok ⟨stage.base ++ [stage.name], []⟩ := by
    apply walk_dirs
    · exact fun name hname => List.mem_singleton.mp hname ▸ stage.named
    · intro q hq hne
      rcases List.prefix_concat_iff.mp (show q <+: [] ++ [stage.name] from hq) with rfl | hq
      · exact absurd rfl hne
      · rw [List.prefix_nil.mp hq, List.append_nil]
        exact h.searchable
    · intro hnone
      rw [← loc, hmode] at hnone
      cases hnone
    · intro _ _ target hlink
      rw [← loc, hmode] at hlink
      cases hlink
  rw [List.append_nil, hlast] at hpath
  rw [hpath]
  dsimp only
  rw [List.append_nil]
  rfl

/-- Another name in the directory of the stage. -/
theorem Around.locate_beside {name : Name} {e : Entry}
    (hlocate : locate env.process fs (stage.parent ++ [name]) = .ok e) :
    e = ⟨stage.base, name, stage.via⟩ ∧ ValidName name := by
  obtain ⟨hvalid, hwalk, -, hname⟩ := locate_eq_ok hlocate
  rw [h.walk_parent] at hwalk
  obtain ⟨hdir, hvia⟩ := Found.mk.inj (Except.ok.inj hwalk)
  refine ⟨?_, hname ▸ hvalid⟩
  rw [hdir, hvia, ← hname]

theorem Around.exists_parent : exists_ env fs stage.parent = true := by
  rw [exists_, h.walk_parent]

theorem Around.isDirectory_path : isDirectory env fs stage.path = true := by
  rw [isDirectory, h.walk_stage]
  exact decide_eq_true h.dir

theorem Around.locate_path : locate env.process fs stage.path = .ok ⟨stage.base, stage.name, stage.via⟩ := by
  unfold locate path
  rw [List.getLast?_concat, List.dropLast_concat]
  dsimp only
  rw [if_pos stage.named, h.walk_parent]
  dsimp only
  rw [h.searchable]

end Around

/-- Where a path beside the stage leads to nothing, there is nothing. -/
theorem absent_beside {name : Name} (hvalid : ValidName name)
    (hexists : exists_ env stage.before (stage.parent ++ [name]) = false)
    (hlink : isLink env stage.before (stage.parent ++ [name]) = false) : stage.before.node (stage.base ++ [name]) = none := by
  by_contra hthere
  have hwalk : ∀ follow : Bool, (follow = true → ∀ target, stage.before.node (stage.base ++ [name]) ≠ some (.link target)) →
      walk env.process stage.before follow maxLinks [] (stage.parent ++ [name]) =
        .ok ⟨stage.base ++ [name], stage.via ++ []⟩ := by
    intro follow hfollow
    have hlast : walk env.process stage.before follow (maxLinks - stage.via.length) stage.base [name] =
        .ok ⟨stage.base ++ [name], []⟩ := by
      apply walk_dirs
      · exact fun n hn => List.mem_singleton.mp hn ▸ hvalid
      · intro q hq hne
        rcases List.prefix_concat_iff.mp (show q <+: [] ++ [name] from hq) with rfl | hq
        · exact absurd rfl hne
        · rw [List.prefix_nil.mp hq, List.append_nil]
          exact stage.searchable
      · exact hthere
      · exact fun _ => hfollow
    rw [walk_append (.inl (List.cons_ne_nil _ _)) _ stage.leads, hlast]
  obtain ⟨node, hnode⟩ := Option.ne_none_iff_exists'.mp hthere
  by_cases hislink : ∃ target, node = .link target
  · obtain ⟨target, rfl⟩ := hislink
    rw [isLink, hwalk false nofun] at hlink
    dsimp only at hlink
    rw [hnode] at hlink
    cases hlink
  · rw [exists_, hwalk true fun _ target htarget => hislink ⟨target, Option.some.inj (hnode.symm.trans htarget)⟩] at hexists
    cases hexists

/-! ## What is done in the stage -/

theorem Confined.refl (k : Kernel) : stage.Confined k k :=
  ⟨fun _ _ => rfl, [], (List.append_nil _).symm, fun _ he => absurd he List.not_mem_nil⟩

theorem Confined.trans (h : stage.Confined k k') (h' : stage.Confined k' k'') : stage.Confined k k'' := by
  obtain ⟨more, hmore, hlies⟩ := h.effects
  obtain ⟨more', hmore', hlies'⟩ := h'.effects
  refine ⟨fun l hl => (h'.apart l hl).trans (h.apart l hl), more ++ more', ?_, ?_⟩
  · rw [hmore', hmore, List.append_assoc]
  · exact fun e he => (List.mem_append.mp he).elim (hlies e) (hlies' e)

theorem Confined.of_still (h : k.Still k') : stage.Confined k k' := by
  refine ⟨fun l _ => by rw [h.fs], [], ?_, fun _ he => absurd he List.not_mem_nil⟩
  rw [h.effects, List.append_nil]

theorem Confined.of_changed {effect : Effect} {new : Node} (h : k.Changed effect new k')
    (hloc : stage.loc <+: effect.loc) (hvia : ∀ l ∈ effect.via, l ∈ stage.via) : stage.Confined k k' := by
  refine ⟨fun l hl => ?_, [effect], h.effects, fun e he => List.mem_singleton.mp he ▸ ⟨hloc, hvia⟩⟩
  have hne : l ≠ effect.loc := by
    rintro rfl
    exact hl hloc
  rw [h.node, FileSystem.setNode_of_ne new hne]

theorem Around.confined (h : stage.Around k.fs) (hconfined : stage.Confined k k') (hdir : k'.fs.IsDir stage.loc) :
    stage.Around k'.fs := ⟨fun l hl => (hconfined.apart l hl).trans (h.apart l hl), hdir⟩

variable (stage) in
/-- From one moment to another everything happened in the stage, which is there. -/
structure Inside (k k' : Kernel) : Prop where
  around : stage.Around k'.fs
  confined : stage.Confined k k'

theorem Inside.still (h : stage.Inside k k') (hstill : k'.Still k'') : stage.Inside k k'' :=
  ⟨hstill.fs ▸ h.around, h.confined.trans (.of_still hstill)⟩

theorem Inside.changed {effect : Effect} {new : Node} (h : stage.Inside k k') (hchanged : k'.Changed effect new k'')
    (hloc : stage.loc <+: effect.loc) (hvia : ∀ l ∈ effect.via, l ∈ stage.via)
    (hdir : effect.loc = stage.loc → ∃ mode, new = .dir mode) : stage.Inside k k'' := by
  have hconfined := Confined.of_changed hchanged hloc hvia
  refine ⟨h.around.confined hconfined ?_, h.confined.trans hconfined⟩
  rw [FileSystem.isDir_iff, hchanged.node]
  by_cases hroot : effect.loc = stage.loc
  · obtain ⟨mode, rfl⟩ := hdir hroot
    exact ⟨mode, by rw [hroot, FileSystem.setNode_self]⟩
  · rw [FileSystem.setNode_of_ne new (Ne.symm hroot)]
    exact FileSystem.isDir_iff.mp h.around.dir

/-- A change at a place below the stage. -/
theorem Inside.place {effect : Effect} {new : Node} (h : stage.Inside k k') (hchanged : k'.Changed effect new k'')
    (hne : names ≠ []) (hloc : effect.loc = stage.loc ++ names) (hvia : ∀ l ∈ effect.via, l ∈ stage.via) :
    stage.Inside k k'' := by
  refine h.changed hchanged (hloc ▸ List.prefix_append _ _) hvia fun hroot => ?_
  rw [hloc] at hroot
  exact absurd (List.append_right_eq_self.mp hroot) hne

theorem Grown.refl (k : Kernel) : stage.Grown names k k := ⟨.refl k, fun _ => .inl rfl⟩

theorem Grown.of_still (h : k.Still k') : stage.Grown names k k' := ⟨.of_still h, fun l => .inl (by rw [h.fs])⟩

theorem Grown.mono {below : List Name} (h : stage.Grown names k k') (hpre : names <+: below) :
    stage.Grown below k k' := by
  refine ⟨h.toConfined, fun l => ?_⟩
  rcases h.node l with hsame | ⟨hnone, hdir, above, habove, hl⟩
  · exact .inl hsame
  · exact .inr ⟨hnone, hdir, above, habove.trans hpre, hl⟩

/-- Whatever was there is what it was. -/
theorem Grown.extends (h : stage.Grown names k k') : Extends k.fs k'.fs := by
  intro l node hnode
  rcases h.node l with hsame | ⟨hnone, -⟩
  · rw [hsame, hnode]
  · rw [hnone] at hnode
    cases hnode

theorem Grown.trans (h : stage.Grown names k k') (h' : stage.Grown names k' k'') : stage.Grown names k k'' := by
  refine ⟨h.toConfined.trans h'.toConfined, fun l => ?_⟩
  rcases h.node l with hsame | ⟨hnone, hdir, hplace⟩
  · rcases h'.node l with hsame' | ⟨hnone', hnew⟩
    · exact .inl (hsame'.trans hsame)
    · exact .inr ⟨hsame ▸ hnone', hnew⟩
  · exact .inr ⟨hnone, isDir_extends h'.extends hdir, hplace⟩

theorem Grown.around (h : stage.Grown names k k') (haround : stage.Around k.fs) : stage.Around k'.fs :=
  haround.confined h.toConfined (isDir_extends h.extends haround.dir)

theorem Inside.grown (h : stage.Inside k k') (hgrown : stage.Grown names k' k'') : stage.Inside k k'' :=
  ⟨hgrown.around h.around, h.confined.trans hgrown.toConfined⟩

theorem Grown.clear {place : List Name} (h : stage.Grown names k k') (hclear : stage.Clear k.fs place) :
    stage.Clear k'.fs place := by
  intro above habove target hlink
  rcases h.node (stage.loc ++ above) with hsame | ⟨-, hdir, -⟩
  · exact hclear above habove target (hsame ▸ hlink)
  · obtain ⟨mode, hmode⟩ := FileSystem.isDir_iff.mp hdir
    rw [hlink] at hmode
    cases hmode

end Stage

/-! ## Directories with their parents -/

section Makedirs
variable (env : Env)

/-- `os.makedirs`, of a path from its end. -/
def makedirsOf (existOk : Bool) : Nat → List Name → Call Unit
  | mode, [] => makeDirectory mode []
  | mode, tail :: head => do
    let k ← get
    if exists_ env k.fs head.reverse = true then makeDirectory mode (tail :: head).reverse
    else do
      tryCatch (makedirsOf existOk 0o777 head) fun error => if error = .exist then pure () else throw error
      makeDirectory mode (tail :: head).reverse
where
  makeDirectory (mode : Nat) (path : List Name) : Call Unit :=
    tryCatch (mkdir env path mode) fun error => do
      let k ← get
      if existOk = true ∧ isDirectory env k.fs path = true then pure () else throw error

def makedirs (path : List Name) (mode : Nat) (existOk : Bool) : Call Unit := makedirsOf env existOk mode path.reverse

/-- `Path.mkdir` with `parents` and `exist_ok`, of a path from its end. -/
def makeParentsOf : List Name → Call Unit
  | [] => tryCatch (mkdir env [] 0o777) (accept [])
  | tail :: head =>
    tryCatch (mkdir env (tail :: head).reverse 0o777) fun error =>
      if error = .noent then do
        makeParentsOf head
        tryCatch (mkdir env (tail :: head).reverse 0o777) fun error =>
          if error = .noent then throw error else accept (tail :: head).reverse error
      else accept (tail :: head).reverse error
where
  /-- What is there is a directory. -/
  accept (path : List Name) (error : Errno) : Call Unit := do
    let k ← get
    if isDirectory env k.fs path = true then pure () else throw error

def makeParents (path : List Name) : Call Unit := makeParentsOf env path.reverse

end Makedirs

namespace Stage
variable {env : Env} {stage : Stage env} {names : List Name} {k : Kernel}

/-- A directory in the stage is made, or it was there and may be. -/
theorem triple_makeDirectory (existOk : Bool) (mode : Nat) {name : Name} (haround : stage.Around k.fs)
    (hvalid : ∀ n ∈ names ++ [name], ValidName n) (hclear : stage.Clear k.fs (names ++ [name])) :
    Triple (fun s => s = k) (makedirsOf.makeDirectory env existOk mode (stage.path ++ (names ++ [name])))
      (fun _ k' => stage.Grown (names ++ [name]) k k' ∧ k'.fs.IsDir (stage.loc ++ (names ++ [name])) ∧
        (existOk = false → k.fs.node (stage.loc ++ (names ++ [name])) = none)) fun _ k' => k.Still k' := by
  refine Triple.tryCatch ((triple_mkdir _ mode k).conseq (fun _ hs => hs) ?_ fun _ _ h => h) ?_
  · intro _ k' hmade
    obtain ⟨e, hlocate, hfresh, -, hchanged⟩ := hmade
    obtain rfl := haround.locate_below (fun n hn => hvalid n (List.mem_append_left _ hn))
      (hclear.mono (List.prefix_append _ _)) hlocate
    have hloc : Entry.loc ⟨stage.loc ++ names, name, stage.via⟩ = stage.loc ++ (names ++ [name]) :=
      List.append_assoc _ _ _
    rw [hloc] at hfresh hchanged
    have hnew : k'.fs.IsDir (stage.loc ++ (names ++ [name])) :=
      FileSystem.isDir_iff.mpr ⟨_, by rw [hchanged.node, FileSystem.setNode_self]⟩
    refine ⟨⟨.of_changed hchanged (List.prefix_append _ _) fun _ h => h, fun l => ?_⟩, hnew, fun _ => hfresh⟩
    by_cases hl : l = stage.loc ++ (names ++ [name])
    · subst hl
      exact .inr ⟨hfresh, hnew, names ++ [name], List.prefix_rfl, rfl⟩
    · left
      rw [hchanged.node, FileSystem.setNode_of_ne _ hl]
  · intro error
    apply Triple.get
    intro k' hstill
    by_cases hexists : existOk = true ∧ isDirectory env k'.fs (stage.path ++ (names ++ [name])) = true
    · rw [if_pos hexists]
      refine Triple.pure fun s hs => ?_
      subst hs
      refine ⟨.of_still hstill, ?_, fun hnot => by rw [hexists.1] at hnot; cases hnot⟩
      have hdir := hexists.2
      rw [hstill.fs] at hdir ⊢
      exact haround.isDirectory_below hvalid hclear hdir
    · rw [if_neg hexists]
      exact Triple.throw fun s hs => hs ▸ hstill

/-- The stage itself is there. -/
theorem triple_makeDirectory_stage (existOk : Bool) (mode : Nat) (haround : stage.Around k.fs) :
    Triple (fun s => s = k) (makedirsOf.makeDirectory env existOk mode stage.path)
      (fun _ k' => k.Still k' ∧ existOk = true) fun _ k' => k.Still k' := by
  refine Triple.tryCatch (Q := fun _ k' => k.Still k' ∧ existOk = true)
    ((triple_mkdir _ mode k).conseq (fun _ hs => hs) ?_ fun _ _ h => h) ?_
  · intro _ k' hmade
    obtain ⟨e, hlocate, hfresh, -⟩ := hmade
    rw [haround.locate_path] at hlocate
    obtain rfl := Except.ok.inj hlocate
    obtain ⟨mode, hmode⟩ := FileSystem.isDir_iff.mp haround.dir
    rw [show Entry.loc _ = stage.loc from rfl, hmode] at hfresh
    cases hfresh
  · intro error
    apply Triple.get
    intro k' hstill
    by_cases hexists : existOk = true ∧ isDirectory env k'.fs stage.path = true
    · rw [if_pos hexists]
      exact Triple.pure fun s hs => hs ▸ ⟨hstill, hexists.1⟩
    · rw [if_neg hexists]
      exact Triple.throw fun s hs => hs ▸ hstill

/-- With its parents, of which those that are missing are made. -/
theorem triple_makedirsOf (existOk : Bool) (names : List Name) : ∀ {mode : Nat} {k : Kernel}, stage.Around k.fs →
    (∀ n ∈ names, ValidName n) → stage.Clear k.fs names →
    Triple (fun s => s = k) (makedirsOf env existOk mode (stage.path ++ names).reverse)
      (fun _ k' => stage.Grown names k k' ∧ k'.fs.IsDir (stage.loc ++ names) ∧
        (existOk = false → k.fs.node (stage.loc ++ names) = none)) fun _ k' => stage.Grown names k k' := by
  induction names using List.reverseRecOn with
  | nil =>
    intro mode k haround _ _
    have hpath : (stage.path ++ []).reverse = stage.name :: stage.parent.reverse := by
      rw [List.append_nil, path, List.reverse_concat]
    rw [hpath, makedirsOf]
    apply Triple.get
    intro s hs
    subst hs
    rw [List.reverse_reverse, if_pos haround.exists_parent, List.reverse_cons, List.reverse_reverse]
    refine (triple_makeDirectory_stage existOk mode haround).conseq (fun _ hs => hs) ?_ fun _ _ h => .of_still h
    intro _ k' h
    obtain ⟨hstill, hok⟩ := h
    refine ⟨.of_still hstill, ?_, fun hnot => by rw [hok] at hnot; cases hnot⟩
    rw [List.append_nil, hstill.fs]
    exact haround.dir
  | append_singleton names name ih =>
    intro mode k haround hvalid hclear
    have hpath : (stage.path ++ (names ++ [name])).reverse = name :: (stage.path ++ names).reverse := by
      rw [← List.append_assoc, List.reverse_concat]
    rw [hpath, makedirsOf]
    have hmake : ∀ k', stage.Grown names k k' →
        Triple (fun s => s = k') (makedirsOf.makeDirectory env existOk mode (name :: (stage.path ++ names).reverse).reverse)
          (fun _ k'' => stage.Grown (names ++ [name]) k k'' ∧ k''.fs.IsDir (stage.loc ++ (names ++ [name])) ∧
            (existOk = false → k.fs.node (stage.loc ++ (names ++ [name])) = none))
          fun _ k'' => stage.Grown (names ++ [name]) k k'' := by
      intro k' hgrown
      have hgrown' := hgrown.mono (List.prefix_append names [name])
      rw [← hpath, List.reverse_reverse]
      refine (triple_makeDirectory existOk mode (hgrown.around haround) hvalid (hgrown.clear hclear)).conseq
        (fun _ hs => hs) ?_ fun _ _ h => hgrown'.trans (.of_still h)
      intro _ k'' h
      obtain ⟨hmade, hdir, hfresh⟩ := h
      refine ⟨hgrown'.trans hmade, hdir, fun hnot => ?_⟩
      rcases hgrown.node (stage.loc ++ (names ++ [name])) with hsame | ⟨hnone, -⟩
      · exact hsame ▸ hfresh hnot
      · exact hnone
    apply Triple.get
    intro s hs
    subst hs
    by_cases hexists : exists_ env s.fs (stage.path ++ names).reverse.reverse = true
    · rw [if_pos hexists]
      exact hmake s (.refl s)
    · rw [if_neg hexists]
      refine Triple.bind (Q := fun _ => stage.Grown names s) ?_ fun _ k' hgrown => hmake k' hgrown k' rfl
      refine Triple.tryCatch ((ih haround (fun n hn => hvalid n (List.mem_append_left _ hn))
        (hclear.mono (List.prefix_append _ _))).conseq (fun _ hs => hs) (fun _ _ h => h.1) fun _ _ h => h) ?_
      intro error
      by_cases herror : error = .exist
      · rw [if_pos herror]
        exact Triple.pure fun _ h => h
      · rw [if_neg herror]
        exact Triple.throw fun _ h => h.mono (List.prefix_append names [name])

theorem triple_makedirs (existOk : Bool) (mode : Nat) (haround : stage.Around k.fs)
    (hvalid : ∀ n ∈ names, ValidName n) (hclear : stage.Clear k.fs names) :
    Triple (fun s => s = k) (makedirs env (stage.path ++ names) mode existOk)
      (fun _ k' => stage.Grown names k k' ∧ k'.fs.IsDir (stage.loc ++ names) ∧
        (existOk = false → k.fs.node (stage.loc ++ names) = none)) fun _ k' => stage.Grown names k k' :=
  triple_makedirsOf existOk names haround hvalid hclear

end Stage

/-! ## What `makedirs` keeps -/

section Keeps
variable {env : Env} {I : Kernel → Prop} {C : Nat → Prop}
  (hmkdir : ∀ path mode, C mode → Keeps I (mkdir env path mode) fun _ => True)
include hmkdir

theorem keeps_makeDirectory (existOk : Bool) {mode : Nat} (hmode : C mode) (path : List Name) :
    Keeps I (makedirsOf.makeDirectory env existOk mode path) fun _ => True := by
  refine Keeps.tryCatch (hmkdir _ _ hmode) fun error => Keeps.bind Keeps.get fun k _ => ?_
  by_cases hexists : existOk = true ∧ isDirectory env k.fs path = true
  · rw [if_pos hexists]
    exact Keeps.pure trivial
  · rw [if_neg hexists]
    exact Keeps.throw error

/-- Whatever each `mkdir` keeps, with this mode or that of the directories above. -/
theorem keeps_makedirsOf (hC : C 0o777) (existOk : Bool) (names : List Name) : ∀ {mode : Nat}, C mode →
    Keeps I (makedirsOf env existOk mode names) fun _ => True := by
  induction names with
  | nil => exact fun hmode => keeps_makeDirectory hmkdir existOk hmode _
  | cons tail head ih =>
    intro mode hmode
    rw [makedirsOf]
    refine Keeps.bind Keeps.get fun k _ => ?_
    by_cases hexists : exists_ env k.fs head.reverse = true
    · rw [if_pos hexists]
      exact keeps_makeDirectory hmkdir existOk hmode _
    · rw [if_neg hexists]
      refine Keeps.bind (Keeps.tryCatch (ih hC) fun error => ?_) fun _ _ => keeps_makeDirectory hmkdir existOk hmode _
      by_cases herror : error = .exist
      · rw [if_pos herror]
        exact Keeps.pure trivial
      · rw [if_neg herror]
        exact Keeps.throw error

end Keeps

theorem keeps_makedirs {env : Env} {before : List Syscall} (existOk : Bool) (mode : Nat) (path : List Name) :
    Keeps (Kernel.Began before) (makedirs env path mode existOk) fun _ => True :=
  keeps_makedirsOf (C := fun _ => True) (fun path mode _ => keeps_mkdir path mode) trivial existOk _ trivial

end GetBibleSword.Lib.Posix
