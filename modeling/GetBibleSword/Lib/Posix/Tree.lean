import GetBibleSword.Lib.Bytes

/-!
# A tree of files

* `FileSystem` : the objects by their location; every object but the root lies in a directory;
* `insert`, `replace`, `remove`, `move` : the changes;
* `entries` : the names in a directory.
-/

namespace GetBibleSword.Lib.Posix

abbrev Name := Bytes

/-- The names from the root down. -/
abbrev Loc := List Name

inductive Node where
  | dir (mode : Nat)
  | file (mode : Nat) (data : Bytes)
  | link (target : Bytes)
  | special (mode : Nat)
deriving DecidableEq

def separator : Byte := octet 0x2f

def dot : Name := ascii "."

def dotdot : Name := ascii ".."

/-- A name an entry of a directory can have. -/
def ValidName (name : Name) : Prop :=
  name ≠ [] ∧ name ≠ dot ∧ name ≠ dotdot ∧ separator ∉ name ∧ octet 0 ∉ name

instance (name : Name) : Decidable (ValidName name) := inferInstanceAs (Decidable (_ ∧ _))

structure FileSystem where
  node : Loc → Option Node
  /-- The locations that may hold something. -/
  support : List Loc
  root : ∃ mode, node [] = some (.dir mode)
  tree : ∀ loc name, node (loc ++ [name]) ≠ none → ∃ mode, node loc = some (.dir mode)
  named : ∀ loc name, node (loc ++ [name]) ≠ none → ValidName name
  listed : ∀ loc, node loc ≠ none → loc ∈ support

namespace FileSystem
variable {fs : FileSystem} {loc above : Loc} {name : Name}

/-- What lies below nothing is nothing. -/
theorem node_below (h : fs.node above = none) (rest : Loc) : fs.node (above ++ rest) = none := by
  induction rest using List.reverseRecOn with
  | nil => rwa [List.append_nil]
  | append_singleton rest name ih =>
    by_contra hnode
    rw [← List.append_assoc] at hnode
    obtain ⟨mode, hmode⟩ := fs.tree _ name hnode
    rw [ih] at hmode
    cases hmode

theorem node_above (h : fs.node loc ≠ none) (hpre : above <+: loc) : fs.node above ≠ none := by
  obtain ⟨rest, rfl⟩ := hpre
  exact fun hnone => h (node_below hnone rest)

theorem valid_of_node (h : fs.node loc ≠ none) : ∀ name ∈ loc, ValidName name := by
  induction loc using List.reverseRecOn with
  | nil => exact fun name hname => absurd hname List.not_mem_nil
  | append_singleton loc last ih =>
    intro name hname
    rcases List.mem_append.mp hname with hname | hname
    · exact ih (node_above h (List.prefix_append loc [last])) name hname
    · rw [List.mem_singleton.mp hname]
      exact fs.named loc last h

/-- What has something below it is a directory. -/
theorem dir_of_below {rest : Loc} (h : fs.node (above ++ rest) ≠ none) (hrest : rest ≠ []) :
    ∃ mode, fs.node above = some (.dir mode) := by
  obtain ⟨name, rest, rfl⟩ := List.exists_cons_of_ne_nil hrest
  apply fs.tree above name
  apply node_above h
  exact ⟨rest, by simp⟩

/-! ## One object -/

/-- The nodes with one location set. -/
def setNode (node : Loc → Option Node) (loc : Loc) (new : Node) : Loc → Option Node :=
  fun l => if l = loc then some new else node l

theorem setNode_self (node : Loc → Option Node) (loc : Loc) (new : Node) :
    setNode node loc new loc = some new := if_pos rfl

theorem setNode_of_ne {node : Loc → Option Node} {l : Loc} (new : Node) (h : l ≠ loc) :
    setNode node loc new l = node l := if_neg h

theorem setNode_setNode (node : Loc → Option Node) (loc : Loc) (old new : Node) :
    setNode (setNode node loc old) loc new = setNode node loc new := by
  funext l
  by_cases hl : l = loc
  · rw [hl, setNode_self, setNode_self]
  · rw [setNode_of_ne new hl, setNode_of_ne old hl, setNode_of_ne new hl]

theorem setNode_eq_self {node : Loc → Option Node} {same : Node} (h : node loc = some same) :
    setNode node loc same = node := by
  funext l
  by_cases hl : l = loc
  · rw [hl, setNode_self, h]
  · rw [setNode_of_ne same hl]

def IsDir (fs : FileSystem) (loc : Loc) : Prop :=
  match fs.node loc with
  | some (.dir _) => True
  | _ => False

instance (fs : FileSystem) (loc : Loc) : Decidable (fs.IsDir loc) := by
  unfold IsDir
  split
  · exact isTrue trivial
  · exact isFalse id

theorem isDir_iff : fs.IsDir loc ↔ ∃ mode, fs.node loc = some (.dir mode) := by
  unfold IsDir
  split
  · rename_i mode h
    exact ⟨fun _ => ⟨mode, h⟩, fun _ => trivial⟩
  · rename_i h
    exact ⟨False.elim, fun hdir => hdir.elim h⟩

/-- A tree of nothing but its root. -/
def bare (mode : Nat) : FileSystem where
  node loc := if loc = [] then some (.dir mode) else none
  support := [[]]
  root := ⟨mode, if_pos rfl⟩
  tree := fun loc name h => absurd (if_neg (by simp)) h
  named := fun loc name h => absurd (if_neg (by simp)) h
  listed := by
    intro loc h
    by_cases hloc : loc = []
    · exact List.mem_singleton.mpr hloc
    · exact absurd (if_neg hloc) h

/-- A new entry of a directory. -/
def insert (fs : FileSystem) (loc : Loc) (name : Name) (new : Node) (hdir : fs.IsDir loc)
    (hfresh : fs.node (loc ++ [name]) = none) (hname : ValidName name) : FileSystem where
  node := setNode fs.node (loc ++ [name]) new
  support := (loc ++ [name]) :: fs.support
  root := by
    obtain ⟨mode, h⟩ := fs.root
    exact ⟨mode, by rw [setNode_of_ne new (by simp), h]⟩
  tree := by
    intro l n h
    by_cases hl : l = loc ++ [name]
    · -- nothing lies below the fresh location
      rw [hl, setNode_of_ne new (by simp), node_below hfresh] at h
      exact absurd rfl h
    rw [setNode_of_ne new hl]
    by_cases hn : l ++ [n] = loc ++ [name]
    · rw [(List.append_inj' hn rfl).1]
      exact isDir_iff.mp hdir
    · rw [setNode_of_ne new hn] at h
      exact fs.tree l n h
  named := by
    intro l n h
    by_cases hn : l ++ [n] = loc ++ [name]
    · have := (List.append_inj' hn rfl).2
      rwa [(List.cons.inj this).1]
    · rw [setNode_of_ne new hn] at h
      exact fs.named l n h
  listed := by
    intro l h
    by_cases hl : l = loc ++ [name]
    · exact hl ▸ List.mem_cons_self
    · rw [setNode_of_ne new hl] at h
      exact List.mem_cons_of_mem _ (fs.listed l h)

/-- Another node in the place of one that is there; a directory stays one. -/
def replace (fs : FileSystem) (loc : Loc) (new : Node) (hthere : fs.node loc ≠ none)
    (hkind : fs.IsDir loc → ∃ mode, new = .dir mode) : FileSystem where
  node := setNode fs.node loc new
  support := fs.support
  root := by
    by_cases hl : loc = []
    · obtain ⟨mode, hmode⟩ := hkind (hl ▸ isDir_iff.mpr fs.root)
      exact ⟨mode, by rw [hl, setNode_self, hmode]⟩
    · obtain ⟨mode, h⟩ := fs.root
      exact ⟨mode, by rw [setNode_of_ne new (Ne.symm hl), h]⟩
  tree := by
    intro l n h
    have hold : fs.node (l ++ [n]) ≠ none := by
      by_cases hn : l ++ [n] = loc
      · exact hn ▸ hthere
      · rwa [setNode_of_ne new hn] at h
    obtain ⟨mode, hmode⟩ := fs.tree l n hold
    by_cases hl : l = loc
    · obtain ⟨mode', hnew⟩ := hkind (hl ▸ isDir_iff.mpr ⟨mode, hmode⟩)
      exact ⟨mode', by rw [hl, setNode_self, hnew]⟩
    · exact ⟨mode, by rw [setNode_of_ne new hl, hmode]⟩
  named := by
    intro l n h
    by_cases hn : l ++ [n] = loc
    · exact fs.named l n (hn ▸ hthere)
    · rw [setNode_of_ne new hn] at h
      exact fs.named l n h
  listed := by
    intro l h
    by_cases hl : l = loc
    · exact fs.listed l (hl ▸ hthere)
    · rw [setNode_of_ne new hl] at h
      exact fs.listed l h

/-! ## A subtree -/

/-- The tree without what is at or below a location. -/
def remove (fs : FileSystem) (loc : Loc) (hroot : loc ≠ []) : FileSystem where
  node := fun l => if loc <+: l then none else fs.node l
  support := fs.support
  root := by
    obtain ⟨mode, h⟩ := fs.root
    exact ⟨mode, by rw [if_neg (fun hp => hroot (List.prefix_nil.mp hp)), h]⟩
  tree := by
    intro l n h
    split_ifs at h with hp
    · exact absurd rfl h
    · have hl : ¬ loc <+: l := fun hpre => hp (hpre.trans (List.prefix_append l [n]))
      rw [if_neg hl]
      exact fs.tree l n h
  named := by
    intro l n h
    split_ifs at h with hp
    · exact absurd rfl h
    · exact fs.named l n h
  listed := by
    intro l h
    split_ifs at h with hp
    · exact absurd rfl h
    · exact fs.listed l h

/-- The nodes with the subtree at `old` put at `new`. -/
def moveNode (node : Loc → Option Node) (old new : Loc) : Loc → Option Node :=
  fun l => if new <+: l then node (old ++ l.drop new.length) else if old <+: l then none else node l

section Move
variable {node : Loc → Option Node} {old new l : Loc}

theorem moveNode_new (rest : Loc) : moveNode node old new (new ++ rest) = node (old ++ rest) := by
  rw [moveNode, if_pos (List.prefix_append new rest), List.drop_left]

theorem moveNode_old (hnew : ¬ new <+: l) (hold : old <+: l) : moveNode node old new l = none := by
  rw [moveNode, if_neg hnew, if_pos hold]

theorem moveNode_apart (hnew : ¬ new <+: l) (hold : ¬ old <+: l) : moveNode node old new l = node l := by
  rw [moveNode, if_neg hnew, if_neg hold]

/-- A prefix of `l ++ [n]` is all of it or a prefix of `l`. -/
theorem prefix_concat {a l : Loc} {n : Name} (h : a <+: l ++ [n]) : a = l ++ [n] ∨ a <+: l :=
  List.prefix_concat_iff.mp h

end Move

/-- The subtree at `old` as an entry `name` of `loc`, where nothing is. -/
def move (fs : FileSystem) (old loc : Loc) (name : Name) (hdir : fs.IsDir loc) (hname : ValidName name)
    (hapart : ¬ old <+: loc) : FileSystem where
  node := moveNode fs.node old (loc ++ [name])
  support := fs.support ++ fs.support.map fun l => loc ++ [name] ++ l.drop old.length
  root := by
    have hne : old ≠ [] := fun h => hapart (h ▸ List.nil_prefix)
    obtain ⟨mode, h⟩ := fs.root
    refine ⟨mode, ?_⟩
    rw [moveNode_apart, h]
    · intro hp
      simpa using List.prefix_nil.mp hp
    · exact fun hp => hne (List.prefix_nil.mp hp)
  tree := by
    intro l n h
    by_cases hl : (loc ++ [name]) <+: l
    · obtain ⟨rest, rfl⟩ := hl
      rw [List.append_assoc, moveNode_new, ← List.append_assoc] at h
      rw [moveNode_new]
      exact fs.tree _ n h
    by_cases hn : (loc ++ [name]) <+: l ++ [n]
    · have heq := (prefix_concat hn).resolve_right hl
      obtain rfl := (List.append_inj' heq rfl).1
      rw [moveNode_apart hl hapart]
      exact isDir_iff.mp hdir
    · by_cases ho : old <+: l ++ [n]
      · exact absurd (moveNode_old hn ho) h
      · rw [moveNode_apart hn ho] at h
        rw [moveNode_apart hl fun hp => ho (hp.trans (List.prefix_append l [n]))]
        exact fs.tree l n h
  named := by
    intro l n h
    by_cases hl : (loc ++ [name]) <+: l
    · obtain ⟨rest, rfl⟩ := hl
      rw [List.append_assoc, moveNode_new, ← List.append_assoc] at h
      exact fs.named _ n h
    by_cases hn : (loc ++ [name]) <+: l ++ [n]
    · have heq := (prefix_concat hn).resolve_right hl
      have := (List.append_inj' heq rfl).2
      rwa [← (List.cons.inj this).1]
    · by_cases ho : old <+: l ++ [n]
      · exact absurd (moveNode_old hn ho) h
      · rw [moveNode_apart hn ho] at h
        exact fs.named l n h
  listed := by
    intro l h
    rw [List.mem_append]
    by_cases hl : (loc ++ [name]) <+: l
    · obtain ⟨rest, rfl⟩ := hl
      rw [moveNode_new] at h
      exact .inr (List.mem_map.mpr ⟨old ++ rest, fs.listed _ h, by rw [List.drop_left]⟩)
    · by_cases ho : old <+: l
      · exact absurd (moveNode_old hl ho) h
      · rw [moveNode_apart hl ho] at h
        exact .inl (fs.listed l h)

/-! ## Directories -/

/-- The names in a directory, in the order the tree lists them. -/
def entries (fs : FileSystem) (loc : Loc) : List Name :=
  (fs.support.filterMap fun l =>
    if l.dropLast = loc ∧ (fs.node l).isSome then l.getLast? else none).dedup

theorem mem_entries : name ∈ fs.entries loc ↔ fs.node (loc ++ [name]) ≠ none := by
  rw [entries, List.mem_dedup, List.mem_filterMap]
  constructor
  · intro h
    obtain ⟨l, -, hl⟩ := h
    split_ifs at hl with hcond
    obtain ⟨hloc, hsome⟩ := hcond
    have hl' : l = loc ++ [name] := by rw [← hloc, List.dropLast_append_getLast? name hl]
    rw [← hl']
    exact Option.isSome_iff_ne_none.mp hsome
  · intro h
    refine ⟨loc ++ [name], fs.listed _ h, ?_⟩
    rw [if_pos ⟨List.dropLast_concat, Option.isSome_iff_ne_none.mpr h⟩, List.getLast?_concat]

theorem nodup_entries (fs : FileSystem) (loc : Loc) : (fs.entries loc).Nodup := List.nodup_dedup _

end FileSystem

end GetBibleSword.Lib.Posix
