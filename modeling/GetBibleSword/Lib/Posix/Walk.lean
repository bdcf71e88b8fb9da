import GetBibleSword.Lib.Posix.Tree

/-!
# Path resolution

* `advance` : along a path up to its end or the first link to follow; `walk` : through the links, of
  which at most a given number are followed; `locate` : the entry a path names, not followed;
* `walk_extends`, `walk_append` : the same walk in a larger tree, and a walk in two parts;
* `walk_plain` : where no link is met the path ends where its names say;
* `walk_through_link` : where one is met it is followed.
-/

namespace GetBibleSword.Lib.Posix

inductive Errno where
  | noent
  | exist
  | notdir
  | acces
  | loop
  | inval
  | notempty
  | other (code : Nat)
deriving DecidableEq

/-- What a process may do: the bits it masks, and in which directories, by their mode, it may search
and change entries. -/
structure Process where
  umask : Nat
  search : Loc → Nat → Bool
  modify : Loc → Nat → Bool

/-- The names of a path, or of the target of a link. -/
def components (path : Bytes) : List Name := path.splitOn separator

def isAbsolute (path : Bytes) : Bool := path.head? = some separator

/-- Where one name of a path leads. -/
inductive Move where
  | reached (loc : Loc)
  | failed (error : Errno)
  | link (loc : Loc) (target : Bytes)
deriving DecidableEq

/-- How far a path leads without following a link. -/
inductive Stop where
  | found (loc : Loc)
  | failed (error : Errno)
  | link (loc : Loc) (target : Bytes) (rest : List Name)
deriving DecidableEq

section Resolution
variable (p : Process) (fs : FileSystem)

/-- Why a directory cannot be searched. -/
def searched (loc : Loc) : Option Errno :=
  match fs.node loc with
  | some (.dir mode) => if p.search loc mode then none else some .acces
  | _ => some .notdir

/-- What the entry at `loc` leads to; `stay` is whether a link is left alone. -/
def look (stay : Bool) (loc : Loc) : Option Node → Move
  | none => .failed .noent
  | some (.link target) => if stay then .reached loc else .link loc target
  | some _ => .reached loc

/-- One name, looked up in `loc`; an empty one only asks for a directory. -/
def enter (stay : Bool) (loc : Loc) (name : Name) : Move :=
  if name = [] then
    if fs.IsDir loc then .reached loc else .failed .notdir
  else
    match searched p fs loc with
    | some error => .failed error
    | none =>
      if name = dot then .reached loc
      else if name = dotdot then .reached loc.dropLast
      else look stay (loc ++ [name]) (fs.node (loc ++ [name]))

variable (follow : Bool)

/-- From `loc` along the names; `follow` is whether a link at the end of the path is followed. -/
def advance : Loc → List Name → Stop
  | loc, [] => .found loc
  | loc, name :: rest =>
    match enter p fs (rest.isEmpty && !follow) loc name with
    | .reached l => advance l rest
    | .failed error => .failed error
    | .link l target => .link l target rest

/-- Where a path ends, and the links followed on the way. -/
structure Found where
  loc : Loc
  via : List Loc
deriving DecidableEq

/-- Where the target of a link starts. -/
def linkStart (loc : Loc) (target : Bytes) : Loc := if isAbsolute target then [] else loc.dropLast

def walk : Nat → Loc → List Name → Except Errno Found
  | 0, loc, names =>
    match advance p fs follow loc names with
    | .found l => .ok ⟨l, []⟩
    | .failed error => .error error
    | .link _ _ _ => .error .loop
  | budget + 1, loc, names =>
    match advance p fs follow loc names with
    | .found l => .ok ⟨l, []⟩
    | .failed error => .error error
    | .link l target rest =>
      if target = [] then .error .noent
      else
        match walk budget (linkStart l target) (components target ++ rest) with
        | .ok found => .ok { found with via := l :: found.via }
        | .error error => .error error

end Resolution

/-- `MAXSYMLINKS`. -/
def maxLinks : Nat := 40

/-- The entry a path names: its directory, its name, and the links followed to the directory. -/
structure Entry where
  dir : Loc
  name : Name
  via : List Loc
deriving DecidableEq

def Entry.loc (e : Entry) : Loc := e.dir ++ [e.name]

def locate (p : Process) (fs : FileSystem) (path : List Name) : Except Errno Entry :=
  match path.getLast? with
  | none => .error .exist
  | some name =>
    if ValidName name then
      match walk p fs true maxLinks [] path.dropLast with
      | .error error => .error error
      | .ok found =>
        match searched p fs found.loc with
        | some error => .error error
        | none => .ok ⟨found.loc, name, found.via⟩
    else .error .exist

/-! ## Walks in a larger tree -/

/-- Everything that is there stays. -/
def Extends (fs fs' : FileSystem) : Prop := ∀ loc node, fs.node loc = some node → fs'.node loc = some node

theorem Extends.refl (fs : FileSystem) : Extends fs fs := fun _ _ h => h

theorem Extends.trans {fs fs' fs'' : FileSystem} (h : Extends fs fs') (h' : Extends fs' fs'') :
    Extends fs fs'' := fun loc node hnode => h' loc node (h loc node hnode)

section Walks
variable {p : Process} {fs fs' : FileSystem} {follow : Bool} {loc : Loc} {names : List Name}

theorem searched_eq_none : searched p fs loc = none ↔
    ∃ mode, fs.node loc = some (.dir mode) ∧ p.search loc mode = true := by
  have hnone : (∀ mode, fs.node loc ≠ some (.dir mode)) → searched p fs loc = some .notdir := by
    intro h
    unfold searched
    cases hnode : fs.node loc with
    | none => rfl
    | some node =>
      cases node with
      | dir mode => exact absurd hnode (h mode)
      | file mode data => rfl
      | link target => rfl
      | special mode => rfl
  by_cases hdir : ∃ mode, fs.node loc = some (.dir mode)
  · obtain ⟨mode, hmode⟩ := hdir
    unfold searched
    rw [hmode]
    by_cases hs : p.search loc mode = true
    · exact iff_of_true (if_pos hs) ⟨mode, rfl, hs⟩
    · refine iff_of_false ?_ ?_
      · dsimp only
        rw [if_neg hs]
        nofun
      · rintro ⟨mode', hmode', hs'⟩
        cases hmode'
        exact hs hs'
  · rw [hnone fun mode hmode => hdir ⟨mode, hmode⟩]
    refine iff_of_false nofun ?_
    rintro ⟨mode, hmode, -⟩
    exact hdir ⟨mode, hmode⟩

theorem searched_extends (h : Extends fs fs') (hs : searched p fs loc = none) :
    searched p fs' loc = none := by
  obtain ⟨mode, hmode, hsearch⟩ := searched_eq_none.mp hs
  exact searched_eq_none.mpr ⟨mode, h loc _ hmode, hsearch⟩

theorem isDir_extends (h : Extends fs fs') (hdir : fs.IsDir loc) : fs'.IsDir loc := by
  obtain ⟨mode, hmode⟩ := FileSystem.isDir_iff.mp hdir
  exact FileSystem.isDir_iff.mpr ⟨mode, h loc _ hmode⟩

theorem enter_extends (h : Extends fs fs') {stay : Bool} {name : Name}
    (hok : ∀ error, enter p fs stay loc name ≠ .failed error) :
    enter p fs' stay loc name = enter p fs stay loc name := by
  unfold enter at hok ⊢
  by_cases hnil : name = []
  · rw [if_pos hnil] at hok
    rw [if_pos hnil, if_pos hnil]
    by_cases hdir : fs.IsDir loc
    · rw [if_pos hdir, if_pos (isDir_extends h hdir)]
    · rw [if_neg hdir] at hok
      exact absurd rfl (hok .notdir)
  rw [if_neg hnil] at hok ⊢
  rw [if_neg hnil]
  cases hs : searched p fs loc with
  | some error =>
    rw [hs] at hok
    exact absurd rfl (hok error)
  | none =>
    rw [hs] at hok
    rw [searched_extends h hs]
    dsimp only at hok ⊢
    by_cases hdot : name = dot
    · rw [if_pos hdot, if_pos hdot]
    by_cases hdotdot : name = dotdot
    · rw [if_neg hdot, if_neg hdot, if_pos hdotdot, if_pos hdotdot]
    rw [if_neg hdot, if_neg hdotdot] at hok ⊢
    rw [if_neg hdot, if_neg hdotdot]
    cases hnode : fs.node (loc ++ [name]) with
    | none =>
      rw [hnode] at hok
      exact absurd rfl (hok .noent)
    | some node => rw [h _ _ hnode]

theorem look_reached {stay : Bool} {l : Loc} {node : Option Node} (h : look stay loc node = .reached l) :
    l = loc ∧ node ≠ none := by
  cases node with
  | none => cases h
  | some node =>
    cases node with
    | link target =>
      rw [look] at h
      split_ifs at h
      exact ⟨(Move.reached.inj h).symm, nofun⟩
    | dir mode => exact ⟨(Move.reached.inj h).symm, nofun⟩
    | file mode data => exact ⟨(Move.reached.inj h).symm, nofun⟩
    | special mode => exact ⟨(Move.reached.inj h).symm, nofun⟩

theorem look_link {stay : Bool} {l : Loc} {target : Bytes} {node : Option Node}
    (h : look stay loc node = .link l target) : l = loc ∧ node = some (.link target) := by
  cases node with
  | none => cases h
  | some node =>
    cases node with
    | link target' =>
      rw [look] at h
      split_ifs at h
      obtain ⟨rfl, rfl⟩ := Move.link.inj h
      exact ⟨rfl, rfl⟩
    | dir mode => cases h
    | file mode data => cases h
    | special mode => cases h

/-- An advance that does not fail meets the same objects in a larger tree. -/
theorem advance_extends (h : Extends fs fs') (names : List Name) : ∀ loc : Loc,
    (∀ error, advance p fs follow loc names ≠ .failed error) →
    advance p fs' follow loc names = advance p fs follow loc names := by
  induction names with
  | nil => exact fun loc _ => rfl
  | cons name rest ih =>
    intro loc hok
    rw [advance] at hok ⊢
    rw [advance]
    have henter : (∀ error, enter p fs (rest.isEmpty && !follow) loc name ≠ .failed error) →
        enter p fs' (rest.isEmpty && !follow) loc name = enter p fs (rest.isEmpty && !follow) loc name :=
      fun hne => enter_extends h hne
    cases hmove : enter p fs (rest.isEmpty && !follow) loc name with
    | failed error =>
      rw [hmove] at hok
      exact absurd rfl (hok error)
    | reached l =>
      rw [henter (by simp [hmove]), hmove]
      rw [hmove] at hok
      exact ih l hok
    | link l target => rw [henter (by simp [hmove]), hmove]

theorem walk_extends (h : Extends fs fs') (budget : Nat) : ∀ {loc : Loc} {names : List Name} {found : Found},
    walk p fs follow budget loc names = .ok found → walk p fs' follow budget loc names = .ok found := by
  induction budget with
  | zero =>
    intro loc names found hw
    rw [walk] at hw ⊢
    rw [advance_extends h names loc]
    · exact hw
    · intro error hfail
      rw [hfail] at hw
      cases hw
  | succ budget ih =>
    intro loc names found hw
    rw [walk] at hw ⊢
    rw [advance_extends h names loc]
    · cases hstop : advance p fs follow loc names with
      | found l => rwa [hstop] at hw
      | failed error => rwa [hstop] at hw
      | link l target rest =>
        rw [hstop] at hw
        dsimp only at hw ⊢
        split_ifs at hw ⊢ with htarget
        cases hrest : walk p fs follow budget (linkStart l target) (components target ++ rest) with
        | error error =>
          rw [hrest] at hw
          cases hw
        | ok found' =>
          rw [ih hrest]
          rwa [hrest] at hw
    · intro error hfail
      rw [hfail] at hw
      cases hw

/-! ## Walks in two parts -/

theorem advance_append {more : List Name} (hmore : more ≠ [] ∨ follow = true) (names : List Name) :
    ∀ loc : Loc, advance p fs follow loc (names ++ more) =
      match advance p fs true loc names with
      | .found l => advance p fs follow l more
      | .failed error => .failed error
      | .link l target rest => .link l target (rest ++ more) := by
  induction names with
  | nil => exact fun loc => rfl
  | cons name rest ih =>
    intro loc
    have hstay : ((rest ++ more).isEmpty && !follow) = (rest.isEmpty && !true) := by
      rcases hmore with hmore | hmore
      · have : (rest ++ more).isEmpty = false := by
          rw [List.isEmpty_eq_false_iff]
          exact fun h => hmore (List.append_eq_nil_iff.mp h).2
        rw [this, Bool.not_true, Bool.and_false, Bool.false_and]
      · rw [hmore, Bool.not_true, Bool.and_false, Bool.and_false]
    rw [List.cons_append, advance, advance, hstay]
    cases enter p fs (rest.isEmpty && !true) loc name with
    | reached l => exact ih l
    | failed error => rfl
    | link l target => rfl

/-- A path in two parts: the second from where the first ends, with the links that are left. -/
theorem walk_append {more : List Name} (hmore : more ≠ [] ∨ follow = true) (budget : Nat) :
    ∀ {loc : Loc} {names : List Name} {found : Found}, walk p fs true budget loc names = .ok found →
    walk p fs follow budget loc (names ++ more) =
      match walk p fs follow (budget - found.via.length) found.loc more with
      | .ok last => .ok ⟨last.loc, found.via ++ last.via⟩
      | .error error => .error error := by
  have hend : ∀ (budget : Nat) {loc l : Loc} {names : List Name},
      advance p fs true loc names = .found l →
      walk p fs follow budget loc (names ++ more) = walk p fs follow budget l more := by
    intro budget loc l names h
    cases budget with
    | zero => rw [walk, walk, advance_append hmore, h]
    | succ budget => rw [walk, walk, advance_append hmore, h]
  have hplain : ∀ r : Except Errno Found, r = match r with
      | .ok last => .ok ⟨last.loc, [] ++ last.via⟩
      | .error error => .error error := by
    intro r
    cases r <;> rfl
  induction budget with
  | zero =>
    intro loc names found h
    rw [walk] at h
    cases hstop : advance p fs true loc names with
    | found l =>
      rw [hstop] at h
      obtain rfl := Except.ok.inj h
      rw [hend 0 hstop]
      exact hplain _
    | failed error =>
      rw [hstop] at h
      cases h
    | link l target rest =>
      rw [hstop] at h
      cases h
  | succ budget ih =>
    intro loc names found h
    rw [walk] at h
    cases hstop : advance p fs true loc names with
    | found l =>
      rw [hstop] at h
      obtain rfl := Except.ok.inj h
      rw [hend (budget + 1) hstop]
      exact hplain _
    | failed error =>
      rw [hstop] at h
      cases h
    | link l target rest =>
      rw [hstop] at h
      dsimp only at h
      split_ifs at h with htarget
      cases hrest : walk p fs true budget (linkStart l target) (components target ++ rest) with
      | error error =>
        rw [hrest] at h
        cases h
      | ok last =>
        rw [hrest] at h
        obtain rfl := Except.ok.inj h
        rw [walk, advance_append hmore, hstop]
        dsimp only
        rw [if_neg htarget, ← List.append_assoc, ih hrest, List.length_cons, Nat.add_sub_add_right]
        cases walk p fs follow (budget - last.via.length) last.loc more <;> rfl

/-- What a path with a separator at its end leads to is a directory. -/
theorem walk_directory (budget : Nat) : ∀ {loc : Loc} {names : List Name} {found : Found},
    walk p fs follow budget loc (names ++ [[]]) = .ok found → fs.IsDir found.loc := by
  have hlast : ∀ loc : Loc, advance p fs follow loc [[]] = if fs.IsDir loc then .found loc else .failed .notdir := by
    intro loc
    rw [advance, enter, if_pos rfl]
    split_ifs <;> rfl
  have hstop : ∀ (loc : Loc) (names : List Name), advance p fs follow loc (names ++ [[]]) =
      match advance p fs true loc names with
      | .found l => advance p fs follow l [[]]
      | .failed error => .failed error
      | .link l target rest => .link l target (rest ++ [[]]) :=
    fun loc names => advance_append (.inl (List.cons_ne_nil _ _)) names loc
  induction budget with
  | zero =>
    intro loc names found h
    rw [walk, hstop] at h
    cases hfirst : advance p fs true loc names with
    | found l =>
      rw [hfirst] at h
      dsimp only at h
      rw [hlast] at h
      by_cases hdir : fs.IsDir l
      · rw [if_pos hdir] at h
        obtain rfl := Except.ok.inj h
        exact hdir
      · rw [if_neg hdir] at h
        cases h
    | failed error =>
      rw [hfirst] at h
      cases h
    | link l target rest =>
      rw [hfirst] at h
      cases h
  | succ budget ih =>
    intro loc names found h
    rw [walk, hstop] at h
    cases hfirst : advance p fs true loc names with
    | found l =>
      rw [hfirst] at h
      dsimp only at h
      rw [hlast] at h
      by_cases hdir : fs.IsDir l
      · rw [if_pos hdir] at h
        obtain rfl := Except.ok.inj h
        exact hdir
      · rw [if_neg hdir] at h
        cases h
    | failed error =>
      rw [hfirst] at h
      cases h
    | link l target rest =>
      rw [hfirst] at h
      dsimp only at h
      split_ifs at h with htarget
      rw [← List.append_assoc] at h
      cases hrest : walk p fs follow budget (linkStart l target) (components target ++ rest ++ [[]]) with
      | error error =>
        rw [hrest] at h
        cases h
      | ok last =>
        rw [hrest] at h
        obtain rfl := Except.ok.inj h
        have hdir := ih hrest
        exact hdir

/-! ## What a walk meets -/

theorem enter_reached {stay : Bool} {name : Name} {l : Loc} (h : enter p fs stay loc name = .reached l) :
    fs.node l ≠ none := by
  unfold enter at h
  by_cases hnil : name = []
  · rw [if_pos hnil] at h
    split_ifs at h with hdir
    obtain rfl := Move.reached.inj h
    obtain ⟨mode, hmode⟩ := FileSystem.isDir_iff.mp hdir
    simp [hmode]
  rw [if_neg hnil] at h
  cases hs : searched p fs loc with
  | some error =>
    rw [hs] at h
    cases h
  | none =>
    rw [hs] at h
    dsimp only at h
    obtain ⟨mode, hmode, -⟩ := searched_eq_none.mp hs
    have hloc : fs.node loc ≠ none := by simp [hmode]
    split_ifs at h with hdot hdotdot
    · obtain rfl := Move.reached.inj h
      exact hloc
    · obtain rfl := Move.reached.inj h
      exact FileSystem.node_above hloc (List.dropLast_prefix loc)
    · obtain ⟨rfl, hnode⟩ := look_reached h
      exact hnode

theorem enter_link {stay : Bool} {name : Name} {l : Loc} {target : Bytes}
    (h : enter p fs stay loc name = .link l target) : fs.node l = some (.link target) := by
  unfold enter at h
  by_cases hnil : name = []
  · rw [if_pos hnil] at h
    split_ifs at h
  rw [if_neg hnil] at h
  cases hs : searched p fs loc with
  | some error =>
    rw [hs] at h
    cases h
  | none =>
    rw [hs] at h
    dsimp only at h
    split_ifs at h with hdot hdotdot
    obtain ⟨rfl, hnode⟩ := look_link h
    exact hnode

/-- One ordinary name. -/
theorem enter_valid {stay : Bool} {name : Name} (hname : ValidName name) :
    enter p fs stay loc name =
      match searched p fs loc with
      | some error => .failed error
      | none => look stay (loc ++ [name]) (fs.node (loc ++ [name])) := by
  obtain ⟨hnil, hdot, hdotdot, -⟩ := hname
  unfold enter
  rw [if_neg hnil, if_neg hdot, if_neg hdotdot]

/-- A path ends at an object. -/
theorem advance_found (names : List Name) : ∀ {loc l : Loc}, fs.node loc ≠ none →
    advance p fs follow loc names = .found l → fs.node l ≠ none := by
  induction names with
  | nil =>
    intro loc l hloc h
    obtain rfl := Stop.found.inj h
    exact hloc
  | cons name rest ih =>
    intro loc l hloc h
    rw [advance] at h
    cases hmove : enter p fs (rest.isEmpty && !follow) loc name with
    | reached l' =>
      rw [hmove] at h
      exact ih (enter_reached hmove) h
    | failed error =>
      rw [hmove] at h
      cases h
    | link l' target =>
      rw [hmove] at h
      cases h

theorem advance_link (names : List Name) : ∀ {loc l : Loc} {target : Bytes} {rest : List Name},
    advance p fs follow loc names = .link l target rest → fs.node l = some (.link target) := by
  induction names with
  | nil =>
    intro loc l target rest h
    cases h
  | cons name rest ih =>
    intro loc l target rest' h
    rw [advance] at h
    cases hmove : enter p fs (rest.isEmpty && !follow) loc name with
    | reached l' =>
      rw [hmove] at h
      exact ih h
    | failed error =>
      rw [hmove] at h
      cases h
    | link l' target' =>
      rw [hmove] at h
      obtain ⟨rfl, rfl, -⟩ := Stop.link.inj h
      exact enter_link hmove

theorem linkStart_node {l : Loc} {target target' : Bytes} (h : fs.node l = some (.link target')) :
    fs.node (linkStart l target) ≠ none := by
  unfold linkStart
  split_ifs
  · obtain ⟨mode, hmode⟩ := fs.root
    simp [hmode]
  · exact FileSystem.node_above (by simp [h]) (List.dropLast_prefix l)

/-- A walk ends at an object, and what it followed are links. -/
theorem walk_found (budget : Nat) : ∀ {loc : Loc} {names : List Name} {found : Found},
    fs.node loc ≠ none → walk p fs follow budget loc names = .ok found →
    fs.node found.loc ≠ none ∧ ∀ l ∈ found.via, ∃ target, fs.node l = some (.link target) := by
  have hend : ∀ {loc l : Loc} {names : List Name}, fs.node loc ≠ none →
      advance p fs follow loc names = .found l →
      fs.node l ≠ none ∧ ∀ l' ∈ ([] : List Loc), ∃ target, fs.node l' = some (.link target) :=
    fun hloc h => ⟨advance_found _ hloc h, by simp⟩
  induction budget with
  | zero =>
    intro loc names found hloc h
    rw [walk] at h
    cases hstop : advance p fs follow loc names with
    | found l =>
      rw [hstop] at h
      obtain rfl := Except.ok.inj h
      exact hend hloc hstop
    | failed error =>
      rw [hstop] at h
      cases h
    | link l target rest =>
      rw [hstop] at h
      cases h
  | succ budget ih =>
    intro loc names found hloc h
    rw [walk] at h
    cases hstop : advance p fs follow loc names with
    | found l =>
      rw [hstop] at h
      obtain rfl := Except.ok.inj h
      exact hend hloc hstop
    | failed error =>
      rw [hstop] at h
      cases h
    | link l target rest =>
      rw [hstop] at h
      dsimp only at h
      split_ifs at h
      have hlink := advance_link names hstop
      cases hrest : walk p fs follow budget (linkStart l target) (components target ++ rest) with
      | error error =>
        rw [hrest] at h
        cases h
      | ok last =>
        rw [hrest] at h
        obtain rfl := Except.ok.inj h
        obtain ⟨hfound, hvia⟩ := ih (linkStart_node hlink) hrest
        refine ⟨hfound, fun l' hl' => ?_⟩
        rcases List.mem_cons.mp hl' with rfl | hl'
        · exact ⟨target, hlink⟩
        · exact hvia l' hl'

/-- A move ends below directories that can be searched. -/
theorem enter_searched {stay : Bool} {name : Name} {l : Loc}
    (hloc : ∀ q, q <+: loc → q ≠ loc → searched p fs q = none)
    (h : enter p fs stay loc name = .reached l ∨ ∃ target, enter p fs stay loc name = .link l target) :
    ∀ q, q <+: l → q ≠ l → searched p fs q = none := by
  unfold enter at h
  by_cases hnil : name = []
  · rw [if_pos hnil] at h
    split_ifs at h with hdir
    · obtain h | ⟨target, h⟩ := h
      · obtain rfl := Move.reached.inj h
        exact hloc
      · cases h
    · obtain h | ⟨target, h⟩ := h <;> cases h
  rw [if_neg hnil] at h
  cases hs : searched p fs loc with
  | some error =>
    rw [hs] at h
    obtain h | ⟨target, h⟩ := h <;> cases h
  | none =>
    rw [hs] at h
    dsimp only at h
    split_ifs at h with hdot hdotdot
    · obtain h | ⟨target, h⟩ := h
      · obtain rfl := Move.reached.inj h
        exact hloc
      · cases h
    · obtain h | ⟨target, h⟩ := h
      · obtain rfl := Move.reached.inj h
        intro q hq hne
        apply hloc q (hq.trans (List.dropLast_prefix loc))
        rintro rfl
        exact hne (hq.eq_of_length_le (by simp))
      · cases h
    · have hl : l = loc ++ [name] := by
        obtain h | ⟨target, h⟩ := h
        · exact (look_reached h).1
        · exact (look_link h).1
      subst hl
      intro q hq hne
      rcases List.prefix_concat_iff.mp hq with rfl | hq
      · exact absurd rfl hne
      · by_cases heq : q = loc
        · rwa [heq]
        · exact hloc q hq heq

theorem advance_searched (names : List Name) : ∀ {loc : Loc},
    (∀ q, q <+: loc → q ≠ loc → searched p fs q = none) →
    ∀ l, (advance p fs follow loc names = .found l ∨
      ∃ target rest, advance p fs follow loc names = .link l target rest) →
    ∀ q, q <+: l → q ≠ l → searched p fs q = none := by
  induction names with
  | nil =>
    intro loc hloc l h
    rw [advance] at h
    obtain h | ⟨target, rest, h⟩ := h
    · obtain rfl := Stop.found.inj h
      exact hloc
    · cases h
  | cons name rest ih =>
    intro loc hloc l h
    rw [advance] at h
    cases hmove : enter p fs (rest.isEmpty && !follow) loc name with
    | reached l' =>
      rw [hmove] at h
      exact ih (enter_searched hloc (.inl hmove)) l h
    | failed error =>
      rw [hmove] at h
      obtain h | ⟨target, rest, h⟩ := h <;> cases h
    | link l' target =>
      rw [hmove] at h
      obtain h | ⟨target', rest', h⟩ := h
      · cases h
      · obtain ⟨rfl, rfl, -⟩ := Stop.link.inj h
        exact enter_searched hloc (.inr ⟨_, hmove⟩)

/-- Every directory above the end of a walk from the root can be searched. -/
theorem walk_searched (budget : Nat) : ∀ {loc : Loc} {names : List Name} {found : Found},
    (∀ q, q <+: loc → q ≠ loc → searched p fs q = none) →
    walk p fs follow budget loc names = .ok found →
    ∀ q, q <+: found.loc → q ≠ found.loc → searched p fs q = none := by
  induction budget with
  | zero =>
    intro loc names found hloc h
    rw [walk] at h
    cases hstop : advance p fs follow loc names with
    | found l =>
      rw [hstop] at h
      obtain rfl := Except.ok.inj h
      exact advance_searched names hloc l (.inl hstop)
    | failed error =>
      rw [hstop] at h
      cases h
    | link l target rest =>
      rw [hstop] at h
      cases h
  | succ budget ih =>
    intro loc names found hloc h
    rw [walk] at h
    cases hstop : advance p fs follow loc names with
    | found l =>
      rw [hstop] at h
      obtain rfl := Except.ok.inj h
      exact advance_searched names hloc l (.inl hstop)
    | failed error =>
      rw [hstop] at h
      cases h
    | link l target rest =>
      rw [hstop] at h
      dsimp only at h
      split_ifs at h
      have habove := advance_searched names hloc l (.inr ⟨target, rest, hstop⟩)
      have hstart : ∀ q, q <+: linkStart l target → q ≠ linkStart l target → searched p fs q = none := by
        unfold linkStart
        split_ifs
        · intro q hq hne
          exact absurd (List.prefix_nil.mp hq) hne
        · intro q hq hne
          apply habove q (hq.trans (List.dropLast_prefix l))
          rintro rfl
          exact hne (hq.eq_of_length_le (by simp))
      cases hrest : walk p fs follow budget (linkStart l target) (components target ++ rest) with
      | error error =>
        rw [hrest] at h
        cases h
      | ok last =>
        rw [hrest] at h
        obtain rfl := Except.ok.inj h
        exact @ih _ _ last hstart hrest

/-- What is no link is reached whether links are followed or not. -/
theorem enter_follow {name : Name} {l : Loc} (h : enter p fs true loc name = .reached l)
    (hlink : ∀ target, fs.node l ≠ some (.link target)) : enter p fs false loc name = .reached l := by
  unfold enter at h ⊢
  by_cases hnil : name = []
  · rwa [if_pos hnil] at h ⊢
  rw [if_neg hnil] at h ⊢
  cases hs : searched p fs loc with
  | some error =>
    rw [hs] at h
    cases h
  | none =>
    rw [hs] at h
    dsimp only at h ⊢
    split_ifs at h ⊢ with hdot hdotdot
    · exact h
    · exact h
    · obtain ⟨rfl, hnode⟩ := look_reached h
      cases hthere : fs.node (loc ++ [name]) with
      | none => exact absurd hthere hnode
      | some node =>
        cases node with
        | link target => exact absurd hthere (hlink target)
        | _ => rfl

theorem enter_stay {name : Name} {l : Loc} {target : Bytes} : enter p fs true loc name ≠ .link l target := by
  intro h
  have hnode := enter_link h
  unfold enter at h
  by_cases hnil : name = []
  · rw [if_pos hnil] at h
    split_ifs at h
  rw [if_neg hnil] at h
  cases hs : searched p fs loc with
  | some error =>
    rw [hs] at h
    cases h
  | none =>
    rw [hs] at h
    dsimp only at h
    split_ifs at h with hdot hdotdot
    obtain ⟨rfl, -⟩ := look_link h
    rw [hnode] at h
    cases h

theorem advance_follow (names : List Name) : ∀ {loc : Loc},
    (∀ l, advance p fs false loc names = .found l → (∀ target, fs.node l ≠ some (.link target)) →
      advance p fs true loc names = .found l) ∧
    (∀ l target rest, advance p fs false loc names = .link l target rest →
      advance p fs true loc names = .link l target rest) := by
  induction names with
  | nil => exact fun {loc} => ⟨fun l h _ => h, fun l target rest h => h⟩
  | cons name rest ih =>
    intro loc
    rw [advance, advance]
    cases rest with
    | cons next rest =>
      rw [show ((next :: rest).isEmpty && !false) = false from rfl,
        show ((next :: rest).isEmpty && !true) = false from rfl]
      cases hmove : enter p fs false loc name with
      | reached l' => exact ih
      | failed error => exact ⟨nofun, nofun⟩
      | link l' target' => exact ⟨nofun, fun l target more h => h⟩
    | nil =>
      rw [show (([] : List Name).isEmpty && !false) = true from rfl,
        show (([] : List Name).isEmpty && !true) = false from rfl]
      cases hmove : enter p fs true loc name with
      | reached l' =>
        refine ⟨fun l h hlink => ?_, nofun⟩
        obtain rfl := Stop.found.inj h
        rw [enter_follow hmove hlink]
        rfl
      | failed error => exact ⟨nofun, nofun⟩
      | link l' target' => exact absurd hmove enter_stay

/-- Where a path leads without following a link at its end, if that is none. -/
theorem walk_follow (budget : Nat) : ∀ {loc : Loc} {names : List Name} {found : Found},
    walk p fs false budget loc names = .ok found → (∀ target, fs.node found.loc ≠ some (.link target)) →
    walk p fs true budget loc names = .ok found := by
  induction budget with
  | zero =>
    intro loc names found h hlink
    rw [walk] at h ⊢
    cases hstop : advance p fs false loc names with
    | found l =>
      rw [hstop] at h
      obtain rfl := Except.ok.inj h
      rw [(advance_follow names).1 l hstop hlink]
    | failed error =>
      rw [hstop] at h
      cases h
    | link l target rest =>
      rw [hstop] at h
      cases h
  | succ budget ih =>
    intro loc names found h hlink
    rw [walk] at h ⊢
    cases hstop : advance p fs false loc names with
    | found l =>
      rw [hstop] at h
      obtain rfl := Except.ok.inj h
      rw [(advance_follow names).1 l hstop hlink]
    | failed error =>
      rw [hstop] at h
      cases h
    | link l target rest =>
      rw [hstop] at h
      rw [(advance_follow names).2 l target rest hstop]
      dsimp only at h ⊢
      by_cases htarget : target = []
      · rw [if_pos htarget] at h
        cases h
      · rw [if_neg htarget] at h ⊢
        cases hrest : walk p fs false budget (linkStart l target) (components target ++ rest) with
        | error error =>
          rw [hrest] at h
          cases h
        | ok last =>
          rw [hrest] at h
          obtain rfl := Except.ok.inj h
          rw [ih hrest hlink]

/-! ## Walks along ordinary names -/

theorem advance_cons {name : Name} (hname : ValidName name) (rest : List Name) :
    advance p fs follow loc (name :: rest) =
      match searched p fs loc with
      | some error => .failed error
      | none =>
        match look (rest.isEmpty && !follow) (loc ++ [name]) (fs.node (loc ++ [name])) with
        | .reached l => advance p fs follow l rest
        | .failed error => .failed error
        | .link l target => .link l target rest := by
  rw [advance, enter_valid hname]
  cases searched p fs loc with
  | none => rfl
  | some error => rfl

/-- No link is followed on the way: the path ends where its names say. -/
theorem advance_plain (names : List Name) : ∀ {loc : Loc}, (∀ name ∈ names, ValidName name) →
    (∀ q, q ≠ [] → q <+: names → (q ≠ names ∨ follow = true) →
      ∀ target, fs.node (loc ++ q) ≠ some (.link target)) →
    (∃ error, advance p fs follow loc names = .failed error) ∨
      advance p fs follow loc names = .found (loc ++ names) := by
  induction names with
  | nil => exact fun {loc} _ _ => .inr (by rw [advance, List.append_nil])
  | cons name rest ih =>
    intro loc hvalid hlinks
    rw [advance_cons (hvalid name List.mem_cons_self)]
    cases hs : searched p fs loc with
    | some error => exact .inl ⟨error, rfl⟩
    | none =>
      dsimp only
      cases hlook : look (rest.isEmpty && !follow) (loc ++ [name]) (fs.node (loc ++ [name])) with
      | failed error => exact .inl ⟨error, rfl⟩
      | reached l =>
        obtain ⟨rfl, -⟩ := look_reached hlook
        have hrest := @ih (loc ++ [name]) (fun n hn => hvalid n (List.mem_cons_of_mem _ hn))
          fun q hq hpre hfollow target => by
            rw [List.append_assoc]
            apply hlinks (name :: q)
            · simp
            · exact (List.prefix_cons_inj name).mpr hpre
            · exact hfollow.imp_left fun hne h => hne (List.cons.inj h).2
        rwa [List.append_assoc] at hrest
      | link l target =>
        -- a link that is followed is met where the hypothesis excludes it
        obtain ⟨-, hnode⟩ := look_link hlook
        refine absurd hnode (hlinks [name] (by simp) (by simp) ?_ target)
        cases rest with
        | cons next rest => exact .inl (by simp)
        | nil =>
          right
          rw [hnode, look] at hlook
          cases follow with
          | true => rfl
          | false => exact absurd hlook (by simp)

theorem walk_plain {budget : Nat} {found : Found} (hvalid : ∀ name ∈ names, ValidName name)
    (hlinks : ∀ q, q ≠ [] → q <+: names → (q ≠ names ∨ follow = true) →
      ∀ target, fs.node (loc ++ q) ≠ some (.link target))
    (h : walk p fs follow budget loc names = .ok found) : found = ⟨loc ++ names, []⟩ := by
  have hstop := advance_plain (p := p) names hvalid hlinks
  cases budget with
  | zero =>
    rw [walk] at h
    rcases hstop with ⟨error, hstop⟩ | hstop
    · rw [hstop] at h
      cases h
    · rw [hstop] at h
      exact (Except.ok.inj h).symm
  | succ budget =>
    rw [walk] at h
    rcases hstop with ⟨error, hstop⟩ | hstop
    · rw [hstop] at h
      cases h
    · rw [hstop] at h
      exact (Except.ok.inj h).symm

/-- Through directories that can be searched a path is found. -/
theorem advance_dirs (names : List Name) : ∀ {loc : Loc}, (∀ name ∈ names, ValidName name) →
    (∀ q, q <+: names → q ≠ names → searched p fs (loc ++ q) = none) →
    fs.node (loc ++ names) ≠ none →
    (names ≠ [] → follow = true → ∀ target, fs.node (loc ++ names) ≠ some (.link target)) →
    advance p fs follow loc names = .found (loc ++ names) := by
  induction names with
  | nil => exact fun {loc} _ _ _ _ => by rw [advance, List.append_nil]
  | cons name rest ih =>
    intro loc hvalid hdirs hthere hlast
    have hs : searched p fs loc = none := by simpa using hdirs [] List.nil_prefix (by simp)
    rw [advance_cons (hvalid name List.mem_cons_self), hs]
    dsimp only
    have hreached : look (rest.isEmpty && !follow) (loc ++ [name]) (fs.node (loc ++ [name])) =
        .reached (loc ++ [name]) := by
      cases rest with
      | cons next rest =>
        obtain ⟨mode, hmode, -⟩ := searched_eq_none.mp (hdirs [name] (by simp) (by simp))
        rw [hmode]
        rfl
      | nil =>
        cases hnode : fs.node (loc ++ [name]) with
        | none => exact absurd hnode hthere
        | some node =>
          cases node with
          | dir mode => rfl
          | file mode data => rfl
          | special mode => rfl
          | link target =>
            cases follow with
            | true => exact absurd hnode (hlast (by simp) rfl target)
            | false => rfl
    rw [hreached]
    dsimp only
    rw [List.append_cons loc name rest] at hthere hlast ⊢
    apply ih
    · exact fun n hn => hvalid n (List.mem_cons_of_mem _ hn)
    · intro q hq hne
      rw [← List.append_cons loc name q]
      exact hdirs (name :: q) ((List.prefix_cons_inj name).mpr hq) fun h => hne (List.cons.inj h).2
    · exact hthere
    · intro _ hfollow target
      exact hlast (by simp) hfollow target

theorem walk_dirs (budget : Nat) (hvalid : ∀ name ∈ names, ValidName name)
    (hdirs : ∀ q, q <+: names → q ≠ names → searched p fs (loc ++ q) = none)
    (hthere : fs.node (loc ++ names) ≠ none)
    (hlast : names ≠ [] → follow = true → ∀ target, fs.node (loc ++ names) ≠ some (.link target)) :
    walk p fs follow budget loc names = .ok ⟨loc ++ names, []⟩ := by
  have hstop := advance_dirs names hvalid hdirs hthere hlast
  cases budget with
  | zero => rw [walk, hstop]
  | succ budget => rw [walk, hstop]

/-- A separator at a directory stays there. -/
theorem walk_slash (budget : Nat) (hdir : fs.IsDir loc) (names : List Name) :
    walk p fs follow budget loc ([] :: names) = walk p fs follow budget loc names := by
  have hstop : advance p fs follow loc ([] :: names) = advance p fs follow loc names := by
    rw [advance]
    unfold enter
    rw [if_pos rfl, if_pos hdir]
  cases budget with
  | zero => rw [walk, walk, hstop]
  | succ budget => rw [walk, walk, hstop]

/-- The first link on a path is followed. -/
theorem advance_to_link {rest : List Name} (hrest : rest ≠ [] ∨ follow = true) {target : Bytes}
    (names : List Name) : ∀ {loc : Loc}, names ≠ [] → (∀ name ∈ names, ValidName name) →
    (∀ q, q <+: names → q ≠ names → searched p fs (loc ++ q) = none) →
    fs.node (loc ++ names) = some (.link target) →
    advance p fs follow loc (names ++ rest) = .link (loc ++ names) target rest := by
  induction names with
  | nil => exact fun {loc} h => absurd rfl h
  | cons name more ih =>
    intro loc _ hvalid hdirs hlink
    have hs : searched p fs loc = none := by simpa using hdirs [] List.nil_prefix (by simp)
    rw [List.cons_append, advance_cons (hvalid name List.mem_cons_self), hs]
    dsimp only
    cases more with
    | nil =>
      have hstay : (rest.isEmpty && !follow) = false := by
        rcases hrest with hrest | hrest
        · rw [List.isEmpty_eq_false_iff.mpr hrest, Bool.false_and]
        · rw [hrest, Bool.not_true, Bool.and_false]
      rw [hlink, List.nil_append, hstay]
      rfl
    | cons next more =>
      obtain ⟨mode, hmode, -⟩ := searched_eq_none.mp (hdirs [name] (by simp) (by simp))
      rw [hmode]
      show advance p fs follow (loc ++ [name]) (next :: more ++ rest) = _
      rw [List.append_cons loc name (next :: more)] at hlink ⊢
      apply ih
      · simp
      · exact fun n hn => hvalid n (List.mem_cons_of_mem _ hn)
      · intro q hq hne
        rw [← List.append_cons loc name q]
        exact hdirs (name :: q) ((List.prefix_cons_inj name).mpr hq) fun h => hne (List.cons.inj h).2
      · exact hlink

theorem walk_through_link {budget : Nat} {found : Found} {rest : List Name}
    (hrest : rest ≠ [] ∨ follow = true) {target : Bytes} (hnames : names ≠ [])
    (hvalid : ∀ name ∈ names, ValidName name)
    (hdirs : ∀ q, q <+: names → q ≠ names → searched p fs (loc ++ q) = none)
    (hlink : fs.node (loc ++ names) = some (.link target))
    (h : walk p fs follow budget loc (names ++ rest) = .ok found) : loc ++ names ∈ found.via := by
  have hstop := advance_to_link hrest names hnames hvalid hdirs hlink
  cases budget with
  | zero =>
    rw [walk, hstop] at h
    cases h
  | succ budget =>
    rw [walk, hstop] at h
    dsimp only at h
    split_ifs at h
    cases hlast : walk p fs follow budget (linkStart (loc ++ names) target) (components target ++ rest) with
    | error error =>
      rw [hlast] at h
      cases h
    | ok last =>
      rw [hlast] at h
      obtain rfl := Except.ok.inj h
      exact List.mem_cons_self

theorem locate_eq_ok {parent : List Name} {name : Name} {e : Entry} (h : locate p fs (parent ++ [name]) = .ok e) :
    ValidName name ∧ walk p fs true maxLinks [] parent = .ok ⟨e.dir, e.via⟩ ∧ searched p fs e.dir = none ∧
      e.name = name := by
  unfold locate at h
  rw [List.getLast?_concat, List.dropLast_concat] at h
  dsimp only at h
  split_ifs at h with hname
  cases hw : walk p fs true maxLinks [] parent with
  | error error =>
    rw [hw] at h
    cases h
  | ok found =>
    rw [hw] at h
    dsimp only at h
    cases hs : searched p fs found.loc with
    | some error =>
      rw [hs] at h
      cases h
    | none =>
      rw [hs] at h
      obtain rfl := Except.ok.inj h
      exact ⟨hname, rfl, hs, rfl⟩

end Walks

end GetBibleSword.Lib.Posix
