import GetBibleSword.Core.DiscoveryObjects

/-!
# Discovery and the order of iteration

What `discover_artifacts` returns for any order of directory iteration and any result of `std::sort`.

* `Below root path` : the form of every candidate's path; equal elements or relative paths are equal paths;
* `accepted`, `mem_candidates` : the candidates that are sorted;
* `Complete`, `Determined` : one list, increasing, with every configuration file and every object;
* `determined_iff` : so it is exactly where the candidates are `Unambiguous`.
-/

namespace GetBibleSword.Core
open GetBibleSword.Lib Posix FsPath

/-! ## Paths below the root -/

/-- A normal path at or below the root. -/
def Below (root : Loc) (path : Path) : Prop :=
  ∃ rest trailing, path = absolutePath (root ++ rest) trailing ∧ ∀ name ∈ root ++ rest, PlainName name

section Below
variable {root : Loc} {path path' : Path} {name : Name} {names : List Name} {trailing : Bool}

theorem Below.elements_inj (h : Below root path) (h' : Below root path') (heq : elements path = elements path') :
    path = path' := by
  obtain ⟨rest, trailing, rfl, hplain⟩ := h
  obtain ⟨rest', trailing', rfl, hplain'⟩ := h'
  exact FsPath.elements_inj hplain hplain' heq

theorem isWithinRoot_iff (hroot : ∀ name ∈ root, PlainName name) (h : ∀ name ∈ names, PlainName name) :
    isWithinRoot (absolutePath root false) (absolutePath names trailing) = true ↔ root <+: names := by
  unfold isWithinRoot
  dsimp only
  constructor
  · intro hwithin
    by_contra hout
    have hup := @lexicallyRelative_outside _ _ trailing h hroot hout
    have hhead := hup.elements
    have hne : lexicallyRelative (absolutePath names trailing) (absolutePath root false) ≠ [] := by
      intro hnil
      rw [hnil] at hhead
      cases hhead
    rw [if_neg hne] at hwithin
    cases helements : elements (lexicallyRelative (absolutePath names trailing) (absolutePath root false)) with
    | nil =>
      rw [helements] at hhead
      cases hhead
    | cons first others =>
      rw [helements] at hwithin hhead
      obtain rfl := Option.some.inj hhead
      simp at hwithin
  · intro hpre
    obtain ⟨rest, rfl⟩ := hpre
    have hrest : ∀ name ∈ rest, PlainName name := fun n hn => h n (List.mem_append_right _ hn)
    obtain ⟨habsolute, first, hfirst, hne⟩ := @elements_relativePath _ trailing hrest
    rw [lexicallyRelative_below h, if_neg (relativePath_ne_nil hrest)]
    cases helements : elements (relativePath rest trailing) with
    | nil =>
      rw [helements] at hfirst
      cases hfirst
    | cons first' others =>
      rw [helements] at hfirst
      obtain rfl := Option.some.inj hfirst
      rw [habsolute]
      simpa using hne

/-- What is accepted lies below the root. -/
theorem below_of_normalizeCandidate (hroot : ∀ name ∈ root, PlainName name)
    (h : normalizeCandidate (absolutePath root false) path = some path') : Below root path' := by
  have hnormal : ∀ start : Path, isAbsolute start = true →
      isWithinRoot (absolutePath root false) (lexicallyNormal start) = true → lexicallyNormal start = path' →
      Below root path' := by
    intro start hstart hwithin heq
    obtain ⟨names, trailing, hform, hplain⟩ := lexicallyNormal_absolute hstart
    rw [hform] at hwithin heq
    obtain ⟨rest, rfl⟩ := (isWithinRoot_iff hroot hplain).mp hwithin
    exact ⟨rest, trailing, heq.symm, hplain⟩
  unfold normalizeCandidate at h
  dsimp only at h
  by_cases habsolute : isAbsolute path = true
  · rw [if_pos habsolute] at h
    split_ifs at h with hwithin
    exact hnormal path habsolute hwithin (Option.some.inj h)
  · rw [if_neg habsolute] at h
    split_ifs at h with hwithin
    exact hnormal _ (isAbsolute_join (isAbsolute_absolutePath root false) path) hwithin (Option.some.inj h)

/-- Entries below a path below the root are. -/
theorem Below.objectPath : ∀ {names : List Name} {path : Path}, Below root path → (∀ name ∈ names, PlainName name) →
    Below root (objectPath path names) := by
  intro names
  induction names with
  | nil => exact fun h _ => h
  | cons name names ih =>
    intro path h hnames
    rw [objectPath_cons]
    refine ih ?_ fun n hn => hnames n (List.mem_cons_of_mem _ hn)
    obtain ⟨rest, trailing, rfl, hplain⟩ := h
    have hname := hnames name List.mem_cons_self
    refine ⟨rest ++ [name], false, ?_, ?_⟩
    · rw [join_absolutePath hplain hname, List.append_assoc]
    · intro n hn
      rw [← List.append_assoc] at hn
      rcases List.mem_append.mp hn with hn | hn
      · exact hplain n hn
      · rwa [List.mem_singleton.mp hn]

end Below

/-! ## The root, and the objects below it -/

section Root
variable {disk : Disk} {swordRoot data base : Path} {root loc : Loc} {names : List Name}

theorem node_of_canonical (h : disk.canonical swordRoot = .ok root) : disk.fs.node root ≠ none ∧
    ∀ above, above <+: root → above ≠ root → searched disk.process disk.fs above = none := by
  unfold Disk.canonical at h
  cases hwalk : walk disk.process disk.fs true maxLinks [] (components (cString swordRoot)) with
  | error error =>
    rw [hwalk] at h
    cases h
  | ok found =>
    rw [hwalk] at h
    obtain rfl := Except.ok.inj h
    have hstart : disk.fs.node [] ≠ none := by
      obtain ⟨mode, hmode⟩ := disk.fs.root
      rw [hmode]
      exact Option.some_ne_none _
    refine ⟨(walk_found maxLinks hstart hwalk).1, walk_searched maxLinks ?_ hwalk⟩
    exact fun above habove hne => absurd (List.prefix_nil.mp habove) hne

theorem valid_of_canonical (h : disk.canonical swordRoot = .ok root) : ∀ name ∈ root, ValidName name :=
  FileSystem.valid_of_node (node_of_canonical h).1

theorem plain_of_canonical (h : disk.canonical swordRoot = .ok root) : ∀ name ∈ root, PlainName name :=
  fun name hname => .of_valid (valid_of_canonical h name hname)

/-- The root is there under its own name. -/
theorem symlinkStatus_root (h : disk.canonical swordRoot = .ok root) :
    disk.symlinkStatus (absolutePath root false) = some root := by
  obtain ⟨hthere, habove⟩ := node_of_canonical h
  have hslash : disk.fs.IsDir [] := FileSystem.isDir_iff.mpr disk.fs.root
  have hvalid := FileSystem.valid_of_node hthere
  have hwalk : walk disk.process disk.fs false maxLinks [] (components (cString (absolutePath root false))) =
      .ok ⟨root, []⟩ := by
    rw [cString_absolutePath hvalid, components_absolutePath (plain_of_canonical h), List.cons_append, walk_slash maxLinks hslash]
    by_cases hnil : root = []
    · subst hnil
      rw [if_pos (.inr rfl), List.nil_append, walk_slash maxLinks hslash]
      rfl
    · rw [if_neg (fun hcond => hcond.elim Bool.false_ne_true hnil), List.append_nil]
      exact walk_dirs maxLinks hvalid habove hthere fun _ hfollow => absurd hfollow Bool.false_ne_true
  unfold Disk.symlinkStatus
  rw [hwalk]

theorem DataObject.valid (h : DataObject disk data base loc names) : ∀ name ∈ names, ValidName name := by
  cases h with
  | @atOrBelow loc names hexists hthere =>
    intro name hname
    exact FileSystem.valid_of_node hthere name (List.mem_append_right _ hname)
  | @beside found name hmissing hparent hthere hname =>
    intro n hn
    rw [List.mem_singleton.mp hn]
    exact disk.fs.named _ _ hthere

/-- Every object lies below the root. -/
theorem DataObject.below (h : disk.canonical swordRoot = .ok root) (hdata : Below root data)
    (hobject : DataObject disk data base loc names) :
    Below root base ∧ ∀ name ∈ names, PlainName name := by
  refine ⟨?_, fun name hname => .of_valid (hobject.valid name hname)⟩
  cases hobject with
  | atOrBelow hexists hthere => exact hdata
  | beside hmissing hparent hthere hname =>
    obtain ⟨rest, trailing, rfl, hplain⟩ := hdata
    rw [parentPath_absolutePath hplain]
    cases trailing with
    | true => exact ⟨rest, false, rfl, hplain⟩
    | false =>
      by_cases hrest : rest = []
      · subst hrest
        rw [List.append_nil, symlinkStatus_root h] at hmissing
        cases hmissing
      · refine ⟨rest.dropLast, false, ?_, ?_⟩
        · rw [if_neg Bool.false_ne_true, List.dropLast_append_of_ne_nil hrest]
        · intro n hn
          rcases List.mem_append.mp hn with hn | hn
          · exact hplain n (List.mem_append_left _ hn)
          · exact hplain n (List.mem_append_right _ (List.mem_of_mem_dropLast hn))

theorem DataObject.path_below (h : disk.canonical swordRoot = .ok root) (hdata : Below root data)
    (hobject : DataObject disk data base loc names) : Below root (objectPath base names) :=
  (hobject.below h hdata).1.objectPath (hobject.below h hdata).2

/-- The path of names below a base. -/
theorem objectPath_absolutePath : ∀ {names : List Name} {front : List Name}
    {trailing : Bool}, (∀ name ∈ front ++ names, PlainName name) → names ≠ [] →
    objectPath (absolutePath front trailing) names = absolutePath (front ++ names) false := by
  intro names
  induction names with
  | nil => exact fun _ hne => absurd rfl hne
  | cons name rest ih =>
    intro front trailing hplain _
    have hfront : ∀ n ∈ front, PlainName n := fun n hn => hplain n (List.mem_append_left _ hn)
    have hname := hplain name (List.mem_append_right _ List.mem_cons_self)
    rw [objectPath_cons, join_absolutePath hfront hname]
    by_cases hrest : rest = []
    · rw [hrest]
      rfl
    · rw [List.append_cons front name rest] at hplain ⊢
      exact ih hplain hrest

/-- Of the objects of a DataPath each has a relative path of its own. -/
theorem objectPath_inj {names' : List Name} (hbase : Below root base) (h : ∀ name ∈ names, PlainName name)
    (h' : ∀ name ∈ names', PlainName name)
    (heq : lexicallyRelative (objectPath base names) (absolutePath root false) =
      lexicallyRelative (objectPath base names') (absolutePath root false)) : names = names' := by
  obtain ⟨rest, trailing, rfl, hplain⟩ := hbase
  have hall : ∀ {l : List Name}, (∀ name ∈ l, PlainName name) → ∀ name ∈ root ++ rest ++ l, PlainName name := by
    intro l hl name hname
    rcases List.mem_append.mp hname with hname | hname
    · exact hplain name hname
    · exact hl name hname
  have hrelative : ∀ {l : List Name}, (∀ name ∈ l, PlainName name) →
      ∃ t, lexicallyRelative (objectPath (absolutePath (root ++ rest) trailing) l) (absolutePath root false) =
        relativePath (rest ++ l) t := by
    intro l hl
    by_cases hnil : l = []
    · subst hnil
      exact ⟨trailing, by rw [List.append_nil]; exact lexicallyRelative_below hplain⟩
    · refine ⟨false, ?_⟩
      have hbelow := hall hl
      rw [objectPath_absolutePath hbelow hnil]
      rw [List.append_assoc] at hbelow ⊢
      exact lexicallyRelative_below hbelow
  have hrest : ∀ {l : List Name}, (∀ name ∈ l, PlainName name) → ∀ name ∈ rest ++ l, PlainName name := by
    intro l hl name hname
    apply hall hl name
    rw [List.append_assoc]
    exact List.mem_append_right _ hname
  obtain ⟨t, ht⟩ := hrelative h
  obtain ⟨t', ht'⟩ := hrelative h'
  rw [ht, ht'] at heq
  by_cases hne : rest ++ names = []
  · by_cases hne' : rest ++ names' = []
    · rw [(List.append_eq_nil_iff.mp hne).2, (List.append_eq_nil_iff.mp hne').2]
    · exact (List.append_cancel_left (relativePath_inj (hrest h') (hrest h) hne' heq.symm).1).symm
  · exact List.append_cancel_left (relativePath_inj (hrest h) (hrest h') hne heq).1

end Root

/-! ## The candidates -/

/-- The configuration files that are accepted. -/
def accepted (root : Loc) (configs : List Path) : List Path :=
  configs.filterMap (normalizeCandidate (absolutePath root false))

/-- The DataPath, where there is one and it does not escape. -/
def resolved (root : Loc) (dataPath : Path) : Option Path :=
  if dataPath = [] then none else normalizeCandidate (absolutePath root false) dataPath

/-- What is to be found: increasing, each accepted configuration file and each object, and nothing else. -/
structure Complete (disk : Disk) (root : Loc) (dataPath : Path) (configs : List Path)
    (output : List ArtifactCandidate) : Prop where
  increasing : output.Pairwise fun a b => a.relativePath < b.relativePath
  configurations : ∀ path ∈ accepted root configs, ∃ c ∈ output, c.absolutePath = path
  objects : ∀ data base loc names, resolved root dataPath = some data → DataObject disk data base loc names →
    ∃ c ∈ output, c.absolutePath = objectPath base names
  only : ∀ c ∈ output, (∃ path ∈ accepted root configs, c = candidate (absolutePath root false) path "configuration") ∨
    ∃ data base loc names, resolved root dataPath = some data ∧ DataObject disk data base loc names ∧
      c = candidate (absolutePath root false) (objectPath base names) (dataRole disk data)

/-- There is one result, whatever the order of iteration and the sort, and it is complete. -/
def Determined (disk : Disk) (swordRoot dataPath : Path) (configs : List Path) : Prop :=
  ∃ output, (∀ order, disk.Lists order → ∀ sort, (∀ l, Sorting ArtifactCandidate.relativePath l (sort l)) →
      (discoverArtifacts (disk.discovery order) sort swordRoot dataPath configs).1 = output) ∧
    ∀ root, disk.canonical swordRoot = .ok root → Complete disk root dataPath configs output

/-- No two configuration files, and no configuration file and object that can be reached, have one relative
path; and no directory that cannot be read keeps the iteration from an object. -/
structure Unambiguous (disk : Disk) (root : Loc) (dataPath : Path) (configs : List Path) : Prop where
  configurations : ∀ path ∈ accepted root configs, ∀ path' ∈ accepted root configs,
    lexicallyRelative path (absolutePath root false) = lexicallyRelative path' (absolutePath root false) → path = path'
  apart : ∀ data base loc names, resolved root dataPath = some data → DataObject disk data base loc names →
    disk.Reached loc names → ∀ path ∈ accepted root configs,
      lexicallyRelative path (absolutePath root false) ≠
        lexicallyRelative (objectPath base names) (absolutePath root false)
  readable : ∀ data base loc names, resolved root dataPath = some data → DataObject disk data base loc names →
    ∀ below, Opened disk data loc below → disk.unreadable (loc ++ below) ≠ none →
      names <+: below ∨ objectPath base names ∈ accepted root configs

section Candidates
variable {disk : Disk} {order : DirectoryOrder} {sort : List ArtifactCandidate → List ArtifactCandidate}
  {swordRoot data dataPath base path : Path} {configs : List Path} {root loc : Loc} {names : List Name}
  {c : ArtifactCandidate}

/-- What is sorted. -/
def sortedCandidates (disk : Disk) (order : DirectoryOrder) (root : Loc) (dataPath : Path) (configs : List Path) :
    List ArtifactCandidate :=
  (configurations (disk.discovery order) (absolutePath root false) configs).1 ++
    (dataCandidates (disk.discovery order) (absolutePath root false) dataPath).1

theorem discoverArtifacts_fst (h : disk.canonical swordRoot = .ok root) :
    (discoverArtifacts (disk.discovery order) sort swordRoot dataPath configs).1 =
      unique (fun c => elements c.absolutePath) (sort (sortedCandidates disk order root dataPath configs)) := by
  have hcanonical : (disk.discovery order).canonical swordRoot = .ok (absolutePath root false) := by
    show ((disk.canonical swordRoot).map fun loc => absolutePath loc false).mapError disk.message = _
    rw [h]
    rfl
  unfold discoverArtifacts
  rw [hcanonical]
  rfl

theorem configurations_fst (disk : Disk) (order : DirectoryOrder) (root : Loc) (configs : List Path) :
    (configurations (disk.discovery order) (absolutePath root false) configs).1 =
      (accepted root configs).map fun path => candidate (absolutePath root false) path "configuration" := by
  induction configs with
  | nil => rfl
  | cons config configs ih =>
    unfold configurations accepted
    dsimp only
    rw [List.filterMap_cons]
    cases normalizeCandidate (absolutePath root false) config with
    | some normalized =>
      dsimp only
      rw [List.map_cons, ih]
      rfl
    | none => exact ih

theorem mem_sortedCandidates : c ∈ sortedCandidates disk order root dataPath configs ↔
    (∃ path ∈ accepted root configs, c = candidate (absolutePath root false) path "configuration") ∨
      ∃ data path, resolved root dataPath = some data ∧ path ∈ listing disk order data ∧
        c = candidate (absolutePath root false) path (dataRole disk data) := by
  unfold sortedCandidates
  rw [List.mem_append, configurations_fst, List.mem_map]
  apply or_congr
  · exact exists_congr fun path => and_congr_right' eq_comm
  · unfold resolved
    by_cases hne : dataPath = []
    · rw [if_pos hne]
      unfold dataCandidates
      rw [if_pos hne]
      simp
    · rw [if_neg hne]
      cases hdata : normalizeCandidate (absolutePath root false) dataPath with
      | none =>
        unfold dataCandidates
        rw [if_neg hne, hdata]
        simp
      | some data =>
        rw [dataCandidates_fst hne hdata, List.mem_map]
        constructor
        · intro h
          obtain ⟨path, hpath, rfl⟩ := h
          exact ⟨data, path, rfl, hpath, rfl⟩
        · intro h
          obtain ⟨data', path, hsame, hpath, rfl⟩ := h
          obtain rfl := Option.some.inj hsame
          exact ⟨path, hpath, rfl⟩

theorem below_of_accepted (hroot : disk.canonical swordRoot = .ok root) (h : path ∈ accepted root configs) :
    Below root path := by
  obtain ⟨config, -, hconfig⟩ := List.mem_filterMap.mp h
  exact below_of_normalizeCandidate (plain_of_canonical hroot) hconfig

theorem below_of_resolved (hroot : disk.canonical swordRoot = .ok root) (h : resolved root dataPath = some data) :
    Below root data := by
  unfold resolved at h
  split_ifs at h
  exact below_of_normalizeCandidate (plain_of_canonical hroot) h

/-- Every candidate lies below the root and has the relative path of its path. -/
theorem below_of_mem (hroot : disk.canonical swordRoot = .ok root) (horder : disk.Lists order)
    (h : c ∈ sortedCandidates disk order root dataPath configs) :
    Below root c.absolutePath ∧ c.relativePath = lexicallyRelative c.absolutePath (absolutePath root false) := by
  rcases mem_sortedCandidates.mp h with ⟨path, hpath, rfl⟩ | ⟨data, path, hdata, hpath, rfl⟩
  · exact ⟨below_of_accepted hroot hpath, rfl⟩
  · obtain ⟨base, loc, names, hobject, -, rfl⟩ := listing_sound horder hpath
    exact ⟨hobject.path_below hroot (below_of_resolved hroot hdata), rfl⟩

/-- Candidates `std::unique` takes for one have one sort key. -/
theorem relativePath_of_elements (hroot : disk.canonical swordRoot = .ok root) (horder : disk.Lists order) :
    ∀ a ∈ sortedCandidates disk order root dataPath configs, ∀ b ∈ sortedCandidates disk order root dataPath configs,
      elements a.absolutePath = elements b.absolutePath → a.relativePath = b.relativePath := by
  intro a ha b hb heq
  obtain ⟨hbelow, hrelative⟩ := below_of_mem hroot horder ha
  obtain ⟨hbelow', hrelative'⟩ := below_of_mem hroot horder hb
  rw [hrelative, hrelative', hbelow.elements_inj hbelow' heq]

end Candidates

/-! ## One result -/

section Determined
variable {disk : Disk} {order : DirectoryOrder} {sort : List ArtifactCandidate → List ArtifactCandidate}
  {swordRoot data dataPath base base' path : Path} {configs : List Path} {root loc loc' : Loc}
  {names names' : List Name} {c : ArtifactCandidate}

/-- The objects of a DataPath are reached from one place. -/
theorem DataObject.same (h : DataObject disk data base loc names) (h' : DataObject disk data base' loc' names') :
    base = base' ∧ loc = loc' := by
  cases h with
  | atOrBelow hexists _ =>
    cases h' with
    | atOrBelow hexists' _ => exact ⟨rfl, Option.some.inj (hexists.symm.trans hexists')⟩
    | beside hmissing _ _ _ =>
      rw [hexists] at hmissing
      cases hmissing
  | beside hmissing hparent _ _ =>
    cases h' with
    | atOrBelow hexists _ =>
      rw [hmissing] at hexists
      cases hexists
    | beside _ hparent' _ _ =>
      refine ⟨rfl, ?_⟩
      rw [Except.ok.inj (hparent.symm.trans hparent')]

/-- Where nothing is ambiguous the candidates are the same in every order. -/
theorem Unambiguous.mem_sortedCandidates (h : Unambiguous disk root dataPath configs) (horder : disk.Lists order) :
    c ∈ sortedCandidates disk order root dataPath configs ↔
      (∃ path ∈ accepted root configs, c = candidate (absolutePath root false) path "configuration") ∨
        ∃ data base loc names, resolved root dataPath = some data ∧ DataObject disk data base loc names ∧
          objectPath base names ∉ accepted root configs ∧
          c = candidate (absolutePath root false) (objectPath base names) (dataRole disk data) := by
  rw [Core.mem_sortedCandidates]
  apply or_congr_right
  constructor
  · intro hc
    obtain ⟨data, path, hdata, hpath, rfl⟩ := hc
    obtain ⟨base, loc, names, hobject, hreached, rfl⟩ := listing_sound horder hpath
    refine ⟨data, base, loc, names, hdata, hobject, fun haccepted => ?_, rfl⟩
    exact h.apart data base loc names hdata hobject hreached _ haccepted rfl
  · intro hc
    obtain ⟨data, base, loc, names, hdata, hobject, hnew, rfl⟩ := hc
    refine ⟨data, objectPath base names, hdata, ?_, rfl⟩
    rcases listing_complete horder hobject with hlisted | ⟨below, hopened, hread, hnot⟩
    · exact hlisted
    · exact absurd (h.readable data base loc names hdata hobject below hopened hread) (not_or.mpr ⟨hnot, hnew⟩)

/-- And what has one sort key is one. -/
theorem Unambiguous.consistent (h : Unambiguous disk root dataPath configs)
    (hroot : disk.canonical swordRoot = .ok root) (horder : disk.Lists order) :
    Consistent ArtifactCandidate.relativePath (sortedCandidates disk order root dataPath configs) := by
  have hmixed : ∀ path ∈ accepted root configs, ∀ data found, resolved root dataPath = some data →
      found ∈ listing disk order data →
      lexicallyRelative path (absolutePath root false) ≠ lexicallyRelative found (absolutePath root false) := by
    intro path hpath data found hdata hfound
    obtain ⟨base, loc, names, hobject, hreached, rfl⟩ := listing_sound horder hfound
    exact h.apart data base loc names hdata hobject hreached path hpath
  intro a ha b hb heq
  rcases Core.mem_sortedCandidates.mp ha with ⟨path, hpath, rfl⟩ | ⟨data, path, hdata, hpath, rfl⟩
  · rcases Core.mem_sortedCandidates.mp hb with ⟨path', hpath', rfl⟩ | ⟨data, path', hdata, hpath', rfl⟩
    · rw [h.configurations path hpath path' hpath' heq]
    · exact absurd heq (hmixed path hpath data path' hdata hpath')
  · rcases Core.mem_sortedCandidates.mp hb with ⟨path', hpath', rfl⟩ | ⟨data', path', hdata', hpath', rfl⟩
    · exact absurd heq.symm (hmixed path' hpath' data path hdata hpath)
    · obtain rfl := Option.some.inj (hdata.symm.trans hdata')
      obtain ⟨base, loc, names, hobject, -, rfl⟩ := listing_sound horder hpath
      obtain ⟨base', loc', names', hobject', -, rfl⟩ := listing_sound horder hpath'
      obtain ⟨rfl, rfl⟩ := hobject.same hobject'
      have hbelow := below_of_resolved hroot hdata
      rw [objectPath_inj (hobject.below hroot hbelow).1 (hobject.below hroot hbelow).2
        (hobject'.below hroot hbelow).2 heq]

section Result
variable (h : Unambiguous disk root dataPath configs) (hroot : disk.canonical swordRoot = .ok root)
  (horder : disk.Lists order) (hsort : ∀ l, Sorting ArtifactCandidate.relativePath l (sort l))
include h hroot horder hsort

theorem Unambiguous.increasing :
    (discoverArtifacts (disk.discovery order) sort swordRoot dataPath configs).1.Pairwise
      fun a b => a.relativePath < b.relativePath := by
  rw [discoverArtifacts_fst hroot]
  have hmem := fun a => (hsort (sortedCandidates disk order root dataPath configs)).perm.mem_iff (a := a)
  apply pairwise_unique (hsort _).sorted
  intro a ha b hb heq
  rw [h.consistent hroot horder a ((hmem a).mp ha) b ((hmem b).mp hb) heq]

theorem Unambiguous.mem_discoverArtifacts :
    c ∈ (discoverArtifacts (disk.discovery order) sort swordRoot dataPath configs).1 ↔
      c ∈ sortedCandidates disk order root dataPath configs := by
  rw [discoverArtifacts_fst hroot]
  have hmem := fun a => (hsort (sortedCandidates disk order root dataPath configs)).perm.mem_iff (a := a)
  rw [← hmem c]
  refine @mem_unique_iff _ _ ArtifactCandidate.relativePath _ c _ _ _ ?_ ?_
  · intro a ha b hb heq
    exact relativePath_of_elements hroot horder a ((hmem a).mp ha) b ((hmem b).mp hb) heq
  · intro a ha b hb heq
    exact h.consistent hroot horder a ((hmem a).mp ha) b ((hmem b).mp hb) heq

theorem Unambiguous.complete :
    Complete disk root dataPath configs (discoverArtifacts (disk.discovery order) sort swordRoot dataPath configs).1 where
  increasing := h.increasing hroot horder hsort
  configurations := by
    intro path hpath
    refine ⟨candidate (absolutePath root false) path "configuration", ?_, rfl⟩
    rw [h.mem_discoverArtifacts hroot horder hsort, h.mem_sortedCandidates horder]
    exact .inl ⟨path, hpath, rfl⟩
  objects := by
    intro data base loc names hdata hobject
    by_cases hconfig : objectPath base names ∈ accepted root configs
    · refine ⟨candidate (absolutePath root false) (objectPath base names) "configuration", ?_, rfl⟩
      rw [h.mem_discoverArtifacts hroot horder hsort, h.mem_sortedCandidates horder]
      exact .inl ⟨_, hconfig, rfl⟩
    · refine ⟨candidate (absolutePath root false) (objectPath base names) (dataRole disk data), ?_, rfl⟩
      rw [h.mem_discoverArtifacts hroot horder hsort, h.mem_sortedCandidates horder]
      exact .inr ⟨data, base, loc, names, hdata, hobject, hconfig, rfl⟩
  only := by
    intro c hc
    rw [h.mem_discoverArtifacts hroot horder hsort, h.mem_sortedCandidates horder] at hc
    apply hc.imp_right
    intro hdata
    obtain ⟨data, base, loc, names, hdata, hobject, -, rfl⟩ := hdata
    exact ⟨data, base, loc, names, hdata, hobject, rfl⟩

end Result

theorem determined_of_unambiguous
    (h : ∀ root, disk.canonical swordRoot = .ok root → Unambiguous disk root dataPath configs) :
    Determined disk swordRoot dataPath configs := by
  have hsort := sorting_mergeSort ArtifactCandidate.relativePath
  have horder : disk.Lists disk.fs.entries := fun loc => List.Perm.refl _
  refine ⟨(discoverArtifacts (disk.discovery disk.fs.entries) _ swordRoot dataPath configs).1, ?_,
    fun root hroot => (h root hroot).complete hroot horder hsort⟩
  intro order' horder' sort' hsort'
  cases hroot : disk.canonical swordRoot with
  | error error =>
    have hanswer : ∀ order, (disk.discovery order).canonical swordRoot = .error (disk.message error) := by
      intro order
      show ((disk.canonical swordRoot).map fun loc => absolutePath loc false).mapError disk.message = _
      rw [hroot]
      rfl
    unfold discoverArtifacts
    rw [hanswer, hanswer]
  | ok root =>
    have hclear := h root hroot
    apply eq_of_mem_iff (hclear.increasing hroot horder' hsort') (hclear.increasing hroot horder hsort)
    intro c
    rw [hclear.mem_discoverArtifacts hroot horder' hsort', hclear.mem_discoverArtifacts hroot horder hsort,
      hclear.mem_sortedCandidates horder', hclear.mem_sortedCandidates horder]

/-- A sort that may put a candidate first keeps it. -/
theorem exists_sort_keeping (hroot : disk.canonical swordRoot = .ok root) (horder : disk.Lists order)
    (hc : c ∈ sortedCandidates disk order root dataPath configs) :
    ∃ sort, (∀ l, Sorting ArtifactCandidate.relativePath l (sort l)) ∧
      c ∈ (discoverArtifacts (disk.discovery order) sort swordRoot dataPath configs).1 := by
  classical
  obtain ⟨before, after, hsorting, hbefore⟩ := @exists_sorting_first _ _ _ ArtifactCandidate.relativePath _ _ _ hc
  refine ⟨Function.update (fun l => l.mergeSort fun a b => decide (a.relativePath ≤ b.relativePath))
    (sortedCandidates disk order root dataPath configs) (before ++ c :: after), ?_, ?_⟩
  · intro l
    by_cases hl : l = sortedCandidates disk order root dataPath configs
    · subst hl
      rwa [Function.update_self]
    · rw [Function.update_of_ne hl]
      exact sorting_mergeSort ArtifactCandidate.relativePath l
  · rw [discoverArtifacts_fst hroot, Function.update_self]
    apply mem_unique_of_first
    intro b hb heq
    have hmem : b ∈ sortedCandidates disk order root dataPath configs :=
      hsorting.perm.mem_iff.mp (List.mem_append_left _ hb)
    exact absurd (relativePath_of_elements hroot horder b hmem c hc heq) (ne_of_lt (hbefore b hb))

/-- One complete result leaves nothing ambiguous. -/
theorem unambiguous_of_determined (h : Determined disk swordRoot dataPath configs)
    (hroot : disk.canonical swordRoot = .ok root) : Unambiguous disk root dataPath configs := by
  obtain ⟨output, hall, hcomplete⟩ := h
  have houtput := hcomplete root hroot
  have hsort := sorting_mergeSort ArtifactCandidate.relativePath
  have hrelative : ∀ c ∈ output, c.relativePath = lexicallyRelative c.absolutePath (absolutePath root false) := by
    intro c hc
    rcases houtput.only c hc with ⟨path, -, rfl⟩ | ⟨data, base, loc, names, -, -, rfl⟩
    · rfl
    · rfl
  refine ⟨?_, ?_, ?_⟩
  · intro path hpath path' hpath' heq
    obtain ⟨c, hc, rfl⟩ := houtput.configurations path hpath
    obtain ⟨c', hc', rfl⟩ := houtput.configurations path' hpath'
    rw [← hrelative c hc, ← hrelative c' hc'] at heq
    rw [eq_of_key_eq houtput.increasing hc hc' heq]
  · -- two sorts, one with the configuration file first and one with the object
    intro data base loc names hdata hobject hreached path hpath heq
    obtain ⟨order, horder, hlisted⟩ := listing_reached hobject hreached
    have hconfig : candidate (absolutePath root false) path "configuration" ∈
        sortedCandidates disk order root dataPath configs := mem_sortedCandidates.mpr (.inl ⟨path, hpath, rfl⟩)
    have hdatum : candidate (absolutePath root false) (objectPath base names) (dataRole disk data) ∈
        sortedCandidates disk order root dataPath configs :=
      mem_sortedCandidates.mpr (.inr ⟨data, _, hdata, hlisted, rfl⟩)
    obtain ⟨sort, hsorting, hkept⟩ := exists_sort_keeping hroot horder hconfig
    obtain ⟨sort', hsorting', hkept'⟩ := exists_sort_keeping hroot horder hdatum
    rw [hall order horder sort hsorting] at hkept
    rw [hall order horder sort' hsorting'] at hkept'
    have hsame := eq_of_key_eq houtput.increasing hkept hkept' heq
    exact absurd (congrArg ArtifactCandidate.role hsame).symm (dataRole_ne disk data)
  · intro data base loc names hdata hobject below hopened hread
    by_contra hhidden
    obtain ⟨hnot, hnew⟩ := not_or.mp hhidden
    obtain ⟨order, horder, hstopped⟩ := listing_stopped hobject hopened hread
    obtain ⟨c, hc, hpath⟩ := houtput.objects data base loc names hdata hobject
    rw [← hall order horder _ hsort, discoverArtifacts_fst hroot] at hc
    have hmem := (hsort _).perm.mem_iff.mp (mem_of_mem_unique hc)
    rcases mem_sortedCandidates.mp hmem with ⟨path, haccepted, rfl⟩ | ⟨data', path, hdata', hlisted, rfl⟩
    · exact hnew (hpath ▸ haccepted)
    · obtain rfl := Option.some.inj (hdata.symm.trans hdata')
      obtain ⟨above, habove, rfl⟩ := hstopped path hlisted
      have hbelow := hobject.below hroot (below_of_resolved hroot hdata)
      have hplain : ∀ name ∈ above, PlainName name := by
        obtain ⟨mode, hmode⟩ := FileSystem.isDir_iff.mp hopened.1
        have hthere : disk.fs.node (loc ++ below) ≠ none := by
          rw [hmode]
          exact Option.some_ne_none _
        intro name hname
        exact .of_valid (FileSystem.valid_of_node hthere name (List.mem_append_right _ (habove.subset hname)))
      have hsame := objectPath_inj hbelow.1 hbelow.2 hplain
        (congrArg (lexicallyRelative · (absolutePath root false)) hpath.symm)
      exact hnot (hsame ▸ habove)

/-- Discovery has one complete result exactly where the candidates are unambiguous. -/
theorem determined_iff (disk : Disk) (swordRoot dataPath : Path) (configs : List Path) :
    Determined disk swordRoot dataPath configs ↔
      ∀ root, disk.canonical swordRoot = .ok root → Unambiguous disk root dataPath configs :=
  ⟨fun h _ hroot => unambiguous_of_determined h hroot, determined_of_unambiguous⟩

end Determined

/-! ## A configuration file below the DataPath -/

/-- A root with one configuration file. -/
def configTree : FileSystem :=
  ((FileSystem.bare 0o755).insert [] (ascii "mods.d") (.dir 0o755) (by decide) (by decide) (by decide)).insert
    [ascii "mods.d"] (ascii "kjv.conf") (.file 0o644 []) (by decide) (by decide) (by decide)

/-- A root with a `mods.conf` of one section and an empty `mods.d`. -/
def masterTree : FileSystem :=
  ((FileSystem.bare 0o755).insert [] (ascii "mods.conf") (.file 0o644 (ascii "[KJV]")) (by decide) (by decide)
    (by decide)).insert [] (ascii "mods.d") (.dir 0o755) (by decide) (by decide) (by decide)

/-- Everything may be searched and read. -/
def openDisk (fs : FileSystem) : Disk where
  process := { umask := 0o022, search := fun _ _ => true, modify := fun _ _ => true }
  fs := fs
  unreadable _ := none
  message _ := []

/-- A DataPath that is the directory of the configuration file. -/
theorem configTree_not_determined :
    ¬ Determined (openDisk configTree) (ascii "/") (ascii "./mods.d") [ascii "/mods.d/kjv.conf"] := by
  intro h
  have hroot : (openDisk configTree).canonical (ascii "/") = .ok [] := by decide +kernel
  have hresolved : resolved [] (ascii "./mods.d") = some (ascii "/mods.d") := by decide +kernel
  have hexists : (openDisk configTree).symlinkStatus (ascii "/mods.d") = some [ascii "mods.d"] := by decide +kernel
  have hthere : (openDisk configTree).fs.node ([ascii "mods.d"] ++ [ascii "kjv.conf"]) ≠ none := by decide +kernel
  have haccepted : ascii "/mods.d/kjv.conf" ∈ accepted [] [ascii "/mods.d/kjv.conf"] := by decide +kernel
  exact (unambiguous_of_determined h hroot).apart _ _ _ _ hresolved (.atOrBelow hexists hthere)
    (fun _ _ _ => rfl) _ haccepted (by decide +kernel)

end GetBibleSword.Core
