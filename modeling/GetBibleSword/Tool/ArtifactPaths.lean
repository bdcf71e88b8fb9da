import GetBibleSword.Core.ArtifactGroups
import GetBibleSword.Core.DiscoveryOrder
import GetBibleSword.Tool.Validator

/-!
# The paths of discovered artifacts

What the validator makes of the relative paths that `discover_artifacts` produces.

* `validateRelativePath_relativePath` : a path below the root is its names;
* `fileType` : the type a candidate is reported with (`begin_fileType`); none where it is not reported;
* `LegalPaths` : the reported paths are accepted and have components of their own (`LegalPaths.begin_accepted`);
* `Legible` : what is given leads below the root, has no NUL, and nothing is given with and without a separator;
* `paths_legal_iff` : the reported paths are legal exactly there.
-/

namespace GetBibleSword.Tool
open GetBibleSword.Lib Posix FsPath GetBibleSword.Core

/-! ## The check of a path -/

section Check
variable {root : Loc} {names names' rest : List Name} {trailing trailing' : Bool} {path : Path}
  {context : Message} {line : Nat} {allow : Bool} {components : List Bytes}

theorem nul_notMem_relativePath (h : ∀ name ∈ names, octet 0 ∉ name) : octet 0 ∉ relativePath names trailing := by
  by_cases hne : names = []
  · rw [hne]
    exact (by decide : octet 0 ∉ dot)
  · intro hmem
    have habsolute : octet 0 ∈ absolutePath names trailing := by
      rw [absolutePath_eq_cons hne]
      exact List.mem_cons_of_mem _ hmem
    obtain ⟨name, hname, hnul⟩ := (mem_absolutePath (by decide)).mp habsolute
    exact h name hname hnul

theorem validateRelativePath_relativePath (h : ∀ name ∈ names, PlainName name) (hnul : ∀ name ∈ names, octet 0 ∉ name)
    (hne : names ≠ []) (hallow : trailing = true → allow = true) :
    validateRelativePath (relativePath names trailing) context line allow = .ok names := by
  have hstart : relativePath names trailing ≠ [] := relativePath_ne_nil h
  have hplain : ∀ component ∈ names, component ∉ [[], ascii ".", ascii ".."] := by
    intro component hcomponent hmem
    obtain ⟨hnil, hdot, hdotdot, -⟩ := h component hcomponent
    rcases List.mem_cons.mp hmem with heq | hmem
    · exact hnil heq
    rcases List.mem_cons.mp hmem with heq | hmem
    · exact hdot heq
    · exact hdotdot (List.mem_singleton.mp hmem)
  have hsplit : (if allow = true ∧ (relativePath names trailing).getLast? = some slash
      then (relativePath names trailing).dropLast else relativePath names trailing).splitOn slash = names := by
    have hlast : (relativePath names trailing).getLast? = some slash ↔ trailing = true := by
      rw [← getLast?_absolutePath h hne, absolutePath_eq_cons hne, List.getLast?_cons_of_ne_nil hstart]
      rfl
    have hcomponents := @components_relativePath _ false h hne
    rw [if_neg Bool.false_ne_true, List.append_nil] at hcomponents
    cases trailing with
    | false =>
      rw [if_neg fun hc => Bool.false_ne_true (hlast.mp hc.2)]
      exact hcomponents
    | true =>
      rw [if_pos ⟨hallow rfl, hlast.mpr rfl⟩]
      have hdrop : (relativePath names true).dropLast = relativePath names false := by
        obtain ⟨first, rest, rfl⟩ := List.exists_cons_of_ne_nil hne
        rw [relativePath_cons, relativePath_cons, if_pos rfl, if_neg Bool.false_ne_true, List.append_nil,
          List.dropLast_concat]
      rw [hdrop]
      exact hcomponents
  unfold validateRelativePath
  rw [bind_eq_ok]
  refine ⟨(), failIf_eq_ok.mpr ?_, ?_⟩
  · intro hbad
    rcases hbad with hbad | hbad | hbad
    · exact hstart hbad
    · exact nul_notMem_relativePath hnul (List.contains_iff_mem.mp hbad)
    · have habsolute := (@elements_relativePath _ trailing h).1
      unfold isAbsolute at habsolute
      rw [show some slash = some separator from rfl] at hbad
      rw [hbad] at habsolute
      simp at habsolute
  · dsimp only
    rw [hsplit, bind_eq_ok]
    refine ⟨(), failIf_eq_ok.mpr ?_, rfl⟩
    intro hbad
    obtain ⟨component, hcomponent, hmem⟩ := hbad
    exact hplain component hcomponent hmem

/-- The root itself is refused, whatever its type. -/
theorem validateRelativePath_root : validateRelativePath (relativePath [] trailing) context line allow ≠ .ok components := by
  intro h
  unfold validateRelativePath at h
  obtain ⟨_, -, h⟩ := bind_eq_ok.mp h
  obtain ⟨_, hdots, -⟩ := bind_eq_ok.mp h
  apply failIf_eq_ok.mp hdots
  rw [show relativePath [] trailing = dot from rfl]
  refine ⟨dot, ?_, by decide⟩
  cases allow <;> decide

/-- And so is an octet zero. -/
theorem validateRelativePath_nul (h : octet 0 ∈ path) : validateRelativePath path context line allow ≠ .ok components := by
  intro hok
  unfold validateRelativePath at hok
  obtain ⟨_, hstart, -⟩ := bind_eq_ok.mp hok
  exact failIf_eq_ok.mp hstart (.inr (.inl (List.contains_iff_mem.mpr h)))

end Check

/-! ## What is reported -/

def nodeType : Node → Option FileType
  | .dir _ => some .directory
  | .file _ _ => some .regular
  | .link _ => some .symlink
  | .special _ => none

/-- The type of what a path names, no link at its end followed. -/
def fileType (disk : Disk) (path : Path) : Option FileType :=
  match disk.symlinkStatus path with
  | some loc => (disk.fs.node loc).bind nodeType
  | none => none

def stateType (state : FileState) : Option FileType :=
  if state.isDirectory then some .directory
  else if state.isLink then some .symlink
  else if state.isRegular then some .regular
  else none

/-- `lstat` tells what the tree holds. -/
def Shows (disk : Disk) (path : Path) : Except SystemError FileState → Prop
  | .ok state => ∃ loc node, disk.symlinkStatus path = some loc ∧ disk.fs.node loc = some node ∧
      stateType state = nodeType node
  | .error _ => disk.symlinkStatus path = none

section Begin
variable {disk : Disk} {c : ArtifactCandidate} {answers : Inspection} {artifactId : Nat}

/-- The fields of a begin record that follow the common ones. -/
def typeFields (t : FileType) (more : List (Bytes × Bytes)) : List (Bytes × Bytes) :=
  (ascii "file_type", jsonString (ascii t.name)) :: more

/-- Records start with a begin record of the type `lstat` has answered. -/
theorem capture_begin (h : (capture c answers artifactId).records ≠ []) : ∃ state t more records,
    answers.lstat = .ok state ∧ stateType state = some t ∧
      ([ascii "artifact_id", ascii "mode", ascii "path", ascii "role"] ++ (typeFields t more).map Prod.fst).Nodup ∧
      (capture c answers artifactId).records =
        (Purpose.artifactBegin.type, c.beginFields artifactId state.mode (typeFields t more)) :: records := by
  unfold capture at h ⊢
  cases hlstat : answers.lstat with
  | error error =>
    rw [hlstat] at h
    exact absurd rfl h
  | ok state =>
    rw [hlstat] at h
    dsimp only at h ⊢
    split_ifs at h ⊢ with hdir hlink hregular
    · refine ⟨state, .directory, [], _, rfl, if_pos hdir, ?_, rfl⟩
      show ([_, _, _, _, ascii "file_type"] : List Bytes).Nodup
      decide
    · unfold captureSymlink at h ⊢
      cases hread : answers.readlink with
      | error error =>
        rw [hread] at h
        exact absurd rfl h
      | ok whole =>
        refine ⟨state, .symlink, [(ascii "target", byteValueJson (whole.take (state.size + 1)))], _, rfl,
          (if_neg hdir).trans (if_pos hlink), ?_, rfl⟩
        show ([_, _, _, _, ascii "file_type", ascii "target"] : List Bytes).Nodup
        decide
    · unfold captureRegular at h ⊢
      cases hopen : answers.open_ with
      | error error =>
        rw [hopen] at h
        exact absurd rfl h
      | ok =>
        rw [hopen] at h
        cases hopened : answers.opened with
        | error error =>
          rw [hopened] at h
          exact absurd rfl h
        | ok opened =>
          rw [hopened] at h
          dsimp only at h ⊢
          split_ifs at h ⊢ with hsame
          · refine ⟨state, .regular, [(ascii "size_expected", decimal state.size)], _, rfl,
              (if_neg hdir).trans ((if_neg hlink).trans (if_pos hregular)), ?_, rfl⟩
            show ([_, _, _, _, ascii "file_type", ascii "size_expected"] : List Bytes).Nodup
            decide
          · exact absurd rfl h
    · exact absurd rfl h

/-- A begin record names the type of its path. -/
theorem begin_fileType {g : ArtifactGroup} (h : Shows disk c.absolutePath answers.lstat)
    (hrecords : (capture c answers artifactId).records = g.records) :
    ∃ t, fileType disk c.absolutePath = some t ∧
      g.begin.find (ascii "file_type") = some (jsonString (ascii t.name)) := by
  obtain ⟨state, t, more, records, hlstat, hstate, hnodup, hbegin⟩ :=
    @capture_begin c answers artifactId (by rw [hrecords]; exact List.cons_ne_nil _ _)
  refine ⟨t, ?_, ?_⟩
  · rw [hlstat] at h
    obtain ⟨loc, node, hstatus, hnode, hsame⟩ := h
    unfold fileType
    rw [hstatus]
    dsimp only
    rw [hnode, Option.bind_some, ← hsame, hstate]
  · rw [hrecords] at hbegin
    have hfields : g.begin = c.beginFields artifactId state.mode (typeFields t more) :=
      (Prod.mk.inj (List.cons.inj hbegin).1).2
    rw [hfields]
    exact find_beginFields c artifactId state.mode hnodup (List.mem_append_right _ List.mem_cons_self)

end Begin

/-- The names between the separators of a relative path. -/
def pathNames (path : Path) : List Name := (components path).filter fun name => !name.isEmpty

/-- The reported paths are accepted with their types, and each has components of its own. -/
structure LegalPaths (disk : Disk) (candidates : List ArtifactCandidate) : Prop where
  accepted : ∀ c ∈ candidates, ∀ t, fileType disk c.absolutePath = some t → ∀ context line,
    validateRelativePath c.relativePath context line (t = .directory) = .ok (pathNames c.relativePath)
  distinct : candidates.Pairwise fun a b => fileType disk a.absolutePath ≠ none → fileType disk b.absolutePath ≠ none →
    pathNames a.relativePath ≠ pathNames b.relativePath

/-- No begin record is refused for its path: not by its own checks, not for an earlier path. -/
theorem LegalPaths.begin_accepted {disk : Disk} {before after : List ArtifactCandidate} {c : ArtifactCandidate}
    {t : FileType} {v : Validator} {record : Dict} {line : Nat} {mode : Nat} {role : Text}
    (h : LegalPaths disk (before ++ c :: after)) (ht : fileType disk c.absolutePath = some t)
    (hearlier : ∀ components ∈ v.artifactPaths, ∃ b ∈ before, fileType disk b.absolutePath ≠ none ∧
      components = pathNames b.relativePath)
    (hfileType : dictGet record "file_type" = some (.str (text t.name)))
    (hmode : natural record "mode" (field [.lit "artifact_begin"] "mode") line 0 (some 0o7777) = .ok mode)
    (hrole : dictGet record "role" = some (.str role))
    (hpath : byteValue record [.lit "artifact_begin"] "path" line = .ok c.relativePath) :
    ∃ fields, beginFields record line = .ok fields ∧ fields.components ∉ v.artifactPaths := by
  refine ⟨⟨t, mode, role, c.relativePath, pathNames c.relativePath⟩, ?_, ?_⟩
  · have htype : oneOf [.regular, .directory, .symlink] FileType.name (text t.name)
        [.lit "unknown artifact file_type ", .repr (text t.name)] line = .ok t := by
      cases t <;> rfl
    have hcomponents := h.accepted c (by simp) t ht (field [.lit "artifact_begin"] "path") line
    unfold beginFields
    simp only [bind_eq_ok, dictItem_eq_ok, requireString_eq_ok, pure_eq_ok]
    exact ⟨_, hfileType, _, rfl, t, htype, mode, hmode, _, hrole, _, rfl, _, hpath, _, hcomponents, rfl⟩
  · intro hmem
    obtain ⟨b, hb, hreported, heq⟩ := hearlier _ hmem
    have hpair := (List.pairwise_append.mp h.distinct).2.2 b hb c List.mem_cons_self
    exact hpair hreported (by rw [ht]; exact Option.some_ne_none t) heq.symm

/-! ## The given paths -/

/-- A configuration file or the DataPath, as it is taken, where something is reported there. -/
def Given (disk : Disk) (root : Loc) (dataPath : Path) (configs : List Path) (path : Path) : Prop :=
  (path ∈ accepted root configs ∨ resolved root dataPath = some path) ∧ fileType disk path ≠ none

/-- What is given is not the root and has no NUL, and nothing that is there is given with a separator at its end
and is given, or is an object of the DataPath, without. -/
structure Legible (disk : Disk) (root : Loc) (dataPath : Path) (configs : List Path) : Prop where
  below : ∀ path, Given disk root dataPath configs path → ∀ trailing, path ≠ absolutePath root trailing
  free : ∀ path, Given disk root dataPath configs path → octet 0 ∉ path
  once : ∀ path, Given disk root dataPath configs (path ++ [separator]) → ¬ Given disk root dataPath configs path
  apart : ∀ path, Given disk root dataPath configs (path ++ [separator]) → ∀ data base loc names,
    resolved root dataPath = some data → DataObject disk data base loc names → disk.Reached loc names →
    objectPath base names = path → fileType disk path = none

/-- Whatever the order of iteration and the sort, what is discovered is legal. -/
def PathsLegal (disk : Disk) (swordRoot dataPath : Path) (configs : List Path) : Prop :=
  ∀ order, disk.Lists order → ∀ sort, (∀ l, Sorting ArtifactCandidate.relativePath l (sort l)) →
    LegalPaths disk (discoverArtifacts (disk.discovery order) sort swordRoot dataPath configs).1

section Given
variable {disk : Disk} {order : DirectoryOrder} {sort : List ArtifactCandidate → List ArtifactCandidate}
  {swordRoot data dataPath base path : Path} {configs : List Path} {root loc : Loc} {names : List Name}
  {c : ArtifactCandidate} {t : FileType}

theorem symlinkStatus_of_fileType (h : fileType disk path ≠ none) : ∃ loc, disk.symlinkStatus path = some loc := by
  unfold fileType at h
  cases hstatus : disk.symlinkStatus path with
  | some loc => exact ⟨loc, rfl⟩
  | none =>
    rw [hstatus] at h
    exact absurd rfl h

/-- A separator at the end is only reported of a directory. -/
theorem fileType_trailing {front : List Name} (hplain : ∀ name ∈ front, PlainName name)
    (hfree : octet 0 ∉ absolutePath front true) (h : fileType disk (absolutePath front true) = some t) :
    t = .directory := by
  obtain ⟨loc, hstatus⟩ := symlinkStatus_of_fileType (by rw [h]; exact Option.some_ne_none t)
  obtain ⟨found, hwalk, rfl⟩ := symlinkStatus_eq_some hstatus
  rw [cString_of_notMem hfree, components_absolutePath hplain, if_pos (.inl rfl)] at hwalk
  obtain ⟨mode, hmode⟩ := FileSystem.isDir_iff.mp (walk_directory maxLinks hwalk)
  unfold fileType at h
  rw [hstatus] at h
  dsimp only at h
  rw [hmode] at h
  exact (Option.some.inj h).symm

/-- What is given is a candidate, in every order. -/
theorem Given.candidate (h : Given disk root dataPath configs path) :
    ∃ c ∈ sortedCandidates disk order root dataPath configs, c.absolutePath = path := by
  obtain ⟨hgiven, hthere⟩ := h
  rcases hgiven with haccepted | hresolved
  · exact ⟨Core.candidate (absolutePath root false) path "configuration",
      mem_sortedCandidates.mpr (.inl ⟨path, haccepted, rfl⟩), rfl⟩
  · obtain ⟨loc, hstatus⟩ := symlinkStatus_of_fileType hthere
    refine ⟨Core.candidate (absolutePath root false) path (dataRole disk path),
      mem_sortedCandidates.mpr (.inr ⟨path, path, hresolved, ?_, rfl⟩), rfl⟩
    rw [listing_of_exists hstatus]
    exact List.mem_cons_self

/-- Where a reported object has a NUL in its path, the DataPath is reported and has one. -/
theorem DataObject.given (h : DataObject disk data base loc names)
    (hreported : fileType disk (objectPath base names) ≠ none) (hnul : octet 0 ∈ base) :
    base = data ∧ fileType disk data ≠ none := by
  cases h with
  | @atOrBelow loc names hexists hthere =>
    refine ⟨rfl, ?_⟩
    by_cases hne : names = []
    · rwa [hne] at hreported
    · obtain ⟨mode, hmode⟩ := FileSystem.dir_of_below hthere hne
      unfold fileType
      rw [hexists]
      dsimp only
      rw [hmode]
      exact Option.some_ne_none _
  | @beside found name hmissing hparent hthere hname =>
    -- a system call reads the DataPath in place of what lies beside it
    obtain ⟨more, hmore⟩ := parentPath_prefix data
    have hdata : cString data = cString (parentPath data) := by
      have happend := cString_append hnul more
      rwa [hmore] at happend
    have hjoin : cString (join (parentPath data) name) = cString (parentPath data) := by
      have hplain := isAbsolute_name (PlainName.of_valid (disk.fs.named _ _ hthere))
      unfold join
      rw [if_neg (fun hc => hc.elim (by simp [hplain]) (List.ne_nil_of_mem hnul))]
      split_ifs
      · exact cString_append hnul _
      · exact cString_append hnul _
    obtain ⟨l, hstatus⟩ := symlinkStatus_of_fileType hreported
    unfold Disk.symlinkStatus at hstatus hmissing
    rw [show objectPath (parentPath data) [name] = join (parentPath data) name from rfl, hjoin, ← hdata,
      hmissing] at hstatus
    cases hstatus

theorem pathNames_relativePath {rest : List Name} {trailing : Bool} (h : ∀ name ∈ rest, PlainName name)
    (hne : rest ≠ []) : pathNames (relativePath rest trailing) = rest := by
  have hkeep : rest.filter (fun name => !name.isEmpty) = rest := by
    rw [List.filter_eq_self]
    intro name hname
    have := (h name hname).nonempty
    simpa using this
  unfold pathNames
  rw [components_relativePath h hne, List.filter_append, hkeep]
  cases trailing with
  | true => exact List.append_nil rest
  | false => exact List.append_nil rest

section Legible
variable (h : Legible disk root dataPath configs) (hroot : disk.canonical swordRoot = .ok root)
  (horder : disk.Lists order)
include h hroot horder

/-- What is reported lies properly below the root; a separator at its end is the one it was given with. -/
theorem Legible.reported (hc : c ∈ sortedCandidates disk order root dataPath configs)
    (hreported : fileType disk c.absolutePath ≠ none) : ∃ rest trailing,
      c.absolutePath = absolutePath (root ++ rest) trailing ∧ c.relativePath = relativePath rest trailing ∧
      (∀ name ∈ root ++ rest, PlainName name) ∧ rest ≠ [] ∧ octet 0 ∉ c.absolutePath ∧
      (trailing = true → Given disk root dataPath configs c.absolutePath) := by
  obtain ⟨⟨rest, trailing, hpath, hplain⟩, hrelative⟩ := below_of_mem hroot horder hc
  rw [hpath, lexicallyRelative_below hplain] at hrelative
  have hgiven : Given disk root dataPath configs c.absolutePath → rest ≠ [] ∧ octet 0 ∉ c.absolutePath := by
    intro hgiven
    refine ⟨fun hnil => h.below _ hgiven trailing ?_, h.free _ hgiven⟩
    rw [hpath, hnil, List.append_nil]
  rcases mem_sortedCandidates.mp hc with ⟨path, haccepted, rfl⟩ | ⟨data, path, hdata, hlisted, rfl⟩
  · have hg : Given disk root dataPath configs path := ⟨.inl haccepted, hreported⟩
    exact ⟨rest, trailing, hpath, hrelative, hplain, (hgiven hg).1, (hgiven hg).2, fun _ => hg⟩
  · obtain ⟨base, loc, names, hobject, -, rfl⟩ := listing_sound horder hlisted
    by_cases hne : names = []
    · have hbase : objectPath base names = data := by
        cases hobject with
        | atOrBelow _ _ => rw [hne]; rfl
        | beside _ _ _ _ => cases hne
      have hg : Given disk root dataPath configs (objectPath base names) := ⟨.inr (hbase ▸ hdata), hreported⟩
      exact ⟨rest, trailing, hpath, hrelative, hplain, (hgiven hg).1, (hgiven hg).2, fun _ => hg⟩
    · obtain ⟨⟨front, t, hfront, hfrontPlain⟩, hnames⟩ := hobject.below hroot (below_of_resolved hroot hdata)
      have hall : ∀ name ∈ root ++ front ++ names, PlainName name := by
        intro name hname
        rcases List.mem_append.mp hname with hname | hname
        · exact hfrontPlain name hname
        · exact hnames name hname
      have hform : absolutePath (root ++ rest) trailing = absolutePath (root ++ (front ++ names)) false := by
        rw [← List.append_assoc, ← objectPath_absolutePath hall hne, ← hfront]
        exact hpath.symm
      have hplain' : ∀ name ∈ root ++ (front ++ names), PlainName name := by
        rwa [← List.append_assoc]
      obtain ⟨hsame, htrailing⟩ := absolutePath_inj hplain hplain' hform
      obtain rfl := List.append_cancel_left hsame
      have hrest : front ++ names ≠ [] := fun hnil => hne (List.append_eq_nil_iff.mp hnil).2
      have hfalse : trailing = false := htrailing fun hnil => hrest (List.append_eq_nil_iff.mp hnil).2
      refine ⟨front ++ names, trailing, hpath, hrelative, hplain, hrest, ?_, fun ht => ?_⟩
      · intro hnul
        rw [hpath, mem_absolutePath (by decide)] at hnul
        obtain ⟨name, hname, hnul⟩ := hnul
        rcases List.mem_append.mp hname with hname | hname
        · exact (valid_of_canonical hroot name hname).2.2.2.2 hnul
        rcases List.mem_append.mp hname with hname | hname
        · have hbase : octet 0 ∈ base := by
            rw [hfront, mem_absolutePath (by decide)]
            exact ⟨name, List.mem_append_right _ hname, hnul⟩
          obtain ⟨rfl, hthere⟩ := DataObject.given hobject hreported hbase
          exact h.free base ⟨.inr hdata, hthere⟩ hbase
        · exact (hobject.valid name hname).2.2.2.2 hnul
      · rw [hfalse] at ht
        exact absurd ht Bool.false_ne_true

variable (hsort : ∀ l, Sorting ArtifactCandidate.relativePath l (sort l))
include hsort

theorem Legible.legalPaths :
    LegalPaths disk (discoverArtifacts (disk.discovery order) sort swordRoot dataPath configs).1 := by
  have hmem : ∀ {a}, a ∈ (discoverArtifacts (disk.discovery order) sort swordRoot dataPath configs).1 →
      a ∈ sortedCandidates disk order root dataPath configs := by
    intro a ha
    rw [discoverArtifacts_fst hroot] at ha
    exact (hsort _).perm.mem_iff.mp (mem_of_mem_unique ha)
  have hincreasing : (discoverArtifacts (disk.discovery order) sort swordRoot dataPath configs).1.Pairwise
      fun a b => fileType disk a.absolutePath ≠ none → a.relativePath < b.relativePath := by
    rw [discoverArtifacts_fst hroot]
    apply pairwise_unique_of (hsort _).sorted
    intro a ha hreported b hb heq
    have hperm := fun c => (hsort (sortedCandidates disk order root dataPath configs)).perm.mem_iff (a := c)
    obtain ⟨rest, trailing, hpath, hrelative, hplain, hne, -, -⟩ :=
      h.reported hroot horder ((hperm a).mp ha) hreported
    obtain ⟨⟨rest', trailing', hpath', hplain'⟩, hrelative'⟩ := below_of_mem hroot horder ((hperm b).mp hb)
    rw [hpath', lexicallyRelative_below hplain', ← heq, hrelative] at hrelative'
    obtain ⟨rfl, rfl⟩ := relativePath_inj (fun n hn => hplain n (List.mem_append_right _ hn))
      (fun n hn => hplain' n (List.mem_append_right _ hn)) hne hrelative'
    rw [hpath, hpath']
  -- of two paths of the same names one has a separator at its end, and that one was given
  have hapart : ∀ {a b : ArtifactCandidate} {rest : List Name}, b ∈ sortedCandidates disk order root dataPath configs →
      a.absolutePath = absolutePath (root ++ rest) true → b.absolutePath = absolutePath (root ++ rest) false →
      rest ≠ [] → Given disk root dataPath configs a.absolutePath → fileType disk b.absolutePath = none := by
    intro a b rest hb ha hb' hne hgiven
    have hroot' : root ++ rest ≠ [] := fun hnil => hne (List.append_eq_nil_iff.mp hnil).2
    rw [ha, absolutePath_trailing hroot', ← hb'] at hgiven
    by_contra hreported
    rcases mem_sortedCandidates.mp hb with ⟨path, haccepted, rfl⟩ | ⟨data, path, hdata, hlisted, rfl⟩
    · exact h.once _ hgiven ⟨.inl haccepted, hreported⟩
    · obtain ⟨base, loc, names, hobject, hreached, heq⟩ := listing_sound horder hlisted
      exact hreported (h.apart _ hgiven data base loc names hdata hobject hreached heq.symm)
  refine ⟨?_, ?_⟩
  · intro c hc t ht context line
    obtain ⟨rest, trailing, hpath, hrelative, hplain, hne, hfree, -⟩ :=
      h.reported hroot horder (hmem hc) (by rw [ht]; exact Option.some_ne_none t)
    have hrest : ∀ name ∈ rest, PlainName name := fun n hn => hplain n (List.mem_append_right _ hn)
    rw [hpath] at hfree ht
    rw [hrelative, pathNames_relativePath hrest hne]
    apply validateRelativePath_relativePath hrest
    · intro name hname hnul
      rw [mem_absolutePath (by decide)] at hfree
      exact hfree ⟨name, List.mem_append_right _ hname, hnul⟩
    · exact hne
    · rintro rfl
      exact decide_eq_true (fileType_trailing hplain hfree ht)
  · refine List.Pairwise.imp_of_mem ?_ hincreasing
    intro a b ha hb hlt hareported hbreported heq
    obtain ⟨rest, trailing, hpath, hrelative, hplain, hne, -, hgiven⟩ := h.reported hroot horder (hmem ha) hareported
    obtain ⟨rest', trailing', hpath', hrelative', hplain', hne', -, hgiven'⟩ :=
      h.reported hroot horder (hmem hb) hbreported
    rw [hrelative, hrelative', pathNames_relativePath (fun n hn => hplain n (List.mem_append_right _ hn)) hne,
      pathNames_relativePath (fun n hn => hplain' n (List.mem_append_right _ hn)) hne'] at heq
    subst heq
    have hdiffer : trailing ≠ trailing' := by
      rintro rfl
      have hsame := hlt hareported
      rw [hrelative, hrelative'] at hsame
      exact lt_irrefl _ hsame
    cases trailing with
    | true =>
      obtain rfl : trailing' = false := by simpa using hdiffer.symm
      exact hbreported (hapart (hmem hb) hpath hpath' hne (hgiven rfl))
    | false =>
      obtain rfl : trailing' = true := by simpa using hdiffer.symm
      exact hareported (hapart (hmem ha) hpath' hpath hne (hgiven' rfl))

end Legible

section Legal
variable (hroot : disk.canonical swordRoot = .ok root) (horder : disk.Lists order)
  (hsort : ∀ l, Sorting ArtifactCandidate.relativePath l (sort l))
include hroot horder hsort

/-- A candidate, or one of the same path, is discovered. -/
theorem exists_discovered (hc : c ∈ sortedCandidates disk order root dataPath configs) :
    ∃ found ∈ (discoverArtifacts (disk.discovery order) sort swordRoot dataPath configs).1,
      found.absolutePath = c.absolutePath ∧
      found.relativePath = lexicallyRelative c.absolutePath (absolutePath root false) := by
  rw [discoverArtifacts_fst hroot]
  have hperm := fun a => (hsort (sortedCandidates disk order root dataPath configs)).perm.mem_iff (a := a)
  obtain ⟨found, hfound, heq⟩ := exists_mem_unique (f := fun c => elements c.absolutePath) ((hperm c).mpr hc)
  obtain ⟨hbelow, hrelative⟩ := below_of_mem hroot horder ((hperm found).mp (mem_of_mem_unique hfound))
  have hpath := hbelow.elements_inj (below_of_mem hroot horder hc).1 heq
  exact ⟨found, hfound, hpath, by rw [hrelative, hpath]⟩

variable (h : LegalPaths disk (discoverArtifacts (disk.discovery order) sort swordRoot dataPath configs).1)
include h

/-- A reported candidate lies properly below the root and has no NUL. -/
theorem LegalPaths.plain (hc : c ∈ sortedCandidates disk order root dataPath configs)
    (hreported : fileType disk c.absolutePath ≠ none) : ∃ rest trailing,
      c.absolutePath = absolutePath (root ++ rest) trailing ∧ (∀ name ∈ root ++ rest, PlainName name) ∧ rest ≠ [] ∧
      octet 0 ∉ c.absolutePath := by
  obtain ⟨⟨rest, trailing, hpath, hplain⟩, -⟩ := below_of_mem hroot horder hc
  obtain ⟨found, hfound, hsame, hrelative⟩ := exists_discovered hroot horder hsort hc
  obtain ⟨t, ht⟩ := Option.ne_none_iff_exists'.mp hreported
  have hok := h.accepted found hfound t (by rw [hsame, ht]) [] 0
  rw [hrelative, hpath, lexicallyRelative_below hplain] at hok
  have hne : rest ≠ [] := by
    rintro rfl
    exact validateRelativePath_root hok
  refine ⟨rest, trailing, hpath, hplain, hne, fun hnul => ?_⟩
  rw [hpath, mem_absolutePath (by decide)] at hnul
  obtain ⟨name, hname, hnul⟩ := hnul
  rcases List.mem_append.mp hname with hname | hname
  · exact (valid_of_canonical hroot name hname).2.2.2.2 hnul
  · refine validateRelativePath_nul ?_ hok
    have habsolute : octet 0 ∈ absolutePath rest trailing := (mem_absolutePath (by decide)).mpr ⟨name, hname, hnul⟩
    rw [absolutePath_eq_cons hne] at habsolute
    exact (List.mem_cons.mp habsolute).resolve_left (by decide)

/-- No two reported candidates differ in a separator at the end. -/
theorem LegalPaths.apart {a b : ArtifactCandidate} (ha : a ∈ sortedCandidates disk order root dataPath configs)
    (hb : b ∈ sortedCandidates disk order root dataPath configs) (heq : a.absolutePath = b.absolutePath ++ [separator])
    (hareported : fileType disk a.absolutePath ≠ none) : fileType disk b.absolutePath = none := by
  by_contra hbreported
  obtain ⟨rest, trailing, hpath, hplain, hne, -⟩ := h.plain hroot horder hsort ha hareported
  obtain ⟨rest', trailing', hpath', hplain', hne', -⟩ := h.plain hroot horder hsort hb hbreported
  have hroot' : root ++ rest ≠ [] := fun hnil => hne (List.append_eq_nil_iff.mp hnil).2
  obtain ⟨found, hfound, hsame, hrelative⟩ := exists_discovered hroot horder hsort ha
  obtain ⟨found', hfound', hsame', hrelative'⟩ := exists_discovered hroot horder hsort hb
  have htrailing : trailing = true := by
    rw [← getLast?_absolutePath hplain hroot', ← hpath, heq, List.getLast?_concat]
  subst htrailing
  rw [hpath, absolutePath_trailing hroot', hpath'] at heq
  obtain ⟨hrest, -⟩ := absolutePath_inj hplain hplain' (List.append_cancel_right heq)
  obtain rfl := List.append_cancel_left hrest
  rw [hpath, lexicallyRelative_below hplain] at hrelative
  rw [hpath', lexicallyRelative_below hplain] at hrelative'
  have hnames : pathNames found.relativePath = pathNames found'.relativePath := by
    have hplainRest : ∀ name ∈ rest, PlainName name := fun n hn => hplain n (List.mem_append_right _ hn)
    rw [hrelative, hrelative', pathNames_relativePath hplainRest hne, pathNames_relativePath hplainRest hne]
  have hdiffer : found ≠ found' := by
    rintro rfl
    have hlength := congrArg List.length (hsame.symm.trans hsame')
    rw [hpath, hpath', absolutePath_trailing hroot', List.append_cancel_right heq, List.length_append] at hlength
    simp at hlength
  have hsymm : Std.Symm fun a b : ArtifactCandidate => fileType disk a.absolutePath ≠ none →
      fileType disk b.absolutePath ≠ none → pathNames a.relativePath ≠ pathNames b.relativePath :=
    ⟨fun _ _ hab hb ha heq => hab ha hb heq.symm⟩
  exact h.distinct.forall hfound hfound' hdiffer (by rwa [hsame]) (by rwa [hsame']) hnames

end Legal

theorem legible_of_pathsLegal (h : PathsLegal disk swordRoot dataPath configs)
    (hroot : disk.canonical swordRoot = .ok root) : Legible disk root dataPath configs := by
  have hsort := sorting_mergeSort ArtifactCandidate.relativePath
  have horder : disk.Lists disk.fs.entries := fun loc => List.Perm.refl _
  have hplain : ∀ path, Given disk root dataPath configs path → ∃ rest trailing,
      path = absolutePath (root ++ rest) trailing ∧ (∀ name ∈ root ++ rest, PlainName name) ∧ rest ≠ [] ∧
      octet 0 ∉ path := by
    intro path hgiven
    obtain ⟨c, hc, rfl⟩ := hgiven.candidate
    exact (h _ horder _ hsort).plain hroot horder hsort hc hgiven.2
  refine ⟨?_, ?_, ?_, ?_⟩
  · intro path hgiven trailing heq
    obtain ⟨rest, trailing', hpath, hnames, hne, -⟩ := hplain path hgiven
    obtain ⟨hrest, -⟩ := absolutePath_inj hnames (plain_of_canonical hroot) (hpath.symm.trans heq)
    exact hne (List.append_right_eq_self.mp hrest)
  · intro path hgiven
    obtain ⟨rest, trailing, hpath, hnames, hne, hfree⟩ := hplain path hgiven
    exact hfree
  · intro path hgiven hgiven'
    obtain ⟨a, ha, hpath⟩ := hgiven.candidate
    obtain ⟨b, hb, rfl⟩ := hgiven'.candidate
    exact hgiven'.2 ((h _ horder _ hsort).apart hroot horder hsort ha hb hpath (by rw [hpath]; exact hgiven.2))
  · intro path hgiven data base loc names hdata hobject hreached heq
    obtain ⟨order, horder', hlisted⟩ := listing_reached hobject hreached
    obtain ⟨a, ha, hpath⟩ := hgiven.candidate
    have hb : candidate (absolutePath root false) (objectPath base names) (dataRole disk data) ∈
        sortedCandidates disk order root dataPath configs :=
      mem_sortedCandidates.mpr (.inr ⟨data, _, hdata, hlisted, rfl⟩)
    rw [← heq] at hpath hgiven ⊢
    exact (h _ horder' _ hsort).apart hroot horder' hsort ha hb hpath (by rw [hpath]; exact hgiven.2)

/-- The discovered paths are legal artifact paths exactly where what is given is legible. -/
theorem paths_legal_iff (disk : Disk) (swordRoot dataPath : Path) (configs : List Path) :
    PathsLegal disk swordRoot dataPath configs ↔
      ∀ root, disk.canonical swordRoot = .ok root → Legible disk root dataPath configs := by
  refine ⟨fun h root hroot => legible_of_pathsLegal h hroot, fun h => ?_⟩
  intro order horder sort hsort
  cases hroot : disk.canonical swordRoot with
  | ok root => exact (h root hroot).legalPaths hroot horder hsort
  | error error =>
    have hanswer : (disk.discovery order).canonical swordRoot = .error (disk.message error) := by
      show ((disk.canonical swordRoot).map fun loc => absolutePath loc false).mapError disk.message = _
      rw [hroot]
      rfl
    unfold discoverArtifacts
    rw [hanswer]
    exact ⟨fun c hc => absurd hc List.not_mem_nil, List.Pairwise.nil⟩

end Given

/-! ## A DataPath that is the root -/

/-- The DataPath `.` is accepted and reported, and its relative path is not legal. -/
theorem rootPath_not_legal : ¬ PathsLegal (openDisk configTree) (ascii "/") (ascii ".") [] := by
  intro h
  have hroot : (openDisk configTree).canonical (ascii "/") = .ok [] := by decide +kernel
  have hresolved : resolved [] (ascii ".") = some (absolutePath [] false) := by decide +kernel
  have hthere : fileType (openDisk configTree) (absolutePath [] false) = some .directory := by decide +kernel
  have hgiven : Given (openDisk configTree) [] (ascii ".") [] (absolutePath [] false) :=
    ⟨.inr hresolved, by rw [hthere]; exact Option.some_ne_none _⟩
  exact (legible_of_pathsLegal h hroot).below _ hgiven false rfl

end GetBibleSword.Tool
