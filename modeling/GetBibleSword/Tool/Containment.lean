import GetBibleSword.Tool.ArtifactPaths

/-!
# Where a capture looks

`discover_artifacts` keeps to the root by the names of a path; what the system makes of the path passes through every
link in it but one at its end.

* `walk_normal` : a normal path that meets no link ends where its names say;
* `Contained` : the path of a candidate is a way of real directories, and what `lstat` finds by it is at its end;
* `Linkless` : no link above the end of a path, and none at its end where a separator follows;
* `Linkless.object` : what a linkless DataPath contributes is contained; `Contained.linkless` : and back;
* `capture_confined_iff` : when what is discovered is confined to the root.
-/

namespace GetBibleSword.Tool
open GetBibleSword.Lib GetBibleSword.Core Posix FsPath

/-! ## Normal paths -/

section Walks
variable {p : Process} {fs : FileSystem} {follow trailing : Bool} {budget : Nat} {loc last : Loc} {names : List Name}
  {found : Found}

/-- A walk that meets no link. -/
theorem found_of_stop (hstop : (∃ error, advance p fs follow loc names = .failed error) ∨
      advance p fs follow loc names = .found last) (h : walk p fs follow budget loc names = .ok found) :
    found = ⟨last, []⟩ := by
  rcases hstop with ⟨error, hstop⟩ | hstop
  · cases budget with
    | zero =>
      rw [walk, hstop] at h
      cases h
    | succ budget =>
      rw [walk, hstop] at h
      cases h
  · cases budget with
    | zero =>
      rw [walk, hstop] at h
      exact (Except.ok.inj h).symm
    | succ budget =>
      rw [walk, hstop] at h
      exact (Except.ok.inj h).symm

/-- With a separator at the end a link there is followed too. -/
theorem walk_plain_slash (hvalid : ∀ name ∈ names, ValidName name)
    (hlinks : ∀ q, q ≠ [] → q <+: names → ∀ target, fs.node (loc ++ q) ≠ some (.link target))
    (h : walk p fs follow budget loc (names ++ [[]]) = .ok found) : found = ⟨loc ++ names, []⟩ := by
  have hstop : (∃ error, advance p fs follow loc (names ++ [[]]) = .failed error) ∨
      advance p fs follow loc (names ++ [[]]) = .found (loc ++ names) := by
    rw [advance_append (.inl (List.cons_ne_nil _ _)) names loc]
    rcases @advance_plain p fs true names loc hvalid (fun q hne hpre _ => hlinks q hne hpre) with
      ⟨error, hfront⟩ | hfront
    · rw [hfront]
      exact .inl ⟨error, rfl⟩
    · rw [hfront]
      dsimp only
      rw [advance, enter, if_pos rfl]
      split_ifs
      · exact .inr rfl
      · exact .inl ⟨.notdir, rfl⟩
  exact found_of_stop hstop h

theorem walk_normal (hvalid : ∀ name ∈ names, ValidName name)
    (hlinks : ∀ q, q <+: names → q ≠ names ∨ follow = true ∨ trailing = true →
      ∀ target, fs.node q ≠ some (.link target))
    (h : walk p fs follow budget [] (components (cString (absolutePath names trailing))) = .ok found) :
    found.loc = names := by
  have hroot : fs.IsDir [] := FileSystem.isDir_iff.mpr fs.root
  rw [cString_absolutePath hvalid, components_absolutePath fun name hname => .of_valid (hvalid name hname),
    List.cons_append, walk_slash budget hroot] at h
  by_cases hend : trailing = true ∨ names = []
  · rw [if_pos hend] at h
    rw [walk_plain_slash hvalid (fun q hne hpre target => ?_) h]
    · rfl
    · rcases hend with htrailing | hnil
      · exact hlinks q hpre (.inr (.inr htrailing)) target
      · rw [hnil] at hpre
        exact absurd (List.prefix_nil.mp hpre) hne
  · rw [if_neg hend, List.append_nil] at h
    rw [walk_plain hvalid (fun q _ hpre hcond => hlinks q hpre (hcond.imp id .inl)) h]
    rfl

end Walks

/-! ## Containment -/

/-- Below the root the path is a way of real directories, and what `lstat` finds by it is at its end. -/
structure Contained (disk : Disk) (root : Loc) (path : Path) : Prop where
  way : ∃ rest trailing, path = absolutePath (root ++ rest) trailing ∧ (∀ name ∈ root ++ rest, PlainName name) ∧
    (∀ front, front <+: rest → front ≠ rest → disk.fs.IsDir (root ++ front)) ∧
    ∀ loc, disk.symlinkStatus path = some loc → loc = root ++ rest

/-- No link is above the end of the path, none at its end where a separator follows, and no NUL is in it. -/
structure Linkless (disk : Disk) (root : Loc) (path : Path) : Prop where
  way : ∃ rest trailing, path = absolutePath (root ++ rest) trailing ∧ (∀ name ∈ root ++ rest, ValidName name) ∧
    ∀ front, front <+: rest → front ≠ rest ∨ trailing = true → ∀ target,
      disk.fs.node (root ++ front) ≠ some (.link target)

section Contained
variable {disk : Disk} {swordRoot path data dataPath base : Path} {configs : List Path} {root loc : Loc}
  {rest names : List Name} {trailing : Bool}

theorem not_link_of_dir (h : disk.fs.IsDir loc) (target : Bytes) : disk.fs.node loc ≠ some (.link target) := by
  obtain ⟨mode, hmode⟩ := FileSystem.isDir_iff.mp h
  rw [hmode]
  exact fun hlink => Node.noConfusion (Option.some.inj hlink)

/-- What is above something is a directory. -/
theorem dirs_above (hthere : disk.fs.node (root ++ rest) ≠ none) :
    ∀ front, front <+: rest → front ≠ rest → disk.fs.IsDir (root ++ front) := by
  rintro front ⟨more, rfl⟩ hne
  rw [← List.append_assoc] at hthere
  refine FileSystem.isDir_iff.mpr (FileSystem.dir_of_below hthere ?_)
  rintro rfl
  exact hne (by rw [List.append_nil])

theorem node_of_status (h : disk.symlinkStatus path = some loc) : disk.fs.node loc ≠ none := by
  obtain ⟨found, hwalk, rfl⟩ := symlinkStatus_eq_some h
  obtain ⟨mode, hmode⟩ := disk.fs.root
  exact (walk_found maxLinks (by rw [hmode]; exact Option.some_ne_none _) hwalk).1

variable (hroot : disk.canonical swordRoot = .ok root)
include hroot

/-- The links a path below the root may meet are below it. -/
theorem links_below {c : Prop} (h : ∀ front, front <+: rest → front ≠ rest ∨ c → ∀ target,
    disk.fs.node (root ++ front) ≠ some (.link target)) :
    ∀ q, q <+: root ++ rest → q ≠ root ++ rest ∨ c → ∀ target, disk.fs.node q ≠ some (.link target) := by
  intro q hpre hcond target
  rcases List.prefix_or_prefix_of_prefix hpre (List.prefix_append root rest) with habove | ⟨front, rfl⟩
  · by_cases hq : q = root
    · subst hq
      have hfront := h [] List.nil_prefix (hcond.imp (fun hne hnil => hne (by rw [← hnil, List.append_nil])) id) target
      rwa [List.append_nil] at hfront
    · obtain ⟨mode, hmode, -⟩ := searched_eq_none.mp ((node_of_canonical hroot).2 q habove hq)
      exact not_link_of_dir (FileSystem.isDir_iff.mpr ⟨mode, hmode⟩) target
  · exact h front ((List.prefix_append_right_inj root).mp hpre)
      (hcond.imp (fun hne heq => hne (by rw [heq])) id) target

/-- What is there under its names. -/
theorem contained_of_node (hthere : disk.fs.node (root ++ rest) ≠ none) :
    Contained disk root (absolutePath (root ++ rest) false) := by
  have hvalid := FileSystem.valid_of_node hthere
  have hdirs := dirs_above hthere
  refine ⟨rest, false, rfl, fun name hname => .of_valid (hvalid name hname), hdirs, fun loc hstatus => ?_⟩
  obtain ⟨found, hwalk, rfl⟩ := symlinkStatus_eq_some hstatus
  refine walk_normal hvalid (fun q hpre hcond => ?_) hwalk
  refine links_below hroot (c := False) (fun front hfront hne => ?_) q hpre
    (hcond.imp id fun h => h.elim Bool.false_ne_true Bool.false_ne_true)
  exact not_link_of_dir (hdirs front hfront (hne.resolve_right id))

/-- An unlinked path that leads to something is contained. -/
theorem Linkless.contained (h : Linkless disk root path) (hthere : disk.symlinkStatus path ≠ none) :
    Contained disk root path := by
  obtain ⟨rest, trailing, rfl, hvalid, hlinks⟩ := h
  obtain ⟨loc, hstatus⟩ := Option.ne_none_iff_exists'.mp hthere
  have hsame : ∀ l, disk.symlinkStatus (absolutePath (root ++ rest) trailing) = some l → l = root ++ rest := by
    intro l hl
    obtain ⟨found, hwalk, rfl⟩ := symlinkStatus_eq_some hl
    exact walk_normal hvalid (fun q hpre hcond => links_below hroot hlinks q hpre
      (hcond.imp id fun hc => hc.resolve_left Bool.false_ne_true)) hwalk
  have hnode := node_of_status hstatus
  rw [hsame loc hstatus] at hnode
  exact ⟨rest, trailing, rfl, fun name hname => .of_valid (hvalid name hname), dirs_above hnode, hsame⟩

/-- Beside an unlinked path that leads to nothing an iteration looks where the names say. -/
theorem Linkless.parent {found : Found} (h : Linkless disk root data) (hmissing : disk.symlinkStatus data = none)
    (hparent : walk disk.process disk.fs true maxLinks [] (components (cString (parentPath data))) = .ok found) :
    ∃ rest, parentPath data = absolutePath (root ++ rest) false ∧ found.loc = root ++ rest := by
  obtain ⟨rest, trailing, rfl, hvalid, hlinks⟩ := h
  rw [parentPath_absolutePath fun name hname => .of_valid (hvalid name hname)] at hparent ⊢
  cases trailing with
  | true =>
    rw [if_pos rfl] at hparent ⊢
    exact ⟨rest, rfl, walk_normal hvalid (fun q hpre _ => links_below hroot hlinks q hpre (.inr rfl)) hparent⟩
  | false =>
    rw [if_neg Bool.false_ne_true] at hparent ⊢
    rcases List.eq_nil_or_concat rest with rfl | ⟨front, last, rfl⟩
    · rw [List.append_nil, symlinkStatus_root hroot] at hmissing
      cases hmissing
    · rw [List.concat_eq_append] at hlinks hvalid hparent ⊢
      rw [← List.append_assoc, List.dropLast_concat] at hparent ⊢
      rw [← List.append_assoc] at hvalid
      refine ⟨front, rfl, walk_normal (fun name hname => hvalid name (List.mem_append_left _ hname)) ?_ hparent⟩
      intro q hpre _
      refine links_below hroot (c := True) (fun q' hq' _ => hlinks q' (hq'.trans (List.prefix_append _ _)) ?_) q hpre
        (.inr trivial)
      left
      rintro rfl
      have hlength := hq'.length_le
      rw [List.length_append, List.length_singleton] at hlength
      omega

/-- Everything an unlinked DataPath contributes is contained. -/
theorem Linkless.object (h : Linkless disk root data) (hobject : DataObject disk data base loc names) :
    Contained disk root (objectPath base names) := by
  cases hobject with
  | @atOrBelow loc names hexists hthere =>
    have hdata := h.contained hroot (by rw [hexists]; exact Option.some_ne_none loc)
    by_cases hne : names = []
    · subst hne
      exact hdata
    · obtain ⟨rest, trailing, rfl, hplain, -, hsame⟩ := hdata
      obtain rfl := hsame loc hexists
      have hvalid := FileSystem.valid_of_node hthere
      rw [objectPath_absolutePath (fun name hname => .of_valid (hvalid name hname)) hne, List.append_assoc]
      rw [List.append_assoc] at hthere
      exact contained_of_node hroot hthere
  | @beside found name hmissing hparent hthere hname =>
    obtain ⟨rest, hbase, hloc⟩ := h.parent hroot hmissing hparent
    rw [hloc] at hthere
    have hvalid := FileSystem.valid_of_node hthere
    rw [hbase, objectPath_absolutePath (fun name hname => .of_valid (hvalid name hname)) (List.cons_ne_nil _ _),
      List.append_assoc]
    rw [List.append_assoc] at hthere
    exact contained_of_node hroot hthere

/-! ## What is contained is unlinked -/

omit hroot in
/-- A contained path that leads to something. -/
theorem Contained.linkless (h : Contained disk root path) (hstatus : disk.symlinkStatus path = some loc) :
    Linkless disk root path := by
  obtain ⟨rest, trailing, rfl, hplain, hdirs, hsame⟩ := h
  obtain rfl := hsame loc hstatus
  have hvalid := FileSystem.valid_of_node (node_of_status hstatus)
  refine ⟨rest, trailing, rfl, hvalid, fun front hfront hcond target => ?_⟩
  by_cases hne : front = rest
  · have htrailing := hcond.resolve_left (not_not_intro hne)
    obtain ⟨found, hwalk, hloc⟩ := symlinkStatus_eq_some hstatus
    rw [htrailing, cString_absolutePath hvalid, components_absolutePath hplain, if_pos (.inl rfl)] at hwalk
    have hdir := walk_directory maxLinks hwalk
    rw [hne, ← hloc]
    exact not_link_of_dir hdir target
  · exact not_link_of_dir (hdirs front hfront hne) target

/-- A path beside which something contained is found by its name. -/
theorem linkless_of_beside {name : Name} (hbelow : Below root data) (hmissing : disk.symlinkStatus data = none)
    (hvalidName : ValidName name) (hname : (filename data).isPrefixOf name = true)
    (h : Contained disk root (objectPath (parentPath data) [name])) : Linkless disk root data := by
  obtain ⟨rest, trailing, rfl, hplain⟩ := hbelow
  obtain ⟨rest', trailing', hpath, hplain', hdirs, -⟩ := h
  have hfrom : ∀ {front : List Name}, (∀ name ∈ root ++ front, PlainName name) →
      parentPath (absolutePath (root ++ rest) trailing) = absolutePath (root ++ front) false → rest' = front ++ [name] := by
    intro front hfront hparent
    have hall : ∀ n ∈ root ++ front ++ [name], PlainName n := by
      intro n hn
      rcases List.mem_append.mp hn with hn | hn
      · exact hfront n hn
      · rw [List.mem_singleton.mp hn]
        exact .of_valid hvalidName
    rw [hparent, objectPath_absolutePath hall (List.cons_ne_nil _ _)] at hpath
    have hsame := (absolutePath_inj hall hplain' hpath).1
    rw [List.append_assoc] at hsame
    exact (List.append_cancel_left hsame).symm
  have hproper : ∀ {front more : List Name}, more <+: front → more ≠ front ++ [name] := by
    rintro front more hmore rfl
    have hlength := hmore.length_le
    rw [List.length_append, List.length_singleton] at hlength
    omega
  have hparent := @parentPath_absolutePath (root ++ rest) trailing hplain
  cases trailing with
  | true =>
    rw [if_pos rfl] at hparent
    obtain rfl := hfrom hplain hparent
    have hdir : ∀ front, front <+: rest → disk.fs.IsDir (root ++ front) := fun front hfront =>
      hdirs front (hfront.trans (List.prefix_append _ _)) (hproper hfront)
    obtain ⟨mode, hmode⟩ := FileSystem.isDir_iff.mp (hdir rest List.prefix_rfl)
    refine ⟨rest, true, rfl, FileSystem.valid_of_node (by rw [hmode]; exact Option.some_ne_none _), ?_⟩
    exact fun front hfront _ => not_link_of_dir (hdir front hfront)
  | false =>
    rw [if_neg Bool.false_ne_true] at hparent
    rcases List.eq_nil_or_concat rest with rfl | ⟨front, last, rfl⟩
    · rw [List.append_nil, symlinkStatus_root hroot] at hmissing
      cases hmissing
    · rw [List.concat_eq_append] at hplain hname ⊢
      rw [List.concat_eq_append, ← List.append_assoc, List.dropLast_concat] at hparent
      rw [← List.append_assoc] at hplain
      have hfront : ∀ n ∈ root ++ front, PlainName n := fun n hn => hplain n (List.mem_append_left _ hn)
      obtain rfl := hfrom hfront (by rw [List.concat_eq_append, ← List.append_assoc]; exact hparent)
      have hdir : ∀ more, more <+: front → disk.fs.IsDir (root ++ more) := fun more hmore =>
        hdirs more (hmore.trans (List.prefix_append _ _)) (hproper hmore)
      obtain ⟨mode, hmode⟩ := FileSystem.isDir_iff.mp (hdir front List.prefix_rfl)
      have hvalid : ∀ n ∈ root ++ front, ValidName n :=
        FileSystem.valid_of_node (by rw [hmode]; exact Option.some_ne_none _)
      have hlast : filename (absolutePath (root ++ (front ++ [last])) false) = last := by
        unfold filename
        rw [← List.append_assoc, components_absolutePath hplain, if_neg (by simp), List.append_nil, ← List.cons_append,
          List.getLastD_concat]
      rw [hlast, List.isPrefixOf_iff_prefix] at hname
      refine ⟨front ++ [last], false, rfl, fun n hn => ?_, fun more hmore hcond => ?_⟩
      · rw [← List.append_assoc] at hn
        rcases List.mem_append.mp hn with hn | hn
        · exact hvalid n hn
        · obtain ⟨hne, hdot, hdotdot, hseparator⟩ := hplain last (List.mem_append_right _ (List.mem_singleton_self _))
          rw [List.mem_singleton.mp hn]
          exact ⟨hne, hdot, hdotdot, hseparator, fun hnul => hvalidName.2.2.2.2 (hname.subset hnul)⟩
      · rcases List.prefix_concat_iff.mp hmore with heq | hmore
        · exact absurd heq (hcond.resolve_right Bool.false_ne_true)
        · exact not_link_of_dir (hdir more hmore)

end Contained

/-! ## Captures -/

/-- By its names, or by what is found there, the DataPath leads out of the root. -/
def Leaves (disk : Disk) (root : Loc) (dataPath : Path) : Prop :=
  dataPath ≠ [] ∧ (resolved root dataPath = none ∨
    ∃ data loc, resolved root dataPath = some data ∧ disk.symlinkStatus data = some loc ∧ ¬ root <+: loc)

/-- What is discovered lies in the root and no link was followed for it; a DataPath that is a link is recorded as one,
and of one that leaves the root there is a diagnostic. -/
structure Confining (disk : Disk) (root : Loc) (dataPath : Path) (output : List ArtifactCandidate)
    (diagnostics : List Diagnostic) : Prop where
  contained : ∀ c ∈ output, Contained disk root c.absolutePath
  link : ∀ rest trailing, (∀ name ∈ root ++ rest, PlainName name) →
    resolved root dataPath = some (absolutePath (root ++ rest) trailing) →
    fileType disk (absolutePath (root ++ rest) false) = some .symlink →
    ∃ c ∈ output, c.absolutePath = absolutePath (root ++ rest) trailing ∧ fileType disk c.absolutePath = some .symlink
  escape : Leaves disk root dataPath →
    ∃ what, escapeDiagnostic "artifact.datapath.escape" what dataPath ∈ diagnostics

/-- Whatever the order of iteration and the sort. -/
def CaptureConfined (disk : Disk) (swordRoot dataPath : Path) (configs : List Path) : Prop :=
  ∀ root, disk.canonical swordRoot = .ok root → ∀ order, disk.Lists order →
    ∀ sort, (∀ l, Sorting ArtifactCandidate.relativePath l (sort l)) →
      Confining disk root dataPath (discoverArtifacts (disk.discovery order) sort swordRoot dataPath configs).1
        (discoverArtifacts (disk.discovery order) sort swordRoot dataPath configs).2

/-- No configuration file is reached through a link, nor is what the DataPath contributes; and a DataPath that is a link
is given without a separator at its end. -/
structure GivenLinkless (disk : Disk) (root : Loc) (dataPath : Path) (configs : List Path) : Prop where
  configs : ∀ path ∈ accepted root configs, Linkless disk root path
  data : ∀ data base loc names, resolved root dataPath = some data → DataObject disk data base loc names →
    disk.Reached loc names → Linkless disk root data
  bare : ∀ rest, (∀ name ∈ root ++ rest, PlainName name) → octet 0 ∉ absolutePath (root ++ rest) true →
    resolved root dataPath = some (absolutePath (root ++ rest) true) →
    fileType disk (absolutePath (root ++ rest) false) ≠ some .symlink

section Captures
variable {disk : Disk} {order : DirectoryOrder} {sort : List ArtifactCandidate → List ArtifactCandidate}
  {swordRoot dataPath data : Path} {configs : List Path} {root loc : Loc} {output : List ArtifactCandidate}
  {diagnostics : List Diagnostic}

theorem reached_nil (disk : Disk) (loc : Loc) : disk.Reached loc [] :=
  fun _ habove hne => absurd (List.prefix_nil.mp habove) hne

theorem object_of_status (h : disk.symlinkStatus data = some loc) : DataObject disk data data loc [] :=
  .atOrBelow h (by rw [List.append_nil]; exact node_of_status h)

variable (hroot : disk.canonical swordRoot = .ok root)
include hroot

/-- A DataPath that leads out by its names is told of. -/
theorem escape_reported (hne : dataPath ≠ []) (h : resolved root dataPath = none) :
    escapeDiagnostic "artifact.datapath.escape" escapeMessage dataPath ∈
      (discoverArtifacts (disk.discovery order) sort swordRoot dataPath configs).2 := by
  have hcanonical : (disk.discovery order).canonical swordRoot = .ok (absolutePath root false) := by
    show ((disk.canonical swordRoot).map fun loc => absolutePath loc false).mapError disk.message = _
    rw [hroot]
    rfl
  unfold resolved at h
  rw [if_neg hne] at h
  unfold discoverArtifacts
  rw [hcanonical]
  dsimp only
  apply List.mem_append_right
  unfold dataCandidates
  rw [if_neg hne, h]
  exact List.mem_singleton_self _

variable (horder : disk.Lists order) (hsort : ∀ l, Sorting ArtifactCandidate.relativePath l (sort l))
  (hfound : ∀ path ∈ accepted root configs, disk.symlinkStatus path ≠ none)
include horder hsort hfound

theorem confining_of_linkless (h : GivenLinkless disk root dataPath configs) :
    Confining disk root dataPath (discoverArtifacts (disk.discovery order) sort swordRoot dataPath configs).1
      (discoverArtifacts (disk.discovery order) sort swordRoot dataPath configs).2 := by
  refine ⟨fun c hc => ?_, fun rest trailing hplain hresolved hlink => ?_, fun hleaves => ?_⟩
  · rw [discoverArtifacts_fst hroot] at hc
    have hmem := ((hsort _).perm.mem_iff).mp (mem_of_mem_unique hc)
    rcases mem_sortedCandidates.mp hmem with ⟨path, hpath, rfl⟩ | ⟨data, path, hdata, hpath, rfl⟩
    · exact (h.configs path hpath).contained hroot (hfound path hpath)
    · obtain ⟨base, loc, names, hobject, hreached, rfl⟩ := listing_sound horder hpath
      exact (h.data data base loc names hdata hobject hreached).object hroot hobject
  · have hthere : fileType disk (absolutePath (root ++ rest) trailing) = some .symlink := by
      cases trailing with
      | false => exact hlink
      | true =>
        by_cases hnul : octet 0 ∈ absolutePath (root ++ rest) true
        · -- the system reads neither the separator nor what is in front of it
          have hne : root ++ rest ≠ [] := by
            intro hnil
            rw [hnil] at hnul
            exact absurd hnul (by decide)
          have hsame : cString (absolutePath (root ++ rest) true) = cString (absolutePath (root ++ rest) false) := by
            rw [mem_absolutePath (by decide)] at hnul
            rw [absolutePath_trailing hne, cString_append ((mem_absolutePath (by decide)).mpr hnul)]
          unfold fileType Disk.symlinkStatus at hlink ⊢
          rwa [hsame]
        · exact absurd hlink (h.bare rest hplain hnul hresolved)
    have hgiven : Given disk root dataPath configs (absolutePath (root ++ rest) trailing) :=
      ⟨.inr hresolved, by rw [hthere]; exact Option.some_ne_none _⟩
    obtain ⟨c, hc, hpath⟩ : ∃ c ∈ sortedCandidates disk order root dataPath configs,
        c.absolutePath = absolutePath (root ++ rest) trailing := hgiven.candidate
    obtain ⟨found, hfound, hsame, -⟩ := exists_discovered hroot horder hsort hc
    exact ⟨found, hfound, hsame.trans hpath, by rw [hsame, hpath, hthere]⟩
  · obtain ⟨hne, hout | ⟨data, loc, hdata, hstatus, hout⟩⟩ := hleaves
    · exact ⟨escapeMessage, escape_reported hroot hne hout⟩
    · have hlinkless := h.data data data loc [] hdata (object_of_status hstatus) (reached_nil disk loc)
      obtain ⟨rest, trailing, -, -, -, hsame⟩ :=
        (hlinkless.contained hroot (by rw [hstatus]; exact Option.some_ne_none loc)).way
      rw [hsame loc hstatus] at hout
      exact absurd (List.prefix_append root rest) hout

end Captures

section Iff
variable {disk : Disk} {swordRoot dataPath : Path} {configs : List Path} {root : Loc}

theorem linkless_of_confined (h : CaptureConfined disk swordRoot dataPath configs)
    (hroot : disk.canonical swordRoot = .ok root)
    (hfound : ∀ path ∈ accepted root configs, disk.symlinkStatus path ≠ none) :
    GivenLinkless disk root dataPath configs := by
  have hsort := sorting_mergeSort ArtifactCandidate.relativePath
  -- every candidate, in any order, is discovered under its path
  have hall : ∀ order, disk.Lists order → ∀ c ∈ sortedCandidates disk order root dataPath configs,
      Contained disk root c.absolutePath := by
    intro order horder c hc
    obtain ⟨found, hfound, hsame, -⟩ := exists_discovered hroot horder hsort hc
    rw [← hsame]
    exact (h root hroot order horder _ hsort).contained found hfound
  have horder : disk.Lists disk.fs.entries := fun loc => List.Perm.refl _
  refine ⟨fun path hpath => ?_, fun data base loc names hdata hobject hreached => ?_,
    fun rest hplain hfree hresolved hlink => ?_⟩
  · obtain ⟨loc, hstatus⟩ := Option.ne_none_iff_exists'.mp (hfound path hpath)
    exact (hall _ horder _ (mem_sortedCandidates.mpr (.inl ⟨path, hpath, rfl⟩))).linkless hstatus
  · obtain ⟨order, horder, hlisted⟩ := listing_reached hobject hreached
    have hcontained := hall order horder _ (mem_sortedCandidates.mpr (.inr ⟨data, _, hdata, hlisted, rfl⟩))
    cases hobject with
    | @atOrBelow loc names hexists hthere =>
      have hself : data ∈ listing disk order data := by
        rw [listing_of_exists hexists]
        exact List.mem_cons_self
      exact (hall order horder _ (mem_sortedCandidates.mpr (.inr ⟨data, data, hdata, hself, rfl⟩))).linkless hexists
    | @beside found name hmissing hparent hthere hname =>
      exact linkless_of_beside hroot (below_of_resolved hroot hdata) hmissing (disk.fs.named _ _ hthere) hname hcontained
  · obtain ⟨c, -, hpath, htype⟩ := (h root hroot _ horder _ hsort).link rest true hplain hresolved hlink
    rw [hpath] at htype
    exact FileType.noConfusion (fileType_trailing hplain hfree htype)

/-- Where the configuration files are there, what is discovered is confined to the root exactly where nothing that is
given leads through a link. -/
theorem capture_confined_iff (hfound : ∀ root, disk.canonical swordRoot = .ok root → ∀ path ∈ accepted root configs,
      disk.symlinkStatus path ≠ none) :
    CaptureConfined disk swordRoot dataPath configs ↔
      ∀ root, disk.canonical swordRoot = .ok root → GivenLinkless disk root dataPath configs :=
  ⟨fun h root hroot => linkless_of_confined h hroot (hfound root hroot),
    fun h root hroot _ horder _ hsort => confining_of_linkless hroot horder hsort (hfound root hroot) (h root hroot)⟩

end Iff

/-! ## A link out of the root -/

theorem capture_confined_iff_configTree :
    CaptureConfined (openDisk configTree) (ascii "/") (ascii "mods.d/kjv") [ascii "/mods.d/kjv.conf"] ↔
      ∀ root, (openDisk configTree).canonical (ascii "/") = .ok root →
        GivenLinkless (openDisk configTree) root (ascii "mods.d/kjv") [ascii "/mods.d/kjv.conf"] := by
  refine capture_confined_iff fun root hroot => ?_
  have hslash : (openDisk configTree).canonical (ascii "/") = .ok [] := by decide +kernel
  obtain rfl := Except.ok.inj (hslash.symm.trans hroot)
  decide +kernel

/-- A root with a link to the directory above it, which holds a file. -/
def linkedTree : FileSystem :=
  (((FileSystem.bare 0o700).insert [] (ascii "f") (.file 0o600 []) (by decide) (by decide) (by decide)).insert
    [] (ascii "sword") (.dir 0o700) (by decide) (by decide) (by decide)).insert
    [ascii "sword"] (ascii "out") (.link (ascii "..")) (by decide) (by decide) (by decide)

/-- The DataPath leads to the file by way of the link. -/
theorem linkedTree_not_confined : ¬ CaptureConfined (openDisk linkedTree) (ascii "/sword") (ascii "out/f") [] := by
  intro h
  have hroot : (openDisk linkedTree).canonical (ascii "/sword") = .ok [ascii "sword"] := by decide +kernel
  have hresolved : resolved [ascii "sword"] (ascii "out/f") = some (ascii "/sword/out/f") := by decide +kernel
  have hstatus : (openDisk linkedTree).symlinkStatus (ascii "/sword/out/f") = some [ascii "f"] := by decide +kernel
  have hgiven := linkless_of_confined h hroot fun path hpath => absurd hpath List.not_mem_nil
  have hlinkless := hgiven.data _ _ _ _ hresolved (object_of_status hstatus) (reached_nil _ _)
  obtain ⟨rest, trailing, -, -, -, hsame⟩ :=
    (hlinkless.contained hroot (by rw [hstatus]; exact Option.some_ne_none _)).way
  exact absurd (List.cons.inj (hsame _ hstatus)).1 (by decide)

end GetBibleSword.Tool
