import GetBibleSword.Lib.Posix.Walk

/-!
# `std::filesystem::path`

Paths in their native form, and the operations that never look at a file system.

* `elements`, `join`, `filename`, `parentPath`, `lexicallyNormal`, `lexicallyRelative`;
* `absolutePath names trailing` : the normal absolute paths (`lexicallyNormal_absolute`);
* `elements_absolutePath`, `join_absolutePath`, `absolutePath_inj` : how they are built and taken apart;
* `lexicallyRelative_below`, `lexicallyRelative_outside` : what they are relative to another one.
-/

namespace GetBibleSword.Lib.FsPath
open Posix

abbrev Path := Bytes

/-- What a system call reads of a path. -/
def cString (path : Path) : Path := path.takeWhile fun byte => byte ≠ octet 0

/-- The elements a path is iterated by. -/
def elements (path : Path) : List Bytes :=
  let names := (components path).filter fun segment => !segment.isEmpty
  (if isAbsolute path then [[separator]] else []) ++ names ++
    if names ≠ [] ∧ path.getLast? = some separator then [[]] else []

/-- `path / name`. -/
def join (path name : Path) : Path :=
  if isAbsolute name ∨ path = [] then name
  else if path.getLast? = some separator then path ++ name
  else path ++ separator :: name

def filename (path : Path) : Path := (components path).getLastD []

/-- Without the separators at its end. -/
def stripSeparators (path : Path) : Path := (path.reverse.dropWhile fun byte => byte = separator).reverse

def parentPath (path : Path) : Path :=
  let stripped := stripSeparators (path.take (path.length - (filename path).length))
  if stripped = [] ∧ isAbsolute path then [separator] else stripped

/-! ## The normal form -/

/-- One segment more: the names so far, and whether a separator stands behind them. -/
def normalStep (absolute : Bool) (state : List Name × Bool) (segment : Name) : List Name × Bool :=
  if segment = [] ∨ segment = dot then (state.1, true)
  else if segment = dotdot then
    match state.1.getLast? with
    | some last => if last = dotdot then (state.1 ++ [dotdot], false) else (state.1.dropLast, true)
    | none => if absolute then ([], true) else ([dotdot], false)
  else (state.1 ++ [segment], false)

/-- An absolute path of these names. -/
def absolutePath (names : List Name) (trailing : Bool) : Path :=
  if names = [] then [separator]
  else names.flatMap (separator :: ·) ++ if trailing then [separator] else []

/-- A relative path of these names; of none it is the directory itself. -/
def relativePath (names : List Name) (trailing : Bool) : Path :=
  if names = [] then dot else (absolutePath names trailing).tail

def lexicallyNormal (path : Path) : Path :=
  if path = [] then []
  else
    let (names, trailing) := (components path).foldl (normalStep (isAbsolute path)) ([], false)
    if isAbsolute path then absolutePath names trailing
    else relativePath names (trailing && names.getLast? ≠ some dotdot)

/-! ## Relative to another path -/

/-- `std::mismatch`. -/
def mismatch : List Bytes → List Bytes → List Bytes × List Bytes
  | a :: as, b :: bs => if a = b then mismatch as bs else (a :: as, b :: bs)
  | as, bs => (as, bs)

/-- How far up the elements lead: down for each name, up for each dot-dot. -/
def depth (elements : List Bytes) : Int :=
  elements.countP (fun element => element ≠ [] ∧ element ≠ dot ∧ element ≠ dotdot) -
    elements.countP (fun element => element = dotdot)

def lexicallyRelative (path base : Path) : Path :=
  if isAbsolute path ≠ isAbsolute base then []
  else
    let (a, b) := mismatch (elements path) (elements base)
    if a = [] ∧ b = [] then dot
    else if depth b = 0 ∧ (a = [] ∨ a.head? = some []) then dot
    else if depth b < 0 then []
    else (List.replicate (depth b).toNat dotdot ++ a).foldl join []

/-! ## Names -/

/-- What can stand between two separators of a normal path. -/
structure PlainName (name : Name) : Prop where
  nonempty : name ≠ []
  notDot : name ≠ dot
  notDotdot : name ≠ dotdot
  separator_notMem : separator ∉ name

theorem PlainName.of_valid {name : Name} (h : ValidName name) : PlainName name := by
  obtain ⟨hne, hdot, hdotdot, hseparator, -⟩ := h
  exact ⟨hne, hdot, hdotdot, hseparator⟩

section Names
variable {names rest : List Name} {name : Name} {trailing : Bool}

theorem components_append (front back : Bytes) :
    components (front ++ separator :: back) = components front ++ components back :=
  List.splitOn_append_cons_self _ _

theorem components_name (h : PlainName name) : components name = [name] :=
  List.splitOn_eq_singleton h.separator_notMem

theorem components_names (h : ∀ name ∈ names, PlainName name) :
    components (names.flatMap (separator :: ·)) = [] :: names := by
  induction names with
  | nil => rfl
  | cons name names ih =>
    have hrest := ih fun n hn => h n (List.mem_cons_of_mem _ hn)
    cases names with
    | nil =>
      show components ([] ++ separator :: (name ++ [])) = _
      rw [components_append, List.append_nil, components_name (h name List.mem_cons_self)]
      rfl
    | cons next names =>
      show components ([] ++ separator :: (name ++ separator :: (next ++ names.flatMap (separator :: ·)))) = _
      have hnext : components (separator :: (next ++ names.flatMap (separator :: ·))) = [] :: next :: names := hrest
      have hsplit := components_append [] (next ++ names.flatMap (separator :: ·))
      rw [List.nil_append, hnext] at hsplit
      have htail : components (next ++ names.flatMap (separator :: ·)) = next :: names :=
        (List.cons.inj hsplit).2.symm
      rw [components_append, components_append, components_name (h name List.mem_cons_self), htail]
      rfl

theorem absolutePath_cons (name : Name) (rest : List Name) (trailing : Bool) :
    absolutePath (name :: rest) trailing =
      (name :: rest).flatMap (separator :: ·) ++ if trailing then [separator] else [] :=
  if_neg (List.cons_ne_nil name rest)

theorem components_absolutePath (h : ∀ name ∈ names, PlainName name) :
    components (absolutePath names trailing) =
      [] :: names ++ if trailing ∨ names = [] then [[]] else [] := by
  cases names with
  | nil =>
    rw [if_pos (Or.inr rfl)]
    rfl
  | cons name rest =>
    rw [absolutePath_cons]
    cases trailing with
    | false =>
      rw [if_neg Bool.false_ne_true, List.append_nil, components_names h, if_neg (by simp), List.append_nil]
    | true =>
      rw [if_pos rfl, if_pos (Or.inl rfl), components_append, components_names h]
      rfl

theorem isAbsolute_absolutePath (names : List Name) (trailing : Bool) :
    isAbsolute (absolutePath names trailing) = true := by
  cases names with
  | nil => rfl
  | cons name rest =>
    rw [absolutePath_cons]
    rfl

/-- Behind plain names it shows whether something empty follows. -/
theorem names_end_inj {names' : List Name} {c c' : Prop} [Decidable c] [Decidable c']
    (h : ∀ name ∈ names, PlainName name) (h' : ∀ name ∈ names', PlainName name)
    (heq : (names ++ if c then [[]] else []) = names' ++ if c' then [[]] else []) : names = names' ∧ (c ↔ c') := by
  have hempty : ∀ {l : List Name}, (∀ name ∈ l, PlainName name) → ([] : Name) ∉ l :=
    fun hl hmem => (hl _ hmem).nonempty rfl
  by_cases hc : c
  · rw [if_pos hc] at heq
    by_cases hc' : c'
    · rw [if_pos hc'] at heq
      exact ⟨List.append_inj_left' heq rfl, iff_of_true hc hc'⟩
    · rw [if_neg hc', List.append_nil] at heq
      exact absurd (heq ▸ List.mem_append_right names (List.mem_singleton_self _)) (hempty h')
  · rw [if_neg hc, List.append_nil] at heq
    by_cases hc' : c'
    · rw [if_pos hc'] at heq
      exact absurd (heq ▸ List.mem_append_right names' (List.mem_singleton_self _)) (hempty h)
    · rw [if_neg hc', List.append_nil] at heq
      exact ⟨heq, iff_of_false hc hc'⟩

/-- Different names, or another end, are another path. -/
theorem absolutePath_inj {names' : List Name} {trailing' : Bool} (h : ∀ name ∈ names, PlainName name)
    (h' : ∀ name ∈ names', PlainName name) (heq : absolutePath names trailing = absolutePath names' trailing') :
    names = names' ∧ (names ≠ [] → trailing = trailing') := by
  have hcomponents := congrArg components heq
  rw [components_absolutePath h, components_absolutePath h', List.cons_append, List.cons_append] at hcomponents
  obtain ⟨rfl, hend⟩ := names_end_inj h h' (List.cons.inj hcomponents).2
  refine ⟨rfl, fun hne => ?_⟩
  rw [or_iff_left hne, or_iff_left hne] at hend
  exact Bool.eq_iff_iff.mpr hend

/-- What is no separator stands in a name. -/
theorem mem_absolutePath {byte : Byte} (hne : byte ≠ separator) :
    byte ∈ absolutePath names trailing ↔ ∃ name ∈ names, byte ∈ name := by
  cases names with
  | nil =>
    show byte ∈ [separator] ↔ _
    simp [hne]
  | cons name rest =>
    rw [absolutePath_cons, List.mem_append, List.mem_flatMap]
    cases trailing with
    | true => simp [hne]
    | false => simp [hne]

theorem cString_of_notMem {path : Path} (h : octet 0 ∉ path) : cString path = path := by
  rw [cString, List.takeWhile_eq_self_iff]
  exact fun byte hbyte => decide_eq_true fun heq => h (heq ▸ hbyte)

theorem cString_append {path : Path} (h : octet 0 ∈ path) (more : Path) : cString (path ++ more) = cString path := by
  induction path with
  | nil => exact absurd h List.not_mem_nil
  | cons byte path ih =>
    unfold cString at ih ⊢
    rw [List.cons_append, List.takeWhile_cons, List.takeWhile_cons]
    by_cases hbyte : byte = octet 0
    · rw [if_neg (by simpa using hbyte), if_neg (by simpa using hbyte)]
    · rw [if_pos (by simpa using hbyte), if_pos (by simpa using hbyte),
        ih ((List.mem_cons.mp h).resolve_left (Ne.symm hbyte))]

theorem absolutePath_trailing (hne : names ≠ []) : absolutePath names true = absolutePath names false ++ [separator] := by
  obtain ⟨name, rest, rfl⟩ := List.exists_cons_of_ne_nil hne
  rw [absolutePath_cons, absolutePath_cons, if_pos rfl, if_neg Bool.false_ne_true, List.append_nil]

theorem cString_absolutePath (h : ∀ name ∈ names, ValidName name) :
    cString (absolutePath names trailing) = absolutePath names trailing := by
  apply cString_of_notMem
  rw [mem_absolutePath (by decide)]
  intro hmem
  obtain ⟨name, hname, hnul⟩ := hmem
  exact (h name hname).2.2.2.2 hnul

end Names

/-! ## Elements -/

section Elements
variable {names rest root : List Name} {name : Name} {trailing : Bool}

theorem getLast?_absolutePath (h : ∀ name ∈ names, PlainName name) (hne : names ≠ []) :
    (absolutePath names trailing).getLast? = some separator ↔ trailing = true := by
  obtain ⟨first, rest, rfl⟩ := List.exists_cons_of_ne_nil hne
  rw [absolutePath_cons]
  cases trailing with
  | true =>
    rw [if_pos rfl, List.getLast?_concat]
    simp
  | false =>
    obtain ⟨front, last, hlast⟩ : ∃ front last, first :: rest = front ++ [last] :=
      ⟨_, _, (List.dropLast_append_getLast hne).symm⟩
    have hplain := h last (by rw [hlast]; simp)
    have hlastne := hplain.nonempty
    obtain ⟨init, byte, hbyte⟩ : ∃ init byte, last = init ++ [byte] :=
      ⟨_, _, (List.dropLast_append_getLast hlastne).symm⟩
    rw [hlast, if_neg Bool.false_ne_true, List.append_nil, List.flatMap_append, List.flatMap_singleton, hbyte]
    have hseparator : byte ≠ separator := by
      rintro rfl
      exact hplain.separator_notMem (by rw [hbyte]; simp)
    rw [← List.cons_append, ← List.append_assoc, List.getLast?_concat, Option.some.injEq]
    exact iff_of_false hseparator Bool.false_ne_true

/-- A normal absolute path is the root, its names, and nothing behind a separator at its end. -/
theorem elements_absolutePath (h : ∀ name ∈ names, PlainName name) :
    elements (absolutePath names trailing) =
      [separator] :: names ++ if trailing = true ∧ names ≠ [] then [[]] else [] := by
  have hfilter : (components (absolutePath names trailing)).filter (fun segment => !segment.isEmpty) = names := by
    have hkeep : names.filter (fun segment => !segment.isEmpty) = names := by
      rw [List.filter_eq_self]
      intro name hname
      have := (h name hname).nonempty
      simpa using this
    rw [components_absolutePath h, List.filter_append, List.filter_cons_of_neg (by simp), hkeep]
    split_ifs <;> simp
  unfold elements
  dsimp only
  rw [hfilter, isAbsolute_absolutePath, if_pos rfl]
  by_cases hne : names = []
  · rw [if_neg (fun hc => hc.1 hne), if_neg (fun hc => hc.2 hne)]
    rfl
  · have hlast := @getLast?_absolutePath _ trailing h hne
    by_cases ht : trailing = true
    · rw [if_pos ⟨hne, hlast.mpr ht⟩, if_pos ⟨ht, hne⟩]
      rfl
    · rw [if_neg (fun hc => ht (hlast.mp hc.2)), if_neg (fun hc => ht hc.1)]
      rfl

theorem elements_base (h : ∀ name ∈ names, PlainName name) :
    elements (absolutePath names false) = [separator] :: names := by
  rw [elements_absolutePath h, if_neg (fun hc => Bool.false_ne_true hc.1), List.append_nil]

/-- Normal paths are compared by their elements. -/
theorem elements_inj {names' : List Name} {trailing' : Bool} (h : ∀ name ∈ names, PlainName name)
    (h' : ∀ name ∈ names', PlainName name)
    (heq : elements (absolutePath names trailing) = elements (absolutePath names' trailing')) :
    absolutePath names trailing = absolutePath names' trailing' := by
  rw [elements_absolutePath h, elements_absolutePath h', List.cons_append, List.cons_append] at heq
  obtain ⟨rfl, hend⟩ := names_end_inj h h' (List.cons.inj heq).2
  by_cases hne : names = []
  · rw [hne]
    rfl
  · rw [and_iff_left hne, and_iff_left hne] at hend
    rw [Bool.eq_iff_iff.mpr hend]

theorem isAbsolute_name (h : PlainName name) : isAbsolute name = false := by
  unfold isAbsolute
  rw [decide_eq_false_iff_not]
  intro hhead
  exact h.separator_notMem (List.mem_of_head? hhead)

theorem isAbsolute_join {path : Path} (h : isAbsolute path = true) (name : Path) : isAbsolute (join path name) = true := by
  by_cases hname : isAbsolute name = true
  · unfold join
    rwa [if_pos (.inl hname)]
  cases path with
  | nil => cases h
  | cons first rest =>
    unfold join
    rw [if_neg (fun hcond => hcond.elim hname (List.cons_ne_nil _ _))]
    by_cases hlast : (first :: rest).getLast? = some separator
    · rw [if_pos hlast]
      exact h
    · rw [if_neg hlast]
      exact h

theorem absolutePath_ne_nil (names : List Name) (trailing : Bool) : absolutePath names trailing ≠ [] := by
  intro hnil
  have habsolute := isAbsolute_absolutePath names trailing
  rw [hnil] at habsolute
  cases habsolute

/-- A name behind a directory. -/
theorem join_absolutePath (h : ∀ name ∈ names, PlainName name) (hname : PlainName name) :
    join (absolutePath names trailing) name = absolutePath (names ++ [name]) false := by
  have hnew : absolutePath (names ++ [name]) false = names.flatMap (separator :: ·) ++ separator :: name := by
    unfold absolutePath
    rw [if_neg (by simp), if_neg Bool.false_ne_true, List.append_nil, List.flatMap_append, List.flatMap_singleton]
  unfold join
  rw [isAbsolute_name hname, hnew]
  rw [if_neg (by simp [absolutePath_ne_nil])]
  by_cases hne : names = []
  · subst hne
    rfl
  · have hlast := @getLast?_absolutePath _ trailing h hne
    unfold absolutePath at hlast ⊢
    rw [if_neg hne] at hlast ⊢
    cases trailing with
    | true =>
      rw [if_pos (hlast.mpr rfl), if_pos rfl, List.append_assoc]
      rfl
    | false => rw [if_neg (fun hc => Bool.false_ne_true (hlast.mp hc)), if_neg Bool.false_ne_true, List.append_nil]

theorem elements_ne_root (h : PlainName name) : name ≠ [separator] := by
  rintro rfl
  exact h.separator_notMem (List.mem_singleton_self _)

end Elements

/-! ## Normal paths -/

section Normal
variable {names rest root : List Name} {name : Name} {trailing : Bool}

theorem normalStep_plain {absolute : Bool} {state : List Name × Bool} {segment : Name}
    (habsolute : absolute = true) (h : ∀ name ∈ state.1, PlainName name) (hsegment : separator ∉ segment) :
    ∀ name ∈ (normalStep absolute state segment).1, PlainName name := by
  unfold normalStep
  by_cases hdot : segment = [] ∨ segment = dot
  · rw [if_pos hdot]
    exact h
  rw [if_neg hdot]
  by_cases hdotdot : segment = dotdot
  · rw [if_pos hdotdot]
    cases hlast : state.1.getLast? with
    | none =>
      dsimp only
      rw [if_pos habsolute]
      exact fun _ hn => by cases hn
    | some last =>
      have hplain := h last (List.mem_of_getLast? hlast)
      dsimp only
      rw [if_neg hplain.notDotdot]
      exact fun n hn => h n (List.mem_of_mem_dropLast hn)
  · rw [if_neg hdotdot]
    intro n hn
    rcases List.mem_append.mp hn with hn | hn
    · exact h n hn
    · rw [List.mem_singleton.mp hn]
      exact ⟨fun hnil => hdot (Or.inl hnil), fun hd => hdot (Or.inr hd), hdotdot, hsegment⟩

theorem separator_notMem_components (path : Path) : ∀ segment ∈ components path, separator ∉ segment := by
  induction hlength : path.length using Nat.strong_induction_on generalizing path with
  | _ n ih =>
    intro segment hsegment
    by_cases hmem : separator ∈ path
    · obtain ⟨front, back, rfl, hfront⟩ := List.eq_append_cons_of_mem hmem
      rw [components_append] at hsegment
      have hsingle : components front = [front] := List.splitOn_eq_singleton hfront
      rw [hsingle, List.singleton_append] at hsegment
      rcases List.mem_cons.mp hsegment with rfl | hsegment
      · exact hfront
      · apply ih back.length _ back rfl segment hsegment
        rw [← hlength, List.length_append, List.length_cons]
        omega
    · have hsingle : components path = [path] := List.splitOn_eq_singleton hmem
      rw [hsingle, List.mem_singleton] at hsegment
      rw [hsegment]
      exact hmem

/-- The normal form of an absolute path has plain names only. -/
theorem lexicallyNormal_absolute {path : Path} (h : isAbsolute path = true) :
    ∃ names trailing, lexicallyNormal path = absolutePath names trailing ∧ ∀ name ∈ names, PlainName name := by
  have hfold : ∀ (segments : List Name) (state : List Name × Bool), (∀ name ∈ state.1, PlainName name) →
      (∀ segment ∈ segments, separator ∉ segment) →
      ∀ name ∈ (segments.foldl (normalStep true) state).1, PlainName name := by
    intro segments
    induction segments with
    | nil => exact fun _ h _ => h
    | cons segment segments ih =>
      intro state hstate hsegments
      apply ih
      · exact normalStep_plain rfl hstate (hsegments segment List.mem_cons_self)
      · exact fun s hs => hsegments s (List.mem_cons_of_mem _ hs)
  have hne : path ≠ [] := by
    rintro rfl
    cases h
  unfold lexicallyNormal
  rw [if_neg hne]
  dsimp only
  rw [h, if_pos rfl]
  exact ⟨_, _, rfl, hfold _ _ (fun _ hn => by cases hn) (separator_notMem_components path)⟩

theorem filename_absolutePath (h : ∀ name ∈ names, PlainName name) :
    filename (absolutePath names trailing) = if trailing = true then [] else names.getLastD [] := by
  unfold filename
  rw [components_absolutePath h]
  cases trailing with
  | true =>
    rw [if_pos (Or.inl rfl), if_pos rfl, List.getLastD_concat]
  | false =>
    cases names with
    | nil => rfl
    | cons first rest => simp

theorem stripSeparators_append (path : Path) : stripSeparators (path ++ [separator]) = stripSeparators path := by
  unfold stripSeparators
  rw [List.reverse_append, List.reverse_singleton, List.singleton_append,
    List.dropWhile_cons, if_pos (decide_eq_true rfl)]

theorem parentPath_prefix (path : Path) : parentPath path <+: path := by
  have hstripped : ∀ p : Path, stripSeparators p <+: p := by
    intro p
    unfold stripSeparators
    rw [← List.reverse_suffix, List.reverse_reverse]
    exact List.dropWhile_suffix _
  unfold parentPath
  dsimp only
  split_ifs with hcond
  · obtain ⟨byte, more, rfl⟩ := List.exists_cons_of_ne_nil (l := path) (by
      intro hnil
      rw [hnil] at hcond
      exact absurd hcond.2 (by decide))
    have hbyte : byte = separator := Option.some.inj (of_decide_eq_true hcond.2)
    rw [hbyte]
    exact ⟨more, rfl⟩
  · exact (hstripped _).trans (List.take_prefix _ _)

theorem stripSeparators_names (h : ∀ name ∈ names, PlainName name) :
    stripSeparators (names.flatMap (separator :: ·)) = names.flatMap (separator :: ·) := by
  rcases List.eq_nil_or_concat' names with rfl | ⟨front, last, rfl⟩
  · rfl
  · have hplain := h last (by simp)
    obtain ⟨init, byte, rfl⟩ : ∃ init byte, last = init ++ [byte] :=
      ⟨_, _, (List.dropLast_append_getLast hplain.nonempty).symm⟩
    have hseparator : byte ≠ separator := by
      rintro rfl
      exact hplain.separator_notMem (by simp)
    unfold stripSeparators
    rw [List.flatMap_append, List.flatMap_singleton, ← List.cons_append, ← List.append_assoc,
      List.reverse_append, List.reverse_singleton, List.singleton_append,
      List.dropWhile_cons_of_neg (by simpa using hseparator), List.reverse_cons, List.reverse_reverse]

/-- The directory a normal path names an entry of. -/
theorem parentPath_absolutePath (h : ∀ name ∈ names, PlainName name) :
    parentPath (absolutePath names trailing) =
      absolutePath (if trailing = true then names else names.dropLast) false := by
  have hlift : ∀ front : List Name, (∀ name ∈ front, PlainName name) → ∀ path : Path, isAbsolute path = true →
      (if stripSeparators (front.flatMap (separator :: ·) ++ [separator]) = [] ∧ isAbsolute path = true
        then [separator] else stripSeparators (front.flatMap (separator :: ·) ++ [separator])) =
      absolutePath front false := by
    intro front hfront path hpath
    rw [stripSeparators_append, stripSeparators_names hfront]
    cases front with
    | nil => exact if_pos ⟨rfl, hpath⟩
    | cons first rest =>
      rw [absolutePath_cons, if_neg (fun hc => by cases hc.1), if_neg Bool.false_ne_true, List.append_nil]
  have habsolute := isAbsolute_absolutePath names trailing
  unfold parentPath
  rw [filename_absolutePath h]
  rcases List.eq_nil_or_concat' names with rfl | ⟨front, last, rfl⟩
  · cases trailing <;> rfl
  · cases trailing with
    | true =>
      have hpath : absolutePath (front ++ [last]) true =
          (front ++ [last]).flatMap (separator :: ·) ++ [separator] := if_neg (by simp)
      rw [if_pos rfl, if_pos rfl, List.length_nil, Nat.sub_zero, List.take_length, hpath]
      exact hlift _ h _ (hpath ▸ habsolute)
    | false =>
      have hpath : absolutePath (front ++ [last]) false = (front.flatMap (separator :: ·) ++ [separator]) ++ last := by
        unfold absolutePath
        rw [if_neg (by simp), if_neg Bool.false_ne_true, List.append_nil, List.flatMap_append, List.flatMap_singleton]
        simp
      have hlast : (front ++ [last]).getLastD [] = last := by simp
      rw [if_neg Bool.false_ne_true, if_neg Bool.false_ne_true, hlast, hpath, List.dropLast_concat,
        List.length_append, Nat.add_sub_cancel, List.take_left']
      · exact hlift front (fun n hn => h n (List.mem_append_left _ hn)) _ (hpath ▸ habsolute)
      · rfl

end Normal

/-! ## Relative paths -/

section Relative
variable {names rest root : List Name} {name : Name} {trailing : Bool}

theorem mismatch_append (l rest : List Bytes) : mismatch (l ++ rest) l = (rest, []) := by
  induction l with
  | nil => cases rest <;> rfl
  | cons x l ih =>
    rw [List.cons_append, mismatch, if_pos rfl]
    exact ih

theorem mismatch_split (l : List Bytes) : ∀ m : List Bytes, ∃ common,
    l = common ++ (mismatch l m).1 ∧ m = common ++ (mismatch l m).2 := by
  induction l with
  | nil => exact fun m => ⟨[], by cases m <;> rfl, by cases m <;> rfl⟩
  | cons x l ih =>
    intro m
    cases m with
    | nil => exact ⟨[], rfl, rfl⟩
    | cons y m =>
      rw [mismatch]
      split_ifs with hxy
      · obtain ⟨common, hl, hm⟩ := ih m
        refine ⟨x :: common, ?_, ?_⟩
        · rw [List.cons_append, ← hl]
        · rw [List.cons_append, ← hm, hxy]
      · exact ⟨[], rfl, rfl⟩

theorem join_name {path : Path} (hne : path ≠ []) (hlast : path.getLast? ≠ some separator)
    (hname : isAbsolute name = false) : join path name = path ++ separator :: name := by
  unfold join
  rw [if_neg (by simp [hne, hname]), if_neg hlast]

theorem foldl_join (h : ∀ name ∈ names, PlainName name) : ∀ {path : Path}, path ≠ [] →
    path.getLast? ≠ some separator → names.foldl join path = path ++ names.flatMap (separator :: ·) := by
  induction names with
  | nil =>
    intro path _ _
    rw [List.foldl_nil, List.flatMap_nil, List.append_nil]
  | cons name names ih =>
    intro path hne hlast
    have hplain := h name List.mem_cons_self
    rw [List.foldl_cons, join_name hne hlast (isAbsolute_name hplain), ih (fun n hn => h n (List.mem_cons_of_mem _ hn))]
    · rw [List.flatMap_cons, List.append_assoc]
    · simp
    · obtain ⟨init, byte, rfl⟩ : ∃ init byte, name = init ++ [byte] :=
        ⟨_, _, (List.dropLast_append_getLast hplain.nonempty).symm⟩
      rw [← List.cons_append, ← List.append_assoc, List.getLast?_concat, ne_eq, Option.some.injEq]
      rintro rfl
      exact hplain.separator_notMem (by simp)

theorem getLast?_name (h : PlainName name) : name.getLast? ≠ some separator :=
  fun hlast => h.separator_notMem (List.mem_of_getLast? hlast)

theorem relativePath_cons (name : Name) (rest : List Name) (trailing : Bool) :
    relativePath (name :: rest) trailing =
      name ++ rest.flatMap (separator :: ·) ++ if trailing then [separator] else [] := by
  unfold relativePath
  rw [if_neg (List.cons_ne_nil _ _), absolutePath_cons]
  rfl

theorem absolutePath_eq_cons (hne : names ≠ []) :
    absolutePath names trailing = separator :: relativePath names trailing := by
  obtain ⟨name, rest, rfl⟩ := List.exists_cons_of_ne_nil hne
  rw [relativePath_cons, absolutePath_cons]
  rfl

/-- Below the base: the names behind its own. -/
theorem lexicallyRelative_below (h : ∀ name ∈ root ++ rest, PlainName name) :
    lexicallyRelative (absolutePath (root ++ rest) trailing) (absolutePath root false) =
      relativePath rest trailing := by
  have hroot : ∀ name ∈ root, PlainName name := fun n hn => h n (List.mem_append_left _ hn)
  have hrest : ∀ name ∈ rest, PlainName name := fun n hn => h n (List.mem_append_right _ hn)
  have hmismatch : ∀ tail : List Bytes, mismatch ([separator] :: (root ++ rest) ++ tail) ([separator] :: root) =
      (rest ++ tail, []) := by
    intro tail
    rw [List.cons_append, List.append_assoc, ← List.cons_append]
    exact mismatch_append _ _
  unfold lexicallyRelative
  rw [isAbsolute_absolutePath, isAbsolute_absolutePath, if_neg (not_not.mpr rfl), elements_absolutePath h,
    elements_base hroot, hmismatch]
  dsimp only
  have hdepth : depth [] = 0 := rfl
  cases rest with
  | nil =>
    rw [List.nil_append, hdepth]
    by_cases hc : trailing = true ∧ root ++ [] ≠ []
    · rw [if_pos hc, if_neg (by simp), if_pos ⟨rfl, Or.inr rfl⟩]
      rfl
    · rw [if_neg hc, if_pos ⟨rfl, rfl⟩]
      rfl
  | cons first rest =>
    have hfirst := hrest first List.mem_cons_self
    have hbehind : ∀ name ∈ rest, PlainName name := fun n hn => hrest n (List.mem_cons_of_mem _ hn)
    rw [if_neg (by simp), hdepth, if_neg (by simp [hfirst.nonempty]), if_neg (by decide), Int.toNat_zero,
      List.replicate_zero, List.nil_append, List.foldl_append, List.foldl_cons, relativePath_cons]
    have hstart : join [] first = first := if_pos (Or.inr rfl)
    have hnames := foldl_join hbehind hfirst.nonempty (getLast?_name hfirst)
    rw [hstart, hnames]
    cases trailing with
    | false =>
      rw [if_neg (fun hc => Bool.false_ne_true hc.1), if_neg Bool.false_ne_true, List.append_nil]
      rfl
    | true =>
      rw [if_pos ⟨rfl, by simp⟩, if_pos rfl, List.foldl_cons, List.foldl_nil]
      have hlast := @getLast?_absolutePath _ false hrest (by simp)
      rw [absolutePath_cons, if_neg Bool.false_ne_true, List.append_nil, List.flatMap_cons, List.cons_append,
        List.getLast?_cons] at hlast
      apply join_name
      · simp [hfirst.nonempty]
      · intro hend
        rw [hend] at hlast
        exact Bool.false_ne_true (hlast.mp rfl)
      · rfl

/-- What begins with dot-dot. -/
def LeadsUp (path : Path) : Prop := path = dotdot ∨ ∃ more, path = dotdot ++ separator :: more

theorem LeadsUp.join {path : Path} (h : LeadsUp path) (hname : isAbsolute name = false) :
    LeadsUp (FsPath.join path name) := by
  unfold FsPath.join
  have hne : path ≠ [] := by
    rcases h with rfl | ⟨more, rfl⟩
    · decide
    · simp
  rw [if_neg (by simp [hne, hname])]
  split_ifs with hlast
  · rcases h with rfl | ⟨more, rfl⟩
    · exact absurd hlast (by decide)
    · exact Or.inr ⟨more ++ name, by simp⟩
  · rcases h with rfl | ⟨more, rfl⟩
    · exact Or.inr ⟨name, rfl⟩
    · exact Or.inr ⟨more ++ separator :: name, by simp⟩

theorem LeadsUp.elements {path : Path} (h : LeadsUp path) : (FsPath.elements path).head? = some dotdot := by
  have hplain : components dotdot = [dotdot] := by decide
  have habsolute : isAbsolute path = false := by
    rcases h with rfl | ⟨more, rfl⟩
    · decide
    · rfl
  unfold FsPath.elements
  dsimp only
  rw [habsolute, if_neg Bool.false_ne_true, List.nil_append]
  rcases h with rfl | ⟨more, rfl⟩
  · rw [hplain]
    rfl
  · rw [components_append, hplain]
    rfl

/-- Outside the base: up. -/
theorem lexicallyRelative_outside (h : ∀ name ∈ names, PlainName name) (hroot : ∀ name ∈ root, PlainName name)
    (hout : ¬ root <+: names) :
    LeadsUp (lexicallyRelative (absolutePath names trailing) (absolutePath root false)) := by
  unfold lexicallyRelative
  rw [isAbsolute_absolutePath, isAbsolute_absolutePath, if_neg (not_not.mpr rfl), elements_absolutePath h,
    elements_base hroot]
  generalize htail : (if trailing = true ∧ names ≠ [] then [[]] else [] : List Bytes) = tail
  have htailplain : ∀ x ∈ tail, x = [] := by
    rw [← htail]
    split_ifs
    · exact fun x hx => List.mem_singleton.mp hx
    · exact fun x hx => by cases hx
  rw [List.cons_append, mismatch, if_pos rfl]
  obtain ⟨common, hl, hm⟩ := mismatch_split (names ++ tail) root
  generalize mismatch (names ++ tail) root = p at hl hm
  obtain ⟨a, b⟩ := p
  dsimp only at hl hm ⊢
  have hb : b ≠ [] := by
    rintro rfl
    rw [List.append_nil] at hm
    apply hout
    rw [← hm] at hl
    rcases List.append_eq_append_iff.mp hl with ⟨more, hroot', htail'⟩ | ⟨more, hnames, -⟩
    · cases more with
      | nil => rw [hroot', List.append_nil]
      | cons x more =>
        have hx := htailplain x (by rw [htail']; simp)
        exact absurd hx (hroot x (by rw [hroot']; simp)).nonempty
    · exact ⟨more, hnames.symm⟩
  have hbplain : ∀ name ∈ b, PlainName name := fun n hn => hroot n (hm ▸ List.mem_append_right _ hn)
  have hdepth : depth b = b.length := by
    unfold depth
    have hall : b.countP (fun element => element ≠ [] ∧ element ≠ dot ∧ element ≠ dotdot) = b.length := by
      rw [List.countP_eq_length]
      intro n hn
      exact decide_eq_true ⟨(hbplain n hn).nonempty, (hbplain n hn).notDot, (hbplain n hn).notDotdot⟩
    have hnone : b.countP (fun element => element = dotdot) = 0 := by
      rw [List.countP_eq_zero]
      intro n hn
      rw [decide_eq_true_iff]
      exact (hbplain n hn).notDotdot
    rw [hall, hnone]
    exact Int.sub_zero _
  have hpositive : b.length ≠ 0 := fun hzero => hb (List.length_eq_zero_iff.mp hzero)
  rw [if_neg (fun hc => hb hc.2), hdepth, if_neg (fun hc => hpositive (Int.natCast_eq_zero.mp hc.1)),
    if_neg (by omega), Int.toNat_natCast]
  obtain ⟨n, hn⟩ := Nat.exists_eq_succ_of_ne_zero hpositive
  rw [hn, List.replicate_succ, List.cons_append, List.foldl_cons]
  have hfold : ∀ (xs : List Bytes) (path : Path), (∀ x ∈ xs, isAbsolute x = false) → LeadsUp path →
      LeadsUp (xs.foldl join path) := by
    intro xs
    induction xs with
    | nil => exact fun _ _ hpath => hpath
    | cons x xs ih =>
      intro path hxs hpath
      exact ih _ (fun y hy => hxs y (List.mem_cons_of_mem _ hy)) (hpath.join (hxs x List.mem_cons_self))
  apply hfold
  · intro x hx
    rcases List.mem_append.mp hx with hx | hx
    · rw [List.eq_of_mem_replicate hx]
      decide
    · have hin : x ∈ names ++ tail := hl ▸ List.mem_append_right _ hx
      rcases List.mem_append.mp hin with hin | hin
      · exact isAbsolute_name (h x hin)
      · rw [htailplain x hin]
        rfl
  · exact Or.inl rfl

/-- Relative paths of different names differ. -/
theorem relativePath_inj {names' : List Name} {trailing' : Bool} (h : ∀ name ∈ names, PlainName name)
    (h' : ∀ name ∈ names', PlainName name) (hne : names ≠ [])
    (heq : relativePath names trailing = relativePath names' trailing') : names = names' ∧ trailing = trailing' := by
  by_cases hne' : names' = []
  · subst hne'
    have hdot : absolutePath names trailing = separator :: dot := by
      rw [absolutePath_eq_cons hne, heq]
      rfl
    have hcomponents := congrArg components hdot
    have hright : components (separator :: dot) = [[], dot] := by decide
    rw [components_absolutePath h, hright, List.cons_append] at hcomponents
    obtain ⟨first, rest, rfl⟩ := List.exists_cons_of_ne_nil hne
    have hfirst := (List.cons.inj (List.cons.inj hcomponents).2).1
    exact absurd hfirst (h first List.mem_cons_self).notDot
  · have habsolute : absolutePath names trailing = absolutePath names' trailing' := by
      rw [absolutePath_eq_cons hne, absolutePath_eq_cons hne', heq]
    obtain ⟨hnames, htrailing⟩ := absolutePath_inj h h' habsolute
    exact ⟨hnames, htrailing hne⟩

theorem components_relativePath (h : ∀ name ∈ names, PlainName name) (hne : names ≠ []) :
    components (relativePath names trailing) = names ++ if trailing then [[]] else [] := by
  have hcons := @components_absolutePath _ trailing h
  rw [absolutePath_eq_cons hne] at hcons
  have hsplit := components_append [] (relativePath names trailing)
  rw [List.nil_append, hcons] at hsplit
  have htail : components (relativePath names trailing) = names ++ if trailing ∨ names = [] then [[]] else [] :=
    (List.cons.inj hsplit).2.symm
  rw [htail]
  cases trailing with
  | true => rfl
  | false => rw [if_neg (fun hc => hc.elim Bool.false_ne_true hne), if_neg Bool.false_ne_true]

/-- A path below starts with a name. -/
theorem elements_relativePath (h : ∀ name ∈ names, PlainName name) :
    isAbsolute (relativePath names trailing) = false ∧
      ∃ first, (elements (relativePath names trailing)).head? = some first ∧ first ≠ dotdot := by
  cases names with
  | nil =>
    refine ⟨?_, dot, ?_, by decide⟩
    · show isAbsolute dot = false
      decide
    · show (elements dot).head? = some dot
      decide
  | cons first rest =>
    have hfirst := h first List.mem_cons_self
    have habsolute : isAbsolute (relativePath (first :: rest) trailing) = false := by
      have hname := isAbsolute_name hfirst
      obtain ⟨byte, more, rfl⟩ := List.exists_cons_of_ne_nil hfirst.nonempty
      rw [relativePath_cons]
      exact hname
    refine ⟨habsolute, first, ?_, hfirst.notDotdot⟩
    unfold elements
    dsimp only
    rw [habsolute, if_neg Bool.false_ne_true, components_relativePath h (List.cons_ne_nil _ _), List.cons_append,
      List.filter_cons_of_pos (by simp [hfirst.nonempty])]
    rfl

theorem relativePath_ne_nil (h : ∀ name ∈ names, PlainName name) : relativePath names trailing ≠ [] := by
  cases names with
  | nil => exact (by decide : dot ≠ [])
  | cons first rest =>
    rw [relativePath_cons]
    simp [(h first List.mem_cons_self).nonempty]

end Relative

end GetBibleSword.Lib.FsPath
