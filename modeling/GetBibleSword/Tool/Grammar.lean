import GetBibleSword.Tool.Handlers

/-!
# The record grammar

The order of records as the contract states it, and the machine the validator runs for it.

* `Block` : one record, or a whole artifact group; `Group.Valid` : its chunks and its end;
* `Canonical` : the blocks of an extract stream without its diagnostics; `Body` : what may stand
  between header and footer;
* `Shape` : the counters and groups the machine keeps; `Shape.Admits`, `Shape.next` : its step;
* `run_iff_body` : the items it accepts from the start, outside a group at the end, are the bodies.
-/

namespace GetBibleSword.Tool
open GetBibleSword.Lib

/-! ## Groups and blocks -/

/-- A group up to its last chunk. -/
structure Opened where
  artifactId : Nat
  fields : BeginFields
  target : Option Bytes
  sizeExpected : Option Nat
  chunks : List Bytes
deriving DecidableEq

/-- A whole group. -/
structure Group extends Opened where
  size : Nat
  sha256 : Text
  stable : Option Bool
deriving DecidableEq

def Opened.items (o : Opened) : List Item :=
  .artifactBegin o.artifactId o.fields o.target o.sizeExpected ::
    o.chunks.mapIdx fun index data => .artifactChunk o.artifactId index data

def Group.items (g : Group) : List Item :=
  g.toOpened.items ++ [.artifactEnd g.artifactId g.size g.sha256 g.stable]

inductive Block where
  | diagnostic (severity : Severity)
  | module
  | configSource (ordinal : Nat)
  | configEntry (ordinal : Nat)
  | entry (ordinal : Nat)
  | group (g : Group)
deriving DecidableEq

def Block.items : Block → List Item
  | diagnostic severity => [.diagnostic severity]
  | module => [.module]
  | configSource ordinal => [.configSource ordinal]
  | configEntry ordinal => [.configEntry ordinal]
  | entry ordinal => [.entry ordinal]
  | group g => g.items

def Block.isDiagnostic : Block → Bool
  | diagnostic _ => true
  | _ => false

/-- The octets a group stands for. -/
def Opened.content (o : Opened) : Option Bytes :=
  match o.fields.fileType with
  | .symlink => o.target
  | .directory => some []
  | .regular => some o.chunks.flatten

/-- Chunks in regular groups only, none empty, all but the last of the exact size. -/
structure Opened.Chunked (chunkSize : Nat) (o : Opened) : Prop where
  regular : o.chunks ≠ [] → o.fields.fileType = .regular
  nonempty : ∀ data ∈ o.chunks, data ≠ []
  atMost : ∀ data ∈ o.chunks, data.length ≤ chunkSize
  exact : ∀ data ∈ o.chunks.dropLast, data.length = chunkSize

/-- The end of a group declares the octets of the group. -/
def Group.Truthful (g : Group) : Prop :=
  ∃ bytes, g.content = some bytes ∧ g.size = bytes.length ∧ g.sha256 = Sha256.hexdigest bytes ∧
    (g.fields.fileType = .regular → ∃ stable, g.stable = some stable ∧
      (stable = true → g.sizeExpected = some g.size))

structure Group.Valid (chunkSize : Nat) (g : Group) : Prop where
  chunked : g.toOpened.Chunked chunkSize
  truthful : g.Truthful

/-- The groups of a stream: numbered from zero, each valid, no path twice. -/
structure GroupsOk (chunkSize : Nat) (groups : List Group) : Prop where
  ids : groups.map (fun g => g.artifactId) = List.range groups.length
  valid : ∀ g ∈ groups, g.Valid chunkSize
  paths : (groups.map fun g => g.fields.components).Nodup

/-- One module and its data, or nothing. -/
def Canonical (chunkSize : Nat) (blocks : List Block) : Prop :=
  blocks = [] ∨ ∃ sources configs entries groups, GroupsOk chunkSize groups ∧
    blocks = .module :: ((List.range sources).map .configSource ++ (List.range configs).map .configEntry ++
      (List.range entries).map .entry ++ groups.map .group)

/-- What may stand between the header and the footer. -/
def Body (fields : HeaderFields) (items : List Item) : Prop :=
  match fields.command with
  | .list => ∀ item ∈ items, item = .module ∨ ∃ severity, item = .diagnostic severity
  | .extract => ∃ blocks : List Block, items = blocks.flatMap Block.items ∧
      Canonical (fields.chunkSize.getD 0) (blocks.filter fun block => !block.isDiagnostic)

/-! ## The machine -/

structure Shape where
  modules : Nat
  sources : Nat
  configs : Nat
  entries : Nat
  groups : List Group
  active : Option Opened
deriving DecidableEq

namespace Shape

def start : Shape := ⟨0, 0, 0, 0, [], none⟩

/-- The last stage reached. -/
def phase (s : Shape) : Nat :=
  if s.groups ≠ [] ∨ s.active ≠ none then 5
  else if s.entries ≠ 0 then 4
  else if s.configs ≠ 0 then 3
  else if s.sources ≠ 0 then 2
  else if s.modules ≠ 0 then 1
  else 0

def paths (s : Shape) : List (List Bytes) :=
  s.groups.map (fun g => g.fields.components) ++ s.active.toList.map fun o => o.fields.components

def short (chunkSize : Nat) (o : Opened) : Bool := o.chunks.any fun data => decide (data.length < chunkSize)

/-- The end of the open group. -/
def closed (o : Opened) (size : Nat) (sha256 : Text) (stable : Option Bool) : Group :=
  { o with size := size, sha256 := sha256, stable := stable }

section Step
variable (fields : HeaderFields)

def Admits (s : Shape) : Item → Prop
  | .header _ => False
  | .module => s.phase ≤ 1 ∧ (fields.command = .extract → s.modules = 0)
  | .configSource ordinal =>
    fields.command = .extract ∧ s.modules = 1 ∧ s.phase ≤ 2 ∧ ordinal = s.sources
  | .configEntry ordinal =>
    fields.command = .extract ∧ s.modules = 1 ∧ s.phase ≤ 3 ∧ ordinal = s.configs
  | .entry ordinal =>
    fields.command = .extract ∧ s.modules = 1 ∧ s.phase ≤ 4 ∧ ordinal = s.entries
  | .artifactBegin artifactId begin _ _ =>
    fields.command = .extract ∧ s.modules = 1 ∧ s.active = none ∧ artifactId = s.groups.length ∧
      begin.components ∉ s.paths
  | .artifactChunk artifactId index data =>
    ∃ o, s.active = some o ∧ o.fields.fileType = .regular ∧ artifactId = o.artifactId ∧
      index = o.chunks.length ∧ short (fields.chunkSize.getD 0) o = false ∧ data ≠ [] ∧
      data.length ≤ fields.chunkSize.getD 0
  | .artifactEnd artifactId size sha256 stable =>
    ∃ o, s.active = some o ∧ artifactId = o.artifactId ∧ (closed o size sha256 stable).Truthful
  | .diagnostic _ => s.active = none

end Step

def next (s : Shape) : Item → Shape
  | .header _ => s
  | .module => { s with modules := s.modules + 1 }
  | .configSource _ => { s with sources := s.sources + 1 }
  | .configEntry _ => { s with configs := s.configs + 1 }
  | .entry _ => { s with entries := s.entries + 1 }
  | .artifactBegin artifactId begin target sizeExpected =>
    { s with active := some ⟨artifactId, begin, target, sizeExpected, []⟩ }
  | .artifactChunk _ _ data =>
    { s with active := s.active.map fun o => { o with chunks := o.chunks ++ [data] } }
  | .artifactEnd _ size sha256 stable =>
    { s with
      groups := s.groups ++ s.active.toList.map fun o => closed o size sha256 stable
      active := none }
  | .diagnostic _ => s

/-- A sequence of items, each admitted where it stands. -/
inductive Run (fields : HeaderFields) : Shape → List Item → Shape → Prop where
  | nil (s : Shape) : Run fields s [] s
  | cons {s t : Shape} {item : Item} {items : List Item} :
    s.Admits fields item → Run fields (s.next item) items t → Run fields s (item :: items) t

variable {fields : HeaderFields} {s t u : Shape} {item : Item} {xs ys : List Item}

theorem Run.append (h1 : Run fields s xs t) (h2 : Run fields t ys u) : Run fields s (xs ++ ys) u := by
  induction h1 with
  | nil => exact h2
  | cons hadmits _ ih => exact .cons hadmits (ih h2)

theorem Run.single (h : s.Admits fields item) : Run fields s [item] (s.next item) := .cons h (.nil _)

theorem Run.unique (h1 : Run fields s xs t) (h2 : Run fields s xs u) : t = u := by
  induction h1 with
  | nil =>
    cases h2
    rfl
  | cons _ _ ih =>
    cases h2 with
    | cons _ hrest => exact ih hrest

/-! ## The blocks a state stands for -/

/-- The canonical blocks behind a state, its open group left out. -/
def core (s : Shape) : List Block :=
  List.replicate s.modules .module ++ ((List.range s.sources).map .configSource ++
    ((List.range s.configs).map .configEntry ++ ((List.range s.entries).map .entry ++ s.groups.map .group)))

/-- What every reachable state of an extract stream keeps. -/
structure Ok (chunkSize : Nat) (s : Shape) : Prop where
  groups : GroupsOk chunkSize s.groups
  modules : s.modules ≤ 1
  rest : s.modules = 0 → s.phase = 0
  active : ∀ o, s.active = some o → o.Chunked chunkSize ∧ o.artifactId = s.groups.length ∧
    o.fields.components ∉ s.groups.map fun g => g.fields.components

theorem phase_le_four : s.phase ≤ 4 ↔ s.groups = [] ∧ s.active = none := by
  unfold phase
  split_ifs <;> grind

theorem phase_le_three : s.phase ≤ 3 ↔ s.groups = [] ∧ s.active = none ∧ s.entries = 0 := by
  unfold phase
  split_ifs <;> grind

theorem phase_le_two :
    s.phase ≤ 2 ↔ s.groups = [] ∧ s.active = none ∧ s.entries = 0 ∧ s.configs = 0 := by
  unfold phase
  split_ifs <;> grind

theorem phase_le_one : s.phase ≤ 1 ↔
    s.groups = [] ∧ s.active = none ∧ s.entries = 0 ∧ s.configs = 0 ∧ s.sources = 0 := by
  unfold phase
  split_ifs <;> grind

theorem phase_le_five : s.phase ≤ 5 := by
  unfold phase
  split_ifs <;> omega

theorem phase_eq_zero : s.phase = 0 ↔ s.groups = [] ∧ s.active = none ∧ s.entries = 0 ∧
    s.configs = 0 ∧ s.sources = 0 ∧ s.modules = 0 := by
  unfold phase
  split_ifs <;> grind

theorem groupsOk_nil (chunkSize : Nat) : GroupsOk chunkSize [] := ⟨rfl, by simp, by simp⟩

theorem ok_start (chunkSize : Nat) : Ok chunkSize start :=
  ⟨groupsOk_nil chunkSize, Nat.zero_le _, fun _ => rfl, by simp [start]⟩

theorem groupsOk_concat {chunkSize : Nat} {groups : List Group} {g : Group} :
    GroupsOk chunkSize (groups ++ [g]) ↔ GroupsOk chunkSize groups ∧ g.artifactId = groups.length ∧
      g.Valid chunkSize ∧ g.fields.components ∉ groups.map fun g => g.fields.components := by
  refine ⟨fun h => ?_, fun hr => ?_⟩
  · obtain ⟨hids, hvalid, hpaths⟩ := h
    rw [List.map_append, List.length_append, List.length_singleton, List.range_succ] at hids
    obtain ⟨hids, hid⟩ := List.append_inj' hids rfl
    rw [List.map_append, List.nodup_append] at hpaths
    refine ⟨⟨hids, fun x hx => hvalid x (by simp [hx]), hpaths.1⟩, by simpa using hid, hvalid g (by simp),
      fun hmem => ?_⟩
    exact hpaths.2.2 _ hmem _ (by simp) rfl
  · obtain ⟨h, hid, hvalid, hfresh⟩ := hr
    refine ⟨?_, fun x hx => ?_, ?_⟩
    · rw [List.map_append, h.ids, List.length_append, List.length_singleton, List.range_succ]
      simp [hid]
    · rcases List.mem_append.mp hx with hx | hx
      · exact h.valid x hx
      · rw [List.mem_singleton.mp hx]
        exact hvalid
    · rw [List.map_append, List.nodup_append]
      refine ⟨h.paths, by simp, fun a ha b hb hab => hfresh ?_⟩
      rw [List.map_singleton, List.mem_singleton] at hb
      rw [← hb, ← hab]
      exact ha

/-- The blocks without the diagnostics are exactly those of some state outside a group. -/
theorem canonical_iff {chunkSize : Nat} {blocks : List Block} :
    Canonical chunkSize blocks ↔ ∃ s : Shape, s.Ok chunkSize ∧ s.active = none ∧ blocks = s.core := by
  refine ⟨fun h => ?_, fun hr => ?_⟩
  · rcases h with rfl | ⟨sources, configs, entries, groups, hgroups, rfl⟩
    · exact ⟨start, ok_start chunkSize, rfl, rfl⟩
    · refine ⟨⟨1, sources, configs, entries, groups, none⟩, ⟨hgroups, Nat.le_refl _, by simp, by simp⟩,
        rfl, ?_⟩
      simp [core]
  · obtain ⟨s, hok, hactive, hcore⟩ := hr
    rcases Nat.eq_zero_or_pos s.modules with hzero | hpos
    · obtain ⟨hgroups, -, hentries, hconfigs, hsources, -⟩ := phase_eq_zero.mp (hok.rest hzero)
      left
      simp [hcore, core, hzero, hgroups, hentries, hconfigs, hsources]
    · have hone : s.modules = 1 := Nat.le_antisymm hok.modules hpos
      right
      refine ⟨s.sources, s.configs, s.entries, s.groups, hok.groups, ?_⟩
      simp [hcore, core, hone]

/-! ## Sound: the items read so far are blocks and an open group -/

/-- The items behind a state: whole blocks, whose canonical ones it counts, and the open group. -/
def Reads (s : Shape) (items : List Item) : Prop :=
  ∃ blocks : List Block, items = blocks.flatMap Block.items ++ s.active.elim [] Opened.items ∧
    blocks.filter (fun block => !block.isDiagnostic) = s.core

theorem Reads.block {s t : Shape} {items : List Item} {b : Block} (h : s.Reads items)
    (hs : s.active = none) (ht : t.active = none)
    (hcore : t.core = s.core ++ [b].filter fun block => !block.isDiagnostic) :
    t.Reads (items ++ b.items) := by
  obtain ⟨blocks, rfl, hblocks⟩ := h
  refine ⟨blocks ++ [b], ?_, ?_⟩
  · simp [hs, ht]
  · rw [List.filter_append, hblocks, hcore]

theorem items_concat {o : Opened} {artifactId : Nat} {data : Bytes} (hid : artifactId = o.artifactId) :
    { o with chunks := o.chunks ++ [data] }.items =
      o.items ++ [.artifactChunk artifactId o.chunks.length data] := by
  simp [Opened.items, List.mapIdx_append, hid]

theorem chunked_nil {chunkSize artifactId : Nat} {fields : BeginFields} {target : Option Bytes}
    {sizeExpected : Option Nat} : Opened.Chunked chunkSize ⟨artifactId, fields, target, sizeExpected, []⟩ :=
  ⟨fun h => absurd rfl h, by simp, by simp, by simp⟩

theorem chunked_concat {chunkSize : Nat} {o : Opened} {data : Bytes} (h : o.Chunked chunkSize)
    (hregular : o.fields.fileType = .regular) (hshort : short chunkSize o = false) (hempty : data ≠ [])
    (hlarge : data.length ≤ chunkSize) :
    Opened.Chunked chunkSize { o with chunks := o.chunks ++ [data] } := by
  refine ⟨fun _ => hregular, fun x hx => ?_, fun x hx => ?_, fun x hx => ?_⟩
  · rcases List.mem_append.mp hx with hx | hx
    · exact h.nonempty x hx
    · rwa [List.mem_singleton.mp hx]
  · rcases List.mem_append.mp hx with hx | hx
    · exact h.atMost x hx
    · rwa [List.mem_singleton.mp hx]
  · rw [List.dropLast_concat] at hx
    have hlong := List.any_eq_false.mp hshort x hx
    have hmost := h.atMost x hx
    rw [decide_eq_true_eq] at hlong
    omega

theorem Ok.next {fields : HeaderFields} (hcommand : fields.command = .extract)
    (h : s.Ok (fields.chunkSize.getD 0)) (hadmits : s.Admits fields item) :
    (s.next item).Ok (fields.chunkSize.getD 0) := by
  cases item with
  | header fields => exact hadmits.elim
  | module =>
    obtain ⟨hphase, hmodules⟩ := hadmits
    refine ⟨h.groups, ?_, fun hzero => ?_, h.active⟩
    · show s.modules + 1 ≤ 1
      rw [hmodules hcommand]
    · exact absurd hzero (Nat.succ_ne_zero _)
  | configSource ordinal =>
    obtain ⟨-, hmodules, -, -⟩ := hadmits
    exact ⟨h.groups, h.modules, fun hzero => absurd (hmodules.symm.trans hzero) (by decide), h.active⟩
  | configEntry ordinal =>
    obtain ⟨-, hmodules, -, -⟩ := hadmits
    exact ⟨h.groups, h.modules, fun hzero => absurd (hmodules.symm.trans hzero) (by decide), h.active⟩
  | entry ordinal =>
    obtain ⟨-, hmodules, -, -⟩ := hadmits
    exact ⟨h.groups, h.modules, fun hzero => absurd (hmodules.symm.trans hzero) (by decide), h.active⟩
  | artifactBegin artifactId begin target sizeExpected =>
    obtain ⟨-, hmodules, hactive, hid, hfresh⟩ := hadmits
    refine ⟨h.groups, h.modules, fun hzero => absurd (hmodules.symm.trans hzero) (by decide), fun o ho => ?_⟩
    obtain rfl := Option.some.inj ho
    have hfresh' : begin.components ∉ s.groups.map fun g => g.fields.components := by
      simpa [paths, hactive] using hfresh
    exact ⟨chunked_nil, hid, hfresh'⟩
  | artifactChunk artifactId index data =>
    obtain ⟨o, ho, hregular, -, -, hshort, hempty, hlarge⟩ := hadmits
    obtain ⟨hchunked, hid, hfresh⟩ := h.active o ho
    refine ⟨h.groups, h.modules, fun hzero => ?_, fun o' ho' => ?_⟩
    · have := phase_eq_zero.mp (h.rest hzero)
      rw [this.2.1] at ho
      cases ho
    · rw [show (s.next (.artifactChunk artifactId index data)).active =
        some { o with chunks := o.chunks ++ [data] } by simp [Shape.next, ho]] at ho'
      obtain rfl := Option.some.inj ho'
      exact ⟨chunked_concat hchunked hregular hshort hempty hlarge, hid, hfresh⟩
  | artifactEnd artifactId size sha256 stable =>
    obtain ⟨o, ho, -, htruthful⟩ := hadmits
    obtain ⟨hchunked, hid, hfresh⟩ := h.active o ho
    refine ⟨?_, h.modules, fun hzero => ?_, nofun⟩
    · show GroupsOk _ (s.groups ++ s.active.toList.map fun o => closed o size sha256 stable)
      rw [ho]
      exact groupsOk_concat.mpr ⟨h.groups, hid, ⟨hchunked, htruthful⟩, hfresh⟩
    · have := phase_eq_zero.mp (h.rest hzero)
      rw [this.2.1] at ho
      cases ho
  | diagnostic severity => exact h

theorem Reads.next {fields : HeaderFields} {items : List Item} (hcommand : fields.command = .extract)
    (h : s.Reads items) (hadmits : s.Admits fields item) :
    (s.next item).Reads (items ++ [item]) := by
  cases item with
  | header fields => exact hadmits.elim
  | module =>
    obtain ⟨hphase, hmodules⟩ := hadmits
    obtain ⟨hgroups, hactive, hentries, hconfigs, hsources⟩ := phase_le_one.mp hphase
    apply h.block (b := .module) (t := s.next .module) hactive hactive
    simp [core, Shape.next, hmodules hcommand, hgroups, hentries, hconfigs, hsources, Block.isDiagnostic]
  | configSource ordinal =>
    obtain ⟨-, -, hphase, rfl⟩ := hadmits
    obtain ⟨hgroups, hactive, hentries, hconfigs⟩ := phase_le_two.mp hphase
    apply h.block (b := .configSource s.sources) (t := s.next (.configSource s.sources)) hactive hactive
    simp [core, Shape.next, hgroups, hentries, hconfigs, Block.isDiagnostic, List.range_succ]
  | configEntry ordinal =>
    obtain ⟨-, -, hphase, rfl⟩ := hadmits
    obtain ⟨hgroups, hactive, hentries⟩ := phase_le_three.mp hphase
    apply h.block (b := .configEntry s.configs) (t := s.next (.configEntry s.configs)) hactive hactive
    simp [core, Shape.next, hgroups, hentries, Block.isDiagnostic, List.range_succ]
  | entry ordinal =>
    obtain ⟨-, -, hphase, rfl⟩ := hadmits
    obtain ⟨hgroups, hactive⟩ := phase_le_four.mp hphase
    apply h.block (b := .entry s.entries) (t := s.next (.entry s.entries)) hactive hactive
    simp [core, Shape.next, hgroups, Block.isDiagnostic, List.range_succ]
  | artifactBegin artifactId begin target sizeExpected =>
    obtain ⟨-, -, hactive, -, -⟩ := hadmits
    obtain ⟨blocks, rfl, hblocks⟩ := h
    refine ⟨blocks, ?_, hblocks⟩
    simp [hactive, Shape.next, Opened.items]
  | artifactChunk artifactId index data =>
    obtain ⟨o, ho, -, hid, rfl, -⟩ := hadmits
    obtain ⟨blocks, rfl, hblocks⟩ := h
    refine ⟨blocks, ?_, hblocks⟩
    simp only [ho, Shape.next, Option.map_some, Option.elim_some, items_concat hid, List.append_assoc]
  | artifactEnd artifactId size sha256 stable =>
    obtain ⟨o, ho, rfl, -⟩ := hadmits
    obtain ⟨blocks, rfl, hblocks⟩ := h
    refine ⟨blocks ++ [.group (closed o size sha256 stable)], ?_, ?_⟩
    · simp [ho, Shape.next, Block.items, Group.items, closed]
    · rw [List.filter_append, hblocks]
      simp [core, Shape.next, ho, Block.isDiagnostic]
  | diagnostic severity =>
    have hactive : s.active = none := hadmits
    apply h.block (b := .diagnostic severity) hactive hactive
    simp [Block.isDiagnostic]

theorem Run.reads {fields : HeaderFields} (hcommand : fields.command = .extract)
    (h : Run fields s xs t) {items : List Item} (hok : s.Ok (fields.chunkSize.getD 0))
    (hreads : s.Reads items) : t.Ok (fields.chunkSize.getD 0) ∧ t.Reads (items ++ xs) := by
  induction h generalizing items with
  | nil => exact ⟨hok, by rwa [List.append_nil]⟩
  | cons hadmits _ ih =>
    have := ih (hok.next hcommand hadmits) (hreads.next hcommand hadmits)
    rwa [List.append_assoc, List.singleton_append] at this

/-! ## Complete: every canonical sequence of blocks runs -/

theorem chunked_of_concat {chunkSize : Nat} {o : Opened} {data : Bytes}
    (h : Opened.Chunked chunkSize { o with chunks := o.chunks ++ [data] }) :
    o.Chunked chunkSize ∧ o.fields.fileType = .regular ∧ short chunkSize o = false ∧ data ≠ [] ∧
      data.length ≤ chunkSize := by
  have hregular : o.fields.fileType = .regular := h.regular (by simp)
  have hexact : ∀ x ∈ o.chunks, x.length = chunkSize := fun x hx =>
    h.exact x (by rw [List.dropLast_concat]; exact hx)
  refine ⟨⟨fun _ => hregular, fun x hx => h.nonempty x (by simp [hx]), fun x hx => (hexact x hx).le,
    fun x hx => hexact x (List.dropLast_subset _ hx)⟩, hregular, ?_, h.nonempty data (by simp),
    h.atMost data (by simp)⟩
  rw [short, List.any_eq_false]
  intro x hx
  rw [hexact x hx, decide_eq_true_eq]
  exact Nat.lt_irrefl _

section Groups
variable {fields : HeaderFields}

/-- A group up to any of its chunks. -/
theorem run_opened (hcommand : fields.command = .extract) (hmodules : s.modules = 1)
    (hactive : s.active = none) (chunks : List Bytes) : ∀ {o : Opened}, o.chunks = chunks →
    o.Chunked (fields.chunkSize.getD 0) → o.artifactId = s.groups.length →
    o.fields.components ∉ s.groups.map (fun g => g.fields.components) →
    Run fields s o.items { s with active := some o } := by
  induction chunks using List.reverseRecOn with
  | nil =>
    intro o hchunks hchunked hid hfresh
    obtain ⟨artifactId, begin, target, sizeExpected, chunks⟩ := o
    obtain rfl : chunks = [] := hchunks
    apply Run.single
    exact ⟨hcommand, hmodules, hactive, hid, by simpa [paths, hactive] using hfresh⟩
  | append_singleton chunks data ih =>
    intro o hchunks hchunked hid hfresh
    obtain ⟨o', rfl, rfl⟩ : ∃ o' : Opened, o = { o' with chunks := o'.chunks ++ [data] } ∧
        o'.chunks = chunks := ⟨{ o with chunks := chunks }, by rw [← hchunks], rfl⟩
    obtain ⟨hchunked', hregular, hshort, hempty, hlarge⟩ := chunked_of_concat hchunked
    rw [items_concat rfl]
    apply (ih rfl hchunked' hid hfresh).append
    apply Run.single
    exact ⟨o', rfl, hregular, rfl, rfl, hshort, hempty, hlarge⟩

theorem run_group (hcommand : fields.command = .extract) (hmodules : s.modules = 1)
    (hactive : s.active = none) {g : Group} (hid : g.artifactId = s.groups.length)
    (hvalid : g.Valid (fields.chunkSize.getD 0))
    (hfresh : g.fields.components ∉ s.groups.map fun g => g.fields.components) :
    Run fields s g.items { s with groups := s.groups ++ [g] } := by
  have hopened := run_opened hcommand hmodules hactive g.chunks rfl hvalid.chunked hid hfresh
  have hend : Admits fields { s with active := some g.toOpened }
      (.artifactEnd g.artifactId g.size g.sha256 g.stable) := ⟨g.toOpened, rfl, rfl, hvalid.truthful⟩
  have := hopened.append (Run.single hend)
  simpa [Group.items, Shape.next, closed, hactive] using this

end Groups

section Last
variable {fields : HeaderFields} {blocks : List Block} {b c : Block}

theorem last_run (hlast : t.core = s.core ++ [c]) (hcore : t.core = blocks ++ [b])
    (hok : s.Ok (fields.chunkSize.getD 0)) (hs : s.active = none) (hrun : Run fields s c.items t) :
    ∃ s : Shape, s.Ok (fields.chunkSize.getD 0) ∧ s.active = none ∧ s.core = blocks ∧
      Run fields s b.items t := by
  obtain ⟨rfl, rfl⟩ := List.append_singleton_inj.mp (hcore.symm.trans hlast)
  exact ⟨s, hok, hs, rfl, hrun⟩

/-- The last canonical block of a state is one that the state before it runs. -/
theorem core_concat (hcommand : fields.command = .extract) (hok : t.Ok (fields.chunkSize.getD 0))
    (ht : t.active = none) (hcore : t.core = blocks ++ [b]) :
    ∃ s : Shape, s.Ok (fields.chunkSize.getD 0) ∧ s.active = none ∧ s.core = blocks ∧
      Run fields s b.items t := by
  obtain ⟨modules, sources, configs, entries, groups, active⟩ := t
  obtain rfl : active = none := ht
  have hmodules : modules = 1 := by
    rcases Nat.eq_zero_or_pos modules with rfl | hpos
    · obtain ⟨hgroups, -, hentries, hconfigs, hsources, -⟩ := phase_eq_zero.mp (hok.rest rfl)
      simp_all [core]
    · exact Nat.le_antisymm hok.modules hpos
  subst hmodules
  have hsmall : ∀ sources configs entries,
      Ok (fields.chunkSize.getD 0) ⟨1, sources, configs, entries, [], none⟩ := fun _ _ _ =>
    ⟨groupsOk_nil _, Nat.le_refl _, by simp, by simp⟩
  rcases List.eq_nil_or_concat groups with rfl | ⟨groups, g, rfl⟩
  · cases entries with
    | succ entries =>
      apply last_run (s := ⟨1, sources, configs, entries, [], none⟩) (c := .entry entries) _ hcore
        (hsmall _ _ _) rfl
      · apply Run.single
        exact ⟨hcommand, rfl, phase_le_four.mpr ⟨rfl, rfl⟩, rfl⟩
      · simp [core, List.range_succ]
    | zero =>
      cases configs with
      | succ configs =>
        apply last_run (s := ⟨1, sources, configs, 0, [], none⟩) (c := .configEntry configs) _ hcore
          (hsmall _ _ _) rfl
        · apply Run.single
          exact ⟨hcommand, rfl, phase_le_three.mpr ⟨rfl, rfl, rfl⟩, rfl⟩
        · simp [core, List.range_succ]
      | zero =>
        cases sources with
        | succ sources =>
          apply last_run (s := ⟨1, sources, 0, 0, [], none⟩) (c := .configSource sources) _ hcore
            (hsmall _ _ _) rfl
          · apply Run.single
            exact ⟨hcommand, rfl, phase_le_two.mpr ⟨rfl, rfl, rfl, rfl⟩, rfl⟩
          · simp [core, List.range_succ]
        | zero =>
          apply last_run (s := start) (c := .module) rfl hcore (ok_start _) rfl
          apply Run.single
          exact ⟨by decide, fun _ => rfl⟩
  · rw [List.concat_eq_append] at hok hcore ⊢
    obtain ⟨hgroups, hid, hvalid, hfresh⟩ := groupsOk_concat.mp hok.groups
    apply last_run (s := ⟨1, sources, configs, entries, groups, none⟩) (c := .group g) _ hcore
      ⟨hgroups, Nat.le_refl _, by simp, by simp⟩ rfl
    · exact run_group hcommand rfl rfl hid hvalid hfresh
    · simp [core]

/-- Blocks whose canonical ones are those of a state run from the start to it. -/
theorem run_core (hcommand : fields.command = .extract) (blocks : List Block) : ∀ {t : Shape},
    t.Ok (fields.chunkSize.getD 0) → t.active = none →
    blocks.filter (fun block => !block.isDiagnostic) = t.core →
    Run fields start (blocks.flatMap Block.items) t := by
  induction blocks using List.reverseRecOn with
  | nil =>
    intro t hok ht hcore
    obtain ⟨modules, sources, configs, entries, groups, active⟩ := t
    obtain rfl : active = none := ht
    obtain ⟨rfl, rfl, rfl, rfl, rfl⟩ : modules = 0 ∧ sources = 0 ∧ configs = 0 ∧ entries = 0 ∧
        groups = [] := by simpa [core] using hcore.symm
    exact .nil start
  | append_singleton blocks b ih =>
    intro t hok ht hcore
    rw [List.filter_append] at hcore
    rw [List.flatMap_append, List.flatMap_singleton]
    cases hb : b.isDiagnostic with
    | true =>
      apply (ih hok ht (by simpa [hb] using hcore)).append
      cases b with
      | diagnostic severity => exact Run.single ht
      | _ => cases hb
    | false =>
      obtain ⟨s, hs, hactive, hblocks, hrun⟩ := core_concat hcommand hok ht
        (by simpa [hb] using hcore.symm)
      exact (ih hs hactive hblocks.symm).append hrun

end Last

/-! ## List streams -/

/-- The states a list stream reaches. -/
def listed (modules : Nat) : Shape := ⟨modules, 0, 0, 0, [], none⟩

theorem admits_listed {fields : HeaderFields} (hcommand : fields.command = .list) (modules : Nat) :
    (listed modules).Admits fields item ↔ item = .module ∨ ∃ severity, item = .diagnostic severity := by
  have hphase : (listed modules).phase ≤ 1 := phase_le_one.mpr ⟨rfl, rfl, rfl, rfl, rfl⟩
  cases item <;> simp [Admits, hcommand, listed]
  exact hphase

theorem next_listed (modules : Nat) (h : item = .module ∨ ∃ severity, item = .diagnostic severity) :
    ∃ n, (listed modules).next item = listed n := by
  rcases h with rfl | ⟨severity, rfl⟩
  · exact ⟨modules + 1, rfl⟩
  · exact ⟨modules, rfl⟩

theorem Run.listed {fields : HeaderFields} (hcommand : fields.command = .list) {modules : Nat}
    (h : Run fields (listed modules) xs t) :
    (∃ n, t = listed n) ∧ ∀ item ∈ xs, item = .module ∨ ∃ severity, item = .diagnostic severity := by
  induction xs generalizing modules with
  | nil =>
    cases h
    exact ⟨⟨modules, rfl⟩, by simp⟩
  | cons x xs ih =>
    cases h with
    | cons hadmits hrest =>
      have hitem := (admits_listed hcommand modules).mp hadmits
      obtain ⟨n, hn⟩ := next_listed modules hitem
      rw [hn] at hrest
      obtain ⟨hlisted, hitems⟩ := ih hrest
      exact ⟨hlisted, List.forall_mem_cons.mpr ⟨hitem, hitems⟩⟩

theorem run_listed {fields : HeaderFields} (hcommand : fields.command = .list)
    (h : ∀ item ∈ xs, item = .module ∨ ∃ severity, item = .diagnostic severity) :
    ∀ modules, ∃ n, Run fields (listed modules) xs (listed n) := by
  induction xs with
  | nil => exact fun modules => ⟨modules, .nil _⟩
  | cons x xs ih =>
    intro modules
    obtain ⟨hitem, hitems⟩ := List.forall_mem_cons.mp h
    obtain ⟨m, hm⟩ := next_listed modules hitem
    obtain ⟨n, hrun⟩ := ih hitems m
    exact ⟨n, .cons ((admits_listed hcommand modules).mpr hitem) (hm ▸ hrun)⟩

/-- A run counts the modules. -/
theorem Run.modules {fields : HeaderFields} (h : Run fields s xs t) :
    t.modules = s.modules + xs.count .module := by
  induction h with
  | nil => rfl
  | @cons s t item items hadmits _ ih =>
    rw [ih, List.count_cons]
    cases item with
    | module =>
      show s.modules + 1 + _ = _
      rw [beq_self_eq_true, if_pos rfl]
      omega
    | _ => rfl

/-- The items the machine accepts from the start, outside a group at the end, are the bodies. -/
theorem run_iff_body {fields : HeaderFields} {items : List Item} :
    (∃ t, Run fields start items t ∧ t.active = none) ↔ Body fields items := by
  unfold Body
  cases hcommand : fields.command with
  | list =>
    refine ⟨fun hl => ?_, fun hitems => ?_⟩
    · obtain ⟨t, hrun, -⟩ := hl
      exact (hrun.listed hcommand).2
    obtain ⟨n, hrun⟩ := run_listed hcommand hitems 0
    exact ⟨listed n, hrun, rfl⟩
  | extract =>
    refine ⟨fun hl => ?_, fun hr => ?_⟩
    · obtain ⟨t, hrun, ht⟩ := hl
      have hstart : start.Reads [] := ⟨[], rfl, rfl⟩
      obtain ⟨hok, blocks, hitems, hblocks⟩ := hrun.reads hcommand (ok_start _) hstart
      refine ⟨blocks, ?_, canonical_iff.mpr ⟨t, hok, ht, hblocks⟩⟩
      simpa [ht] using hitems
    · obtain ⟨blocks, hitems, hcanonical⟩ := hr
      obtain ⟨t, hok, ht, hcore⟩ := canonical_iff.mp hcanonical
      exact ⟨t, hitems ▸ run_core hcommand blocks hok ht hcore, ht⟩

end Shape
end GetBibleSword.Tool
