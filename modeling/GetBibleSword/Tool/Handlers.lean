import GetBibleSword.Tool.Validator

/-!
# What the handlers do

A record that is not a footer is, as far as the validator is concerned, one `Item`: what `itemOf`
reads from its fields. A handler accepts it when the object `Admits` the item, and leaves
`Validator.after` (`validateRecord_eq_ok`). A footer is `FooterFields`, accepted when they are
`TrueOf` the object (`validateFooter_eq_ok`). `validateLine_eq_ok` puts a round of the loop together.
-/

namespace GetBibleSword.Tool
open GetBibleSword.Lib

/-! ## Single checks -/

section Checks
variable {context message : Message} {line : Nat}

@[simp] theorem natural_eq_ok {record : Dict} {name : String} {minimum n : Nat} {maximum : Option Nat} :
    natural record name context line minimum maximum = .ok n ↔
      dictGet record name = some (.int n) ∧ minimum ≤ n ∧ ∀ m, maximum = some m → n ≤ m := by
  simp only [natural, bind_eq_ok, dictItem_eq_ok, requireInteger_eq_ok, pure_eq_ok]
  constructor
  · rintro ⟨v, hv, i, ⟨rfl, hmin, hmax⟩, rfl⟩
    have hi : ((i.toNat : Nat) : Int) = i := Int.toNat_of_nonneg (by omega)
    refine ⟨by rw [hi, hv], by omega, fun m hm => ?_⟩
    have := hmax m (by rw [hm]; rfl)
    omega
  · rintro ⟨hv, hmin, hmax⟩
    refine ⟨_, hv, n, ⟨rfl, by omega, fun m hm => ?_⟩, Int.toNat_natCast n⟩
    cases maximum with
    | none => cases hm
    | some k =>
      have := hmax k rfl
      obtain rfl : (k : Int) = m := Option.some.inj hm
      omega

theorem oneOf_eq_ok {α : Type} {names : List α} {name : α → String}
    (hinj : ∀ a ∈ names, ∀ b ∈ names, name a = name b → a = b) {t : Text} {a : α} :
    oneOf names name t message line = .ok a ↔ a ∈ names ∧ t = text (name a) := by
  unfold oneOf
  split
  · rename_i b hb
    have hmem := List.mem_of_find?_eq_some hb
    have ht : text (name b) = t := by simpa using List.find?_some hb
    rw [Except.ok.injEq]
    constructor
    · rintro rfl
      exact ⟨hmem, ht.symm⟩
    · rintro ⟨ha, rfl⟩
      exact hinj b hmem a ha (text_inj.mp ht)
  · rename_i hnone
    have hno := List.find?_eq_none.mp hnone
    constructor
    · nofun
    · rintro ⟨ha, rfl⟩
      simpa using hno a ha

theorem recordType_inj : ∀ a ∈ recordTypes, ∀ b ∈ recordTypes, a.name = b.name → a = b := by decide

theorem mem_recordTypes (type : RecordType) : type ∈ recordTypes := by cases type <;> decide

@[simp] theorem expect_eq_ok {ordinal expected : Nat} {name : String} {u : Unit} :
    Validator.expect ordinal expected name line = .ok u ↔ ordinal = expected := by
  rw [Validator.expect, failIf_eq_ok, not_not]

@[simp] theorem requireObject_eq_ok {value : Json} {d : Dict} :
    requireObject value context line = .ok d ↔ value = .obj d := by
  cases value <;> simp [requireObject]

end Checks

/-! ## Lines -/

theorem readline_line {body : Bytes} (hbody : lf ∉ body) (rest : Bytes) {size : Nat}
    (hsize : body.length < size) : readline size (body ++ lf :: rest) = (body ++ [lf], rest) := by
  induction body generalizing size with
  | nil =>
    obtain ⟨n, rfl⟩ : ∃ n, size = n + 1 := ⟨size - 1, by simp at hsize; omega⟩
    rw [List.nil_append, readline, if_pos rfl]
    rfl
  | cons byte body ih =>
    obtain ⟨n, rfl⟩ : ∃ n, size = n + 1 := ⟨size - 1, by simp at hsize; omega⟩
    rw [List.mem_cons, not_or] at hbody
    rw [List.cons_append, readline, if_neg (fun h => hbody.1 h.symm),
      ih hbody.2 (by simpa using hsize)]
    rfl

/-- The lines written, each behind its LF. -/
def terminated (bodies : List Bytes) : List Bytes := bodies.map (· ++ [lf])

theorem length_terminated (bodies : List Bytes) : bodies.length ≤ (terminated bodies).flatten.length := by
  induction bodies with
  | nil => exact Nat.le_refl _
  | cons body bodies ih =>
    rw [terminated, List.map_cons, List.flatten_cons, List.length_append, List.length_append, ← terminated]
    simp only [List.length_cons, List.length_nil]
    omega

/-- Lines short enough for one `readline` are read one by one. -/
theorem rawLines_terminated (bodies : List Bytes) : ∀ {fuel size : Nat}, bodies.length ≤ fuel →
    (∀ body ∈ bodies, lf ∉ body ∧ body.length < size) →
    rawLines fuel size (terminated bodies).flatten = terminated bodies := by
  induction bodies with
  | nil =>
    intro fuel size _ _
    cases fuel with
    | zero => rfl
    | succ fuel => cases size <;> rfl
  | cons body bodies ih =>
    intro fuel size hfuel h
    obtain ⟨n, rfl⟩ : ∃ n, fuel = n + 1 := ⟨fuel - 1, by simp at hfuel; omega⟩
    obtain ⟨hbody, hsize⟩ := h body (by simp)
    have hread : readline size (terminated (body :: bodies)).flatten =
        (body ++ [lf], (terminated bodies).flatten) := by
      have := readline_line hbody (terminated bodies).flatten hsize
      simpa [terminated] using this
    rw [rawLines, hread]
    dsimp only
    rw [if_neg (by simp), ih (by simpa using hfuel) fun b hb => h b (List.mem_cons_of_mem _ hb)]
    rfl

/-! ## One line -/

/-- A line of the loop that reached the dispatch. -/
structure IsRecord (maximumRecordBytes sequence : Nat) (rawLine : Bytes) (type : RecordType)
    (record : Dict) : Prop where
  limit : rawLine.length ≤ maximumRecordBytes
  ends : rawLine.getLast? = some lf
  blank : rawLine ≠ [lf]
  parses : parseJson rawLine.dropLast = .ok (.obj record)
  type : dictGet record "type" = some (.str (text type.name))
  sequence : dictGet record "sequence" = some (.int sequence)

theorem parseJson_nil : ∃ message, parseJson [] = .error message := ⟨_, rfl⟩

theorem IsRecord.of_body {maximumRecordBytes sequence : Nat} {body : Bytes} {type : RecordType}
    {record : Dict} (hlimit : body.length < maximumRecordBytes)
    (hparse : parseJson body = .ok (.obj record))
    (htype : dictGet record "type" = some (.str (text type.name)))
    (hsequence : dictGet record "sequence" = some (.int sequence)) :
    IsRecord maximumRecordBytes sequence (body ++ [lf]) type record where
  limit := by rw [List.length_append]; exact hlimit
  ends := by simp
  blank := by
    intro h
    obtain rfl : body = [] := List.append_left_eq_self.mp h
    obtain ⟨message, hm⟩ := parseJson_nil
    rw [hm] at hparse
    cases hparse
  parses := by rwa [List.dropLast_concat]
  type := htype
  sequence := hsequence

theorem parseJsonObject_eq_ok {raw : Bytes} {line : Nat} {d : Dict} :
    parseJsonObject raw line = .ok d ↔ parseJson raw = .ok (.obj d) := by
  unfold parseJsonObject
  split
  · rename_i h
    simp [h]
  · rename_i h
    simp [h, eq_comm]
  · rename_i v hno h
    rw [h]
    constructor
    · nofun
    · intro hv
      exact absurd (Except.ok.inj hv) (hno d)

theorem getD_null {o : Option Json} {v : Json} (hv : v ≠ .null) : o.getD .null = v ↔ o = some v := by
  cases o with
  | none => simp [hv.symm]
  | some w => simp

theorem readRecord_eq_ok {maximumRecordBytes sequence line : Nat} {rawLine : Bytes} {type : RecordType}
    {record : Dict} :
    readRecord maximumRecordBytes sequence rawLine line = .ok (type, record) ↔
      IsRecord maximumRecordBytes sequence rawLine type record := by
  simp only [readRecord, bind_eq_ok, failIf_eq_ok, parseJsonObject_eq_ok, requireString_eq_ok,
    oneOf_eq_ok recordType_inj, requireInteger_eq_ok, pure_eq_ok, Prod.mk.injEq, gt_iff_lt, Nat.not_lt, not_not, ne_eq]
  constructor
  · rintro ⟨-, hlimit, -, hends, -, hblank, record', hparse, t, htype, type', ⟨-, rfl⟩, i,
      ⟨hsequence, -, -⟩, -, rfl, rfl, rfl⟩
    exact ⟨hlimit, hends, hblank, hparse, (getD_null (by simp)).mp htype,
      (getD_null (by simp)).mp hsequence⟩
  · intro h
    exact ⟨(), h.limit, (), h.ends, (), h.blank, record, h.parses, _, (getD_null (by simp)).mpr h.type,
      type, ⟨mem_recordTypes type, rfl⟩, sequence, ⟨(getD_null (by simp)).mpr h.sequence, by omega, by simp⟩,
      (), rfl, rfl, rfl⟩

/-! ## Items -/

/-- What the validator takes from a record that is not a footer. -/
inductive Item where
  | header (fields : HeaderFields)
  | module
  | configSource (ordinal : Nat)
  | configEntry (ordinal : Nat)
  | entry (ordinal : Nat)
  | artifactBegin (artifactId : Nat) (fields : BeginFields) (target : Option Bytes)
      (sizeExpected : Option Nat)
  | artifactChunk (artifactId index : Nat) (data : Bytes)
  /-- `stable` where the record has it. -/
  | artifactEnd (artifactId size : Nat) (sha256 : Text) (stable : Option Bool)
  | diagnostic (severity : Severity)
deriving DecidableEq

def Item.type : Item → RecordType
  | header _ => .header
  | module => .module
  | configSource _ => .configSource
  | configEntry _ => .configEntry
  | entry _ => .entry
  | artifactBegin _ _ _ _ => .artifactBegin
  | artifactChunk _ _ _ => .artifactChunk
  | artifactEnd _ _ _ _ => .artifactEnd
  | diagnostic _ => .diagnostic

/-- The checks of a handler that read only the record. -/
def itemFields (type : RecordType) (record : Dict) (line : Nat) : Except PyError Item :=
  match type with
  | .header => do return .header (← headerFields record line)
  | .module => do
    moduleFields record line
    return .module
  | .configSource => do
    let ordinal ← ordinalField record .configSource configSourceMembers line
    configSourcePayload record line
    return .configSource ordinal
  | .configEntry => do
    let ordinal ← ordinalField record .configEntry configEntryMembers line
    configEntryPayload record line
    return .configEntry ordinal
  | .entry => do
    let ordinal ← ordinalField record .entry entryMembers line
    entryPayload record line
    return .entry ordinal
  | .artifactBegin => do
    let artifactId ← artifactBeginId record line
    let fields ← beginFields record line
    let (target, sizeExpected) ← beginContent record fields.fileType line
    return .artifactBegin artifactId fields target sizeExpected
  | .artifactChunk => do
    let (artifactId, index) ← chunkIds record line
    let data ← chunkData record line
    return .artifactChunk artifactId index data
  | .artifactEnd => do
    let artifactId ← endId record line
    let (size, sha256) ← endDeclared record line
    return .artifactEnd artifactId size sha256 (endStable record line).toOption
  | .diagnostic => do return .diagnostic (← diagnosticFields record line)
  | .footer => fail [.lit "a footer is not an item"] line

/-- The checks of a record on its own: its fields, and the byte values anywhere in it. -/
def itemOf (type : RecordType) (record : Dict) (line : Nat) : Except PyError Item := do
  let item ← itemFields type record line
  validateEmbeddedByteValues [.lit type.name] line (.obj record)
  return item

/-- The content a group has collected is the one its end declares. -/
def ActiveArtifact.Ends (active : ActiveArtifact) (size : Nat) (sha256 : Text) (stable : Option Bool) :
    Prop :=
  match active.fileType with
  | .symlink =>
    match active.target with
    | some target => size = target.length ∧ sha256 = Sha256.hexdigest target
    | none => False
  | .directory => size = 0 ∧ sha256 = Sha256.hexdigest []
  | .regular =>
    size = active.size ∧ sha256 = Sha256.hexdigest active.hashed ∧
      ∃ b, stable = some b ∧ (b = true → active.sizeExpected = some active.size)

/-- The group an `artifact_begin` opens. -/
def ActiveArtifact.begin (artifactId : Nat) (fields : BeginFields) (target : Option Bytes)
    (sizeExpected : Option Nat) : ActiveArtifact where
  artifactId := artifactId
  path := fields.path
  components := fields.components
  fileType := fields.fileType
  mode := fields.mode
  role := fields.role
  target := target
  sizeExpected := sizeExpected
  hashed := []
  size := 0
  chunks := 0
  shortChunkSeen := false

def ActiveArtifact.chunk (active : ActiveArtifact) (chunkSize : Nat) (data : Bytes) : ActiveArtifact :=
  { active with
    shortChunkSeen := if data.length < chunkSize then true else active.shortChunkSeen
    hashed := active.hashed ++ data
    size := active.size + data.length
    chunks := active.chunks + 1 }

/-- The artifact of a finished group. -/
def ActiveArtifact.artifact (active : ActiveArtifact) (size : Nat) (sha256 : Text) : Artifact where
  artifactId := active.artifactId
  path := active.path
  components := active.components
  fileType := active.fileType
  mode := active.mode
  role := active.role
  target := active.target
  size := size
  sha256 := sha256

namespace Validator

/-- The conditions an item meets in a state the handlers accept it in. -/
def Admits (v : Validator) : Item → Prop
  | .header _ => v.header = none ∧ v.sequence = 0
  | .module => v.header ≠ none ∧ v.phase ≤ 1 ∧ (v.command = some .extract → v.moduleCount = 0)
  | .configSource ordinal =>
    v.header ≠ none ∧ v.command = some .extract ∧ v.moduleCount = 1 ∧ v.phase ≤ 2 ∧
      ordinal = v.configSourceOrdinal
  | .configEntry ordinal =>
    v.header ≠ none ∧ v.command = some .extract ∧ v.moduleCount = 1 ∧ v.phase ≤ 3 ∧
      ordinal = v.configEntryOrdinal
  | .entry ordinal =>
    v.header ≠ none ∧ v.command = some .extract ∧ v.moduleCount = 1 ∧ v.phase ≤ 4 ∧
      ordinal = v.entryCount
  | .artifactBegin artifactId fields _ _ =>
    v.header ≠ none ∧ v.command = some .extract ∧ v.moduleCount = 1 ∧ v.phase ≤ 5 ∧
      v.activeArtifact = none ∧ artifactId = v.artifacts.length ∧ fields.components ∉ v.artifactPaths
  | .artifactChunk artifactId index data =>
    v.header ≠ none ∧ v.phase ≤ 5 ∧ ∃ active, v.activeArtifact = some active ∧
      active.fileType = .regular ∧ artifactId = active.artifactId ∧ index = active.chunks ∧
      active.shortChunkSeen = false ∧
      ∃ chunkSize, v.chunkSize = some chunkSize ∧ data ≠ [] ∧ data.length ≤ chunkSize
  | .artifactEnd artifactId size sha256 stable =>
    v.header ≠ none ∧ v.phase ≤ 5 ∧ ∃ active, v.activeArtifact = some active ∧
      artifactId = active.artifactId ∧ active.Ends size sha256 stable
  | .diagnostic _ => v.header ≠ none ∧ v.activeArtifact = none

/-- The state an accepted item leaves; the header keeps the whole record. -/
def after (v : Validator) (record : Dict) : Item → Validator
  | .header fields =>
    { v with
      command := some fields.command
      chunkSize := if fields.command = .extract then fields.chunkSize else v.chunkSize
      header := some record }
  | .module => { v with phase := 1, moduleCount := v.moduleCount + 1 }
  | .configSource _ => { v with phase := 2, configSourceOrdinal := v.configSourceOrdinal + 1 }
  | .configEntry _ => { v with phase := 3, configEntryOrdinal := v.configEntryOrdinal + 1 }
  | .entry _ => { v with phase := 4, entryCount := v.entryCount + 1 }
  | .artifactBegin artifactId fields target sizeExpected =>
    { v with
      phase := 5
      artifactPaths := fields.components :: v.artifactPaths
      activeArtifact := some (.begin artifactId fields target sizeExpected) }
  | .artifactChunk _ _ data =>
    { v with
      phase := 5
      activeArtifact := v.activeArtifact.map fun active => active.chunk (v.chunkSize.getD 0) data }
  | .artifactEnd _ size sha256 _ =>
    { v with
      phase := 5
      artifacts := v.artifacts ++ v.activeArtifact.toList.map fun active => active.artifact size sha256
      activeArtifact := none }
  | .diagnostic severity => { v with diagnostics := increment v.diagnostics severity }

section Handlers
variable {v v' : Validator} {record : Dict} {line : Nat}

theorem advance_eq_ok {target : Nat} {type : RecordType} :
    v.advance target type line = .ok v' ↔ v.phase ≤ target ∧ v' = { v with phase := target } := by
  simp only [advance, bind_eq_ok, failIf_eq_ok, pure_eq_ok, Nat.not_lt]
  constructor
  · rintro ⟨-, h, rfl⟩
    exact ⟨h, rfl⟩
  · rintro ⟨h, rfl⟩
    exact ⟨(), h, rfl⟩

theorem extractOnly_eq_ok {type : RecordType} {u : Unit} :
    v.extractOnly type line = .ok u ↔ v.command = some .extract ∧ v.moduleCount = 1 := by
  simp only [extractOnly, bind_eq_ok, failIf_eq_ok, not_not, ne_eq]
  constructor
  · rintro ⟨-, h⟩
    exact h
  · intro h
    exact ⟨(), h⟩

theorem validateModule_eq_ok : v.validateModule record line = .ok v' ↔
    moduleFields record line = .ok () ∧ v.phase ≤ 1 ∧ (v.command = some .extract → v.moduleCount = 0) ∧
      v' = v.after record .module := by
  simp only [validateModule, bind_eq_ok, advance_eq_ok, failIf_eq_ok, pure_eq_ok]
  constructor
  · rintro ⟨_, ⟨hphase, rfl⟩, -, hcount, ⟨⟩, hfields, rfl⟩
    exact ⟨hfields, hphase, by simpa using hcount, rfl⟩
  · rintro ⟨hfields, hphase, hcount, rfl⟩
    exact ⟨_, ⟨hphase, rfl⟩, (), by simpa using hcount, (), hfields, rfl⟩

theorem ordinalRecord_eq_ok {type : RecordType} {target expected : Nat} {members : List String}
    {payload : Dict → Nat → Except PyError Unit} :
    v.ordinalRecord type target members expected payload record line = .ok v' ↔
      (∃ ordinal, ordinalField record type members line = .ok ordinal ∧ ordinal = expected) ∧
        payload record line = .ok () ∧ v.command = some .extract ∧ v.moduleCount = 1 ∧
        v.phase ≤ target ∧ v' = { v with phase := target } := by
  simp only [ordinalRecord, bind_eq_ok, advance_eq_ok, extractOnly_eq_ok, expect_eq_ok, pure_eq_ok]
  constructor
  · rintro ⟨-, ⟨hcommand, hmodule⟩, _, ⟨hphase, rfl⟩, ordinal, hordinal, -, hexpect, ⟨⟩, hpayload, rfl⟩
    exact ⟨⟨ordinal, hordinal, hexpect⟩, hpayload, hcommand, hmodule, hphase, rfl⟩
  · rintro ⟨⟨ordinal, hordinal, hexpect⟩, hpayload, hcommand, hmodule, hphase, rfl⟩
    exact ⟨(), ⟨hcommand, hmodule⟩, _, ⟨hphase, rfl⟩, ordinal, hordinal, (), hexpect, (), hpayload, rfl⟩

theorem validateHeader_eq_ok : v.validateHeader record line = .ok v' ↔
    ∃ fields, headerFields record line = .ok fields ∧ v.header = none ∧ v.sequence = 0 ∧
      v' = v.after record (.header fields) := by
  simp only [validateHeader, bind_eq_ok, failIf_eq_ok, pure_eq_ok, not_or, not_not, ne_eq,
    Bool.not_eq_true, Option.isSome_eq_false_iff, Option.isNone_iff_eq_none]
  constructor
  · rintro ⟨-, ⟨hheader, hsequence⟩, fields, hfields, rfl⟩
    exact ⟨fields, hfields, hheader, hsequence, rfl⟩
  · rintro ⟨fields, hfields, hheader, hsequence, rfl⟩
    exact ⟨(), ⟨hheader, hsequence⟩, fields, hfields, rfl⟩

theorem validateDiagnostic_eq_ok : v.validateDiagnostic record line = .ok v' ↔
    ∃ severity, diagnosticFields record line = .ok severity ∧ v.activeArtifact = none ∧
      v' = v.after record (.diagnostic severity) := by
  simp only [validateDiagnostic, bind_eq_ok, failIf_eq_ok, pure_eq_ok,
    Bool.not_eq_true, Option.isSome_eq_false_iff, Option.isNone_iff_eq_none]
  constructor
  · rintro ⟨-, hactive, severity, hfields, rfl⟩
    exact ⟨severity, hfields, hactive, rfl⟩
  · rintro ⟨severity, hfields, hactive, rfl⟩
    exact ⟨(), hactive, severity, hfields, rfl⟩

theorem validateArtifactBegin_eq_ok : v.validateArtifactBegin record line = .ok v' ↔
    ∃ artifactId fields target sizeExpected, (artifactBeginId record line = .ok artifactId ∧
      beginFields record line = .ok fields ∧
      beginContent record fields.fileType line = .ok (target, sizeExpected)) ∧
      v.command = some .extract ∧ v.moduleCount = 1 ∧ v.phase ≤ 5 ∧ v.activeArtifact = none ∧
      artifactId = v.artifacts.length ∧ fields.components ∉ v.artifactPaths ∧
      v' = v.after record (.artifactBegin artifactId fields target sizeExpected) := by
  simp only [validateArtifactBegin, bind_eq_ok, advance_eq_ok, extractOnly_eq_ok, expect_eq_ok,
    failIf_eq_ok, pure_eq_ok, Bool.not_eq_true, Option.isSome_eq_false_iff, Option.isNone_iff_eq_none]
  constructor
  · rintro ⟨-, ⟨hcommand, hmodule⟩, _, ⟨hphase, rfl⟩, -, hactive, artifactId, hid, -, hexpect, fields,
      hfields, -, hpaths, ⟨target, sizeExpected⟩, hcontent, rfl⟩
    exact ⟨artifactId, fields, target, sizeExpected, ⟨hid, hfields, hcontent⟩, hcommand, hmodule, hphase,
      hactive, hexpect, hpaths, rfl⟩
  · rintro ⟨artifactId, fields, target, sizeExpected, ⟨hid, hfields, hcontent⟩, hcommand, hmodule, hphase,
      hactive, hexpect, hpaths, rfl⟩
    exact ⟨(), ⟨hcommand, hmodule⟩, _, ⟨hphase, rfl⟩, (), hactive, artifactId, hid, (), hexpect, fields,
      hfields, (), hpaths, (target, sizeExpected), hcontent, rfl⟩

theorem requireActive_eq_ok {message : Message} {active : ActiveArtifact} :
    v.requireActive message line = .ok active ↔ v.activeArtifact = some active := by
  unfold requireActive
  split <;> simp_all

theorem asserted_eq_ok {α : Type} {value : Option α} {a : α} :
    asserted value = .ok a ↔ value = some a := by
  cases value <;> simp [asserted]

theorem validateArtifactChunk_eq_ok : v.validateArtifactChunk record line = .ok v' ↔
    ∃ artifactId index data, (chunkIds record line = .ok (artifactId, index) ∧
      chunkData record line = .ok data) ∧ v.phase ≤ 5 ∧
      (∃ active, v.activeArtifact = some active ∧ active.fileType = .regular ∧
        artifactId = active.artifactId ∧ index = active.chunks ∧ active.shortChunkSeen = false ∧
        ∃ chunkSize, v.chunkSize = some chunkSize ∧ data ≠ [] ∧ data.length ≤ chunkSize) ∧
      v' = v.after record (.artifactChunk artifactId index data) := by
  simp only [validateArtifactChunk, bind_eq_ok, advance_eq_ok, requireActive_eq_ok, asserted_eq_ok,
    failIf_eq_ok, expect_eq_ok, pure_eq_ok, not_not, ne_eq, Bool.not_eq_true, Nat.not_lt, gt_iff_lt]
  constructor
  · rintro ⟨_, ⟨hphase, rfl⟩, active, hactive, -, hregular, ⟨artifactId, index⟩, hids, -, hid, -, hindex,
      data, hdata, chunkSize, hsize, -, hempty, -, hlarge, -, hshort, rfl⟩
    refine ⟨artifactId, index, data, ⟨hids, hdata⟩, hphase, ⟨active, hactive, hregular, hid, hindex, hshort,
      chunkSize, hsize, hempty, hlarge⟩, ?_⟩
    simp only [after, show v.activeArtifact = some active from hactive,
      show v.chunkSize = some chunkSize from hsize]
    rfl
  · rintro ⟨artifactId, index, data, ⟨hids, hdata⟩, hphase, ⟨active, hactive, hregular, hid, hindex,
      hshort, chunkSize, hsize, hempty, hlarge⟩, rfl⟩
    refine ⟨_, ⟨hphase, rfl⟩, active, hactive, (), hregular, (artifactId, index), hids, (), hid, (), hindex,
      data, hdata, chunkSize, hsize, (), hempty, (), hlarge, (), hshort, ?_⟩
    simp only [after, hactive, hsize]
    rfl

/-- The comparison at the end of a group. -/
theorem actualContent_eq_ok {active : ActiveArtifact} {size : Nat} {sha256 : Text} :
    (∃ actual, actualContent active record line = .ok actual ∧ size = actual.1 ∧ sha256 = actual.2) ↔
      active.Ends size sha256 (endStable record line).toOption := by
  unfold actualContent ActiveArtifact.Ends
  cases active.fileType with
  | symlink =>
    simp only [bind_eq_ok, asserted_eq_ok, pure_eq_ok]
    cases active.target with
    | none => simp
    | some target => simp
  | directory => simp
  | regular =>
    simp only [bind_eq_ok, failIf_eq_ok, pure_eq_ok]
    constructor
    · rintro ⟨actual, ⟨stable, hstable, -, hexpected, rfl⟩, rfl, rfl⟩
      exact ⟨rfl, rfl, stable, by rw [hstable]; rfl, fun hb => by simpa [hb] using hexpected⟩
    · rintro ⟨rfl, rfl, stable, hstable, hexpected⟩
      have hok : endStable record line = .ok stable := by
        cases h : endStable record line with
        | error e => rw [h] at hstable; cases hstable
        | ok b => rw [h] at hstable; cases hstable; rfl
      exact ⟨_, ⟨stable, hok, (), by simpa using hexpected, rfl⟩, rfl, rfl⟩

theorem validateArtifactEnd_eq_ok : v.validateArtifactEnd record line = .ok v' ↔
    ∃ artifactId size sha256, (endId record line = .ok artifactId ∧
      endDeclared record line = .ok (size, sha256)) ∧ v.phase ≤ 5 ∧
      (∃ active, v.activeArtifact = some active ∧ artifactId = active.artifactId ∧
        active.Ends size sha256 (endStable record line).toOption) ∧
      v' = v.after record (.artifactEnd artifactId size sha256 (endStable record line).toOption) := by
  simp only [validateArtifactEnd, bind_eq_ok, advance_eq_ok, requireActive_eq_ok, failIf_eq_ok,
    pure_eq_ok, not_not, ne_eq, not_or, ← actualContent_eq_ok]
  constructor
  · rintro ⟨_, ⟨hphase, rfl⟩, active, hactive, artifactId, hid, -, hsame, ⟨size, sha256⟩, hdeclared, actual,
      hactual, -, ⟨hsize, hsha⟩, rfl⟩
    refine ⟨artifactId, size, sha256, ⟨hid, hdeclared⟩, hphase, ⟨active, hactive, hsame, actual, hactual,
      hsize, hsha⟩, ?_⟩
    simp only [after, show v.activeArtifact = some active from hactive]
    rw [show size = actual.1 from hsize, show sha256 = actual.2 from hsha]
    rfl
  · rintro ⟨artifactId, size, sha256, ⟨hid, hdeclared⟩, hphase, ⟨active, hactive, hsame, actual, hactual,
      rfl, rfl⟩, rfl⟩
    refine ⟨_, ⟨hphase, rfl⟩, active, hactive, artifactId, hid, (), hsame, (actual.1, actual.2), hdeclared,
      actual, hactual, (), ⟨rfl, rfl⟩, ?_⟩
    simp only [after, hactive]
    rfl

/-- A handler accepts a record when its fields are an item the state admits. -/
theorem validateRecord_eq_ok {type : RecordType} (htype : type ≠ .footer) :
    v.validateRecord type record line = .ok v' ↔
      ∃ item, itemFields type record line = .ok item ∧ v.Admits item ∧ v' = v.after record item := by
  simp only [validateRecord, bind_eq_ok, failIf_eq_ok, Option.isNone_iff_eq_none, not_and, not_not, ne_eq]
  have hstep : ∀ {P : Prop}, (∃ _ : Unit, (v.header = none → type = .header) ∧ P) ↔
      (v.header = none → type = .header) ∧ P := by
    intro P
    exact ⟨fun h => h.choose_spec, fun h => ⟨(), h⟩⟩
  rw [hstep]
  cases type with
  | header =>
    simp only [validateHeader_eq_ok, itemFields, bind_eq_ok, pure_eq_ok, implies_true, true_and]
    constructor
    · rintro ⟨fields, hfields, hheader, hsequence, rfl⟩
      exact ⟨_, ⟨fields, hfields, rfl⟩, ⟨hheader, hsequence⟩, rfl⟩
    · rintro ⟨_, ⟨fields, hfields, rfl⟩, ⟨hheader, hsequence⟩, rfl⟩
      exact ⟨fields, hfields, hheader, hsequence, rfl⟩
  | module =>
    simp only [validateModule_eq_ok, itemFields, bind_eq_ok, pure_eq_ok, reduceCtorEq, imp_false]
    constructor
    · rintro ⟨hheader, hfields, hphase, hcount, rfl⟩
      exact ⟨_, ⟨(), hfields, rfl⟩, ⟨hheader, hphase, hcount⟩, rfl⟩
    · rintro ⟨_, ⟨⟨⟩, hfields, rfl⟩, ⟨hheader, hphase, hcount⟩, rfl⟩
      exact ⟨hheader, hfields, hphase, hcount, rfl⟩
  | configSource =>
    simp only [validateConfigSource, ordinalRecord_eq_ok, itemFields, bind_eq_ok, pure_eq_ok, reduceCtorEq,
      imp_false]
    constructor
    · rintro ⟨hheader, _, ⟨⟨ordinal, hordinal, hexpect⟩, hpayload, hcommand, hmodule, hphase, rfl⟩, rfl⟩
      exact ⟨_, ⟨ordinal, hordinal, (), hpayload, rfl⟩, ⟨hheader, hcommand, hmodule, hphase, hexpect⟩, rfl⟩
    · rintro ⟨_, ⟨ordinal, hordinal, ⟨⟩, hpayload, rfl⟩, ⟨hheader, hcommand, hmodule, hphase, hexpect⟩, rfl⟩
      exact ⟨hheader, _, ⟨⟨ordinal, hordinal, hexpect⟩, hpayload, hcommand, hmodule, hphase, rfl⟩, rfl⟩
  | configEntry =>
    simp only [validateConfigEntry, ordinalRecord_eq_ok, itemFields, bind_eq_ok, pure_eq_ok, reduceCtorEq,
      imp_false]
    constructor
    · rintro ⟨hheader, _, ⟨⟨ordinal, hordinal, hexpect⟩, hpayload, hcommand, hmodule, hphase, rfl⟩, rfl⟩
      exact ⟨_, ⟨ordinal, hordinal, (), hpayload, rfl⟩, ⟨hheader, hcommand, hmodule, hphase, hexpect⟩, rfl⟩
    · rintro ⟨_, ⟨ordinal, hordinal, ⟨⟩, hpayload, rfl⟩, ⟨hheader, hcommand, hmodule, hphase, hexpect⟩, rfl⟩
      exact ⟨hheader, _, ⟨⟨ordinal, hordinal, hexpect⟩, hpayload, hcommand, hmodule, hphase, rfl⟩, rfl⟩
  | entry =>
    simp only [validateEntry, ordinalRecord_eq_ok, itemFields, bind_eq_ok, pure_eq_ok, reduceCtorEq,
      imp_false]
    constructor
    · rintro ⟨hheader, _, ⟨⟨ordinal, hordinal, hexpect⟩, hpayload, hcommand, hmodule, hphase, rfl⟩, rfl⟩
      exact ⟨_, ⟨ordinal, hordinal, (), hpayload, rfl⟩, ⟨hheader, hcommand, hmodule, hphase, hexpect⟩, rfl⟩
    · rintro ⟨_, ⟨ordinal, hordinal, ⟨⟩, hpayload, rfl⟩, ⟨hheader, hcommand, hmodule, hphase, hexpect⟩, rfl⟩
      exact ⟨hheader, _, ⟨⟨ordinal, hordinal, hexpect⟩, hpayload, hcommand, hmodule, hphase, rfl⟩, rfl⟩
  | artifactBegin =>
    simp only [validateArtifactBegin_eq_ok, itemFields, bind_eq_ok, pure_eq_ok, reduceCtorEq, imp_false]
    constructor
    · rintro ⟨hheader, artifactId, fields, target, sizeExpected, ⟨hid, hfields, hcontent⟩, hcommand,
        hmodule, hphase, hactive, hexpect, hpaths, rfl⟩
      exact ⟨_, ⟨artifactId, hid, fields, hfields, (target, sizeExpected), hcontent, rfl⟩,
        ⟨hheader, hcommand, hmodule, hphase, hactive, hexpect, hpaths⟩, rfl⟩
    · rintro ⟨_, ⟨artifactId, hid, fields, hfields, ⟨target, sizeExpected⟩, hcontent, rfl⟩,
        ⟨hheader, hcommand, hmodule, hphase, hactive, hexpect, hpaths⟩, rfl⟩
      exact ⟨hheader, artifactId, fields, target, sizeExpected, ⟨hid, hfields, hcontent⟩, hcommand,
        hmodule, hphase, hactive, hexpect, hpaths, rfl⟩
  | artifactChunk =>
    simp only [validateArtifactChunk_eq_ok, itemFields, bind_eq_ok, pure_eq_ok, reduceCtorEq, imp_false]
    constructor
    · rintro ⟨hheader, artifactId, index, data, ⟨hids, hdata⟩, hphase, hactive, rfl⟩
      exact ⟨_, ⟨(artifactId, index), hids, data, hdata, rfl⟩, ⟨hheader, hphase, hactive⟩, rfl⟩
    · rintro ⟨_, ⟨⟨artifactId, index⟩, hids, data, hdata, rfl⟩, ⟨hheader, hphase, hactive⟩, rfl⟩
      exact ⟨hheader, artifactId, index, data, ⟨hids, hdata⟩, hphase, hactive, rfl⟩
  | artifactEnd =>
    simp only [validateArtifactEnd_eq_ok, itemFields, bind_eq_ok, pure_eq_ok, reduceCtorEq, imp_false]
    constructor
    · rintro ⟨hheader, artifactId, size, sha256, ⟨hid, hdeclared⟩, hphase, hactive, rfl⟩
      exact ⟨_, ⟨artifactId, hid, (size, sha256), hdeclared, rfl⟩, ⟨hheader, hphase, hactive⟩, rfl⟩
    · rintro ⟨_, ⟨artifactId, hid, ⟨size, sha256⟩, hdeclared, rfl⟩, ⟨hheader, hphase, hactive⟩, rfl⟩
      exact ⟨hheader, artifactId, size, sha256, ⟨hid, hdeclared⟩, hphase, hactive, rfl⟩
  | diagnostic =>
    simp only [validateDiagnostic_eq_ok, itemFields, bind_eq_ok, pure_eq_ok, reduceCtorEq, imp_false]
    constructor
    · rintro ⟨hheader, severity, hfields, hactive, rfl⟩
      exact ⟨_, ⟨severity, hfields, rfl⟩, ⟨hheader, hactive⟩, rfl⟩
    · rintro ⟨_, ⟨severity, hfields, rfl⟩, ⟨hheader, hactive⟩, rfl⟩
      exact ⟨hheader, severity, hfields, hactive, rfl⟩
  | footer => exact absurd rfl htype

end Handlers
end Validator

/-! ## The footer -/

structure FooterFields where
  streamSha256 : Text
  counts : List (RecordType × Int)
  entries : Nat
  artifacts : Nat
  artifactBytes : Nat
  diagnostics : List (Severity × Int)
  success : Bool
deriving DecidableEq

/-- Counts whose names are record types are read entry by entry. -/
theorem normalizedCounts_ok (line : Nat) (counts : Dict)
    (h : ∀ e ∈ counts, ∃ type, type ≠ RecordType.footer ∧ ∃ n : Nat, e = (text type.name, .int n)) :
    ∃ normalized, normalizedCounts line counts = .ok normalized ∧
      ∀ type n, normalized.lookup type = some n ↔
        type ≠ .footer ∧ counts.lookup (text type.name) = some (.int n) := by
  have hfilter : ∀ a ∈ recordTypes.filter (· ≠ .footer), ∀ b ∈ recordTypes.filter (· ≠ .footer),
      a.name = b.name → a = b := by decide
  induction counts with
  | nil => exact ⟨[], rfl, fun type n => by simp⟩
  | cons e rest ih =>
    obtain ⟨type, htype, n, rfl⟩ := h e (by simp)
    obtain ⟨normalized, hok, hlookup⟩ := ih fun x hx => h x (List.mem_cons_of_mem _ hx)
    refine ⟨(type, n) :: normalized, ?_, fun t m => ?_⟩
    · simp only [normalizedCounts, bind_eq_ok, oneOf_eq_ok hfilter, requireInteger_eq_ok, pure_eq_ok]
      exact ⟨type, ⟨by simp [htype, mem_recordTypes], rfl⟩, n, ⟨rfl, by omega, by simp⟩, normalized, hok, rfl⟩
    · rw [List.lookup_cons, List.lookup_cons]
      by_cases ht : t = type
      · subst ht
        simp [htype]
      · have hname : text t.name ≠ text type.name := fun hn =>
          ht (recordType_inj t (mem_recordTypes t) type (mem_recordTypes type) (text_inj.mp hn))
        rw [beq_false_of_ne ht, beq_false_of_ne hname]
        exact hlookup t m

/-- The members of `footer.diagnostics` are the severities. -/
def diagnosticsFields (record : Dict) (line : Nat) : Except PyError (List (Severity × Int)) := do
  let diagnostics ← requireObject (← dictItem record "diagnostics") (field [.lit "footer"] "diagnostics") line
  let observed ← observedDiagnostics diagnostics line severities
  failIf (unknownSeverity diagnostics = true)
    [.lit "footer.diagnostics contains unknown severities"] line
  return observed

/-- The checks of `_validate_footer` that read only the record. -/
def footerFields (record : Dict) (line : Nat) : Except PyError FooterFields := do
  let context := [.lit "footer"]
  requireMembers record ["artifact_bytes", "artifacts", "counts", "diagnostics", "entries",
    "stream_sha256", "success"] context line
  let streamSha256 ← requireSha256 (← dictItem record "stream_sha256") (field context "stream_sha256") line
  let counts ← requireObject (← dictItem record "counts") (field context "counts") line
  let counts ← normalizedCounts line counts
  let entries ← natural record "entries" (field context "entries") line 0 none
  let artifacts ← natural record "artifacts" (field context "artifacts") line 0 none
  let artifactBytes ← natural record "artifact_bytes" (field context "artifact_bytes") line 0 none
  let diagnostics ← diagnosticsFields record line
  let success ← requireBoolean (← dictItem record "success") (field context "success") line
  return ⟨streamSha256, counts, entries, artifacts, artifactBytes, diagnostics, success⟩

/-- The digest and the totals a footer declares are those of the object. -/
structure FooterFields.TrueOf (f : FooterFields) (v : Validator) : Prop where
  streamSha256 : f.streamSha256 = Sha256.hexdigest v.streamHashed
  counts : Validator.SameCounts f.counts v.counts
  entries : f.entries = v.entryCount
  artifacts : f.artifacts = v.artifacts.length
  artifactBytes : f.artifactBytes = Validator.artifactBytes v.artifacts
  diagnostics : f.diagnostics = severities.map fun severity => (severity, (v.diagnostics severity : Int))
  success : f.success = decide (v.diagnostics .error = 0)

namespace Validator
variable {v v' : Validator} {record : Dict} {line : Nat}

theorem checkDigest_eq_ok {u : Unit} : v.checkDigest record line = .ok u ↔
    dictGet record "stream_sha256" = some (.str (Sha256.hexdigest v.streamHashed)) := by
  simp only [checkDigest, bind_eq_ok, dictItem_eq_ok, requireSha256_eq_ok, failIf_eq_ok, not_not, ne_eq]
  constructor
  · rintro ⟨_, h, _, ⟨rfl, -⟩, rfl⟩
    exact h
  · intro h
    exact ⟨_, h, _, ⟨rfl, isDigest_hexdigest _⟩, rfl⟩

theorem checkCounts_eq_ok {u : Unit} : v.checkCounts record line = .ok u ↔
    ∃ counts normalized, dictGet record "counts" = some (.obj counts) ∧
      normalizedCounts line counts = .ok normalized ∧ SameCounts normalized v.counts := by
  simp only [checkCounts, bind_eq_ok, dictItem_eq_ok, requireObject_eq_ok, failIf_eq_ok, not_not]
  constructor
  · rintro ⟨_, h, counts, rfl, normalized, hnormalized, hsame⟩
    exact ⟨counts, normalized, h, hnormalized, hsame⟩
  · rintro ⟨counts, normalized, h, hnormalized, hsame⟩
    exact ⟨_, h, counts, rfl, normalized, hnormalized, hsame⟩

theorem checkDiagnostics_eq_ok {u : Unit} : v.checkDiagnostics record line = .ok u ↔
    diagnosticsFields record line =
      .ok (severities.map fun severity => (severity, (v.diagnostics severity : Int))) := by
  simp only [checkDiagnostics, diagnosticsFields, bind_eq_ok, failIf_eq_ok, pure_eq_ok, not_not, ne_eq]

/-- A footer is accepted once, after the header and outside a group, when it tells the truth. -/
theorem validateFooter_eq_ok : v.validateFooter record line = .ok v' ↔
    ∃ f, footerFields record line = .ok f ∧ v.header ≠ none ∧ v.footer = none ∧
      v.activeArtifact = none ∧ f.TrueOf v ∧ v' = { v with footer := some record } := by
  simp only [validateFooter, footerFields, checkTotals, checkDiagnostics_eq_ok, checkCounts_eq_ok,
    checkDigest_eq_ok, bind_eq_ok, failIf_eq_ok, pure_eq_ok, dictItem_eq_ok, requireSha256_eq_ok,
    requireObject_eq_ok, requireBoolean_eq_ok, not_not, ne_eq, Bool.not_eq_true,
    Option.isSome_eq_false_iff, Option.isNone_iff_eq_none]
  constructor
  · rintro ⟨-, hheader, -, hfooter, -, hactive, ⟨⟩, hmembers, ⟨⟩, hdigest, ⟨⟩,
      ⟨counts, normalized, hcounts, hnormalized, hsame⟩, ⟨⟩, ⟨entries, hentries, artifacts, hartifacts, bytes,
      hbytes, -, hentriesEq, -, hartifactsEq, hbytesEq⟩, ⟨⟩, hdiagnostics, _, hsuccess, success, rfl, -, hsuccessEq, rfl⟩
    exact ⟨⟨_, normalized, entries, artifacts, bytes, _, success⟩,
      ⟨(), hmembers, _, hdigest, _, ⟨rfl, isDigest_hexdigest _⟩, _, hcounts, counts, rfl, normalized,
        hnormalized, entries, hentries, artifacts, hartifacts, bytes, hbytes, _, hdiagnostics, _, hsuccess,
        success, rfl, rfl⟩, hheader, hfooter, hactive,
      ⟨rfl, hsame, hentriesEq, hartifactsEq, hbytesEq, rfl, hsuccessEq⟩, rfl⟩
  · rintro ⟨f, ⟨⟨⟩, hmembers, _, hdigest, _, ⟨rfl, hisDigest⟩, _, hcounts, counts, rfl, normalized,
        hnormalized, entries, hentries, artifacts, hartifacts, bytes, hbytes, _, hdiagnostics, _, hsuccess,
        success, rfl, rfl⟩, hheader, hfooter, hactive, htrue, rfl⟩
    obtain ⟨rfl, hsame, hentriesEq, hartifactsEq, hbytesEq, rfl, hsuccessEq⟩ := htrue
    exact ⟨(), hheader, (), hfooter, (), hactive, (), hmembers, (), hdigest, (),
      ⟨counts, normalized, hcounts, hnormalized, hsame⟩, (), ⟨entries, hentries, artifacts, hartifacts, bytes,
      hbytes, (), hentriesEq, (), hartifactsEq, hbytesEq⟩, (), hdiagnostics, _, hsuccess, success, rfl, (),
      hsuccessEq, rfl⟩

end Validator

/-! ## One round of the loop -/

namespace Validator
variable {v v' : Validator} {line : Nat}

/-- The object after an accepted record that is not a footer. -/
def next (v : Validator) (rawLine : Bytes) (record : Dict) (item : Item) : Validator :=
  { v.after record item with
    counts := increment (v.after record item).counts item.type
    streamHashed := (v.after record item).streamHashed ++ rawLine
    sequence := (v.after record item).sequence + 1 }

theorem itemFields_type {type : RecordType} {record : Dict} {item : Item}
    (h : itemFields type record line = .ok item) : item.type = type := by
  cases type <;> simp only [itemFields, bind_eq_ok, pure_eq_ok, fail_ne_ok] at h
  case header => obtain ⟨_, -, rfl⟩ := h; rfl
  case module => obtain ⟨_, -, rfl⟩ := h; rfl
  case configSource => obtain ⟨_, -, _, -, rfl⟩ := h; rfl
  case configEntry => obtain ⟨_, -, _, -, rfl⟩ := h; rfl
  case entry => obtain ⟨_, -, _, -, rfl⟩ := h; rfl
  case artifactBegin => obtain ⟨_, -, _, -, _, -, rfl⟩ := h; rfl
  case artifactChunk => obtain ⟨_, -, _, -, rfl⟩ := h; rfl
  case artifactEnd => obtain ⟨_, -, _, -, rfl⟩ := h; rfl
  case diagnostic => obtain ⟨_, -, rfl⟩ := h; rfl

/-- A round of the loop accepts an item or a footer. -/
theorem validateLine_eq_ok {rawLine : Bytes} : v.validateLine rawLine line = .ok v' ↔
    (∃ type record item, IsRecord v.maximumRecordBytes v.sequence rawLine type record ∧ type ≠ .footer ∧
      itemOf type record line = .ok item ∧ v.footer = none ∧ v.Admits item ∧
      v' = v.next rawLine record item) ∨
    ∃ record f, IsRecord v.maximumRecordBytes v.sequence rawLine .footer record ∧
      footerFields record line = .ok f ∧ v.header ≠ none ∧ v.footer = none ∧ v.activeArtifact = none ∧
      f.TrueOf v ∧ v' = { v with footer := some record, sequence := v.sequence + 1 } := by
  simp only [validateLine, bind_eq_ok, pure_eq_ok]
  constructor
  · rintro ⟨⟨type, record⟩, hread, w, hw, rfl⟩
    have hread := readRecord_eq_ok.mp hread
    by_cases htype : type = .footer
    · subst htype
      rw [dispatch, if_pos rfl] at hw
      obtain ⟨f, hf, hheader, hfooter, hactive, htrue, rfl⟩ := validateFooter_eq_ok.mp hw
      exact .inr ⟨record, f, hread, hf, hheader, hfooter, hactive, htrue, rfl⟩
    · rw [dispatch, if_neg htype] at hw
      simp only [bind_eq_ok, failIf_eq_ok, pure_eq_ok, Bool.not_eq_true, Option.isSome_eq_false_iff,
        Option.isNone_iff_eq_none] at hw
      obtain ⟨-, hfooter, w', hw', ⟨⟩, hembedded, rfl⟩ := hw
      obtain ⟨item, hitem, hadmits, rfl⟩ := (validateRecord_eq_ok htype).mp hw'
      refine .inl ⟨type, record, item, hread, htype, ?_, hfooter, hadmits, ?_⟩
      · simp only [itemOf, bind_eq_ok, pure_eq_ok]
        exact ⟨item, hitem, (), hembedded, rfl⟩
      · rw [next, itemFields_type hitem]
  · rintro (⟨type, record, item, hread, htype, hitem, hfooter, hadmits, rfl⟩ |
      ⟨record, f, hread, hf, hheader, hfooter, hactive, htrue, rfl⟩)
    · simp only [itemOf, bind_eq_ok, pure_eq_ok] at hitem
      obtain ⟨item, hitem, ⟨⟩, hembedded, rfl⟩ := hitem
      have hrecord := (validateRecord_eq_ok htype).mpr ⟨item, hitem, hadmits, rfl⟩
      refine ⟨(type, record), readRecord_eq_ok.mpr hread,
        { v.after record item with
          counts := increment (v.after record item).counts type
          streamHashed := (v.after record item).streamHashed ++ rawLine }, ?_, ?_⟩
      · rw [dispatch, if_neg htype]
        simp only [bind_eq_ok, failIf_eq_ok, pure_eq_ok, Bool.not_eq_true, Option.isSome_eq_false_iff,
          Option.isNone_iff_eq_none]
        exact ⟨(), hfooter, _, hrecord, (), hembedded, rfl⟩
      · rw [next, itemFields_type hitem]
    · refine ⟨(.footer, record), readRecord_eq_ok.mpr hread, { v with footer := some record }, ?_, rfl⟩
      rw [dispatch, if_pos rfl]
      exact validateFooter_eq_ok.mpr ⟨f, hf, hheader, hfooter, hactive, htrue, rfl⟩

end Validator
end GetBibleSword.Tool
