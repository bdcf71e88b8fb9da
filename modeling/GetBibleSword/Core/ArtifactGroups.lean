import GetBibleSword.Core.Artifact

/-!
# The groups of artifact records

What `emit_artifacts` writes, read as groups.

* `ArtifactGroup`, `records` : a begin record, chunk records, an end record, and the content they hold;
* `Accounted g artifactId chunkSize` : the group belongs to one artifact and its end record is true;
* `capture_accounted` : one candidate is one such group, or nothing but diagnostics;
* `artifact_accounting` : the whole call.
-/

namespace GetBibleSword.Core
open GetBibleSword.Lib

structure ArtifactGroup where
  begin : JsonFields
  chunks : List JsonFields
  ending : JsonFields
  content : Bytes

namespace ArtifactGroup
variable (g : ArtifactGroup) (artifactId chunkSize : Nat)

def records : List (Bytes × JsonFields) :=
  (Purpose.artifactBegin.type, g.begin) ::
    (g.chunks.map (fun fields => (Purpose.artifactChunk.type, fields)) ++ [(Purpose.artifactEnd.type, g.ending)])

def IsDirectory : Prop :=
  g.begin.find (ascii "file_type") = some (ascii "\"directory\"") ∧ g.chunks = [] ∧ g.content = []

/-- The content is the target. -/
def IsSymlink : Prop :=
  g.begin.find (ascii "file_type") = some (ascii "\"symlink\"") ∧ g.chunks = [] ∧
    g.begin.find (ascii "target") = some (byteValueJson g.content)

/-- The chunks are numbered from zero, not empty, at most the chunk size, and make up the content. -/
def IsRegular : Prop :=
  g.begin.find (ascii "file_type") = some (ascii "\"regular\"") ∧
    ∃ data : List Bytes, g.chunks = data.mapIdx (chunkFields artifactId) ∧
      (∀ chunk ∈ data, chunk ≠ [] ∧ chunk.length ≤ chunkSize) ∧ g.content = data.flatten

structure Accounted : Prop where
  kind : g.IsDirectory ∨ g.IsSymlink ∨ g.IsRegular artifactId chunkSize
  begin_id : g.begin.find (ascii "artifact_id") = some (decimal artifactId)
  end_id : g.ending.find (ascii "artifact_id") = some (decimal artifactId)
  size : g.ending.find (ascii "size") = some (decimal g.content.length)
  sha256 : g.ending.find (ascii "sha256") = some (jsonString ((Lib.Sha256.hexdigest g.content).map octet))

end ArtifactGroup

/-! ## Fields -/

theorem find_fieldsOf_mem {fields : List (Bytes × Bytes)} {k a : Bytes} (hnodup : (fields.map Prod.fst).Nodup)
    (h : (k, a) ∈ fields) : (fieldsOf fields).find k = some a :=
  OrdMap.find_emplaceAll_mem (m := OrdMap.empty) fields hnodup h

theorem chunkRecords_eq (artifactId : Nat) (chunks : List Bytes) : ∀ index : Nat,
    chunkRecords artifactId index chunks =
      (chunks.mapIdx fun i chunk => chunkFields artifactId (index + i) chunk).map
        fun fields => (Purpose.artifactChunk.type, fields) := by
  induction chunks with
  | nil => exact fun _ => rfl
  | cons chunk chunks ih =>
    intro index
    rw [chunkRecords, ih, List.mapIdx_cons, List.map_cons]
    simp only [Nat.add_zero, Nat.add_assoc, Nat.add_comm 1]

theorem mem_delivered {reads : List ReadResult} {chunk : Bytes} (h : chunk ∈ delivered reads) :
    chunk ≠ [] ∧ ReadResult.data chunk ∈ reads := by
  induction reads with
  | nil => cases h
  | cons answer reads ih =>
    cases answer with
    | fail error =>
      rw [delivered] at h
      split_ifs at h
      · exact ⟨(ih h).1, List.mem_cons_of_mem _ (ih h).2⟩
      · cases h
    | data bytes =>
      rw [delivered] at h
      split_ifs at h with hbytes
      · cases h
      rcases List.mem_cons.mp h with rfl | h
      · exact ⟨hbytes, List.mem_cons_self⟩
      · exact ⟨(ih h).1, List.mem_cons_of_mem _ (ih h).2⟩

section Groups
variable (candidate : ArtifactCandidate) (artifactId mode : Nat)

theorem find_beginFields {more : List (Bytes × Bytes)} {k a : Bytes}
    (hnodup : ([ascii "artifact_id", ascii "mode", ascii "path", ascii "role"] ++ more.map Prod.fst).Nodup)
    (h : (k, a) ∈ candidate.common artifactId mode ++ more) :
    (candidate.beginFields artifactId mode more).find k = some a := by
  refine find_fieldsOf_mem ?_ h
  rw [List.map_append]
  exact hnodup

/-- What an end record says about its content. -/
theorem find_endFields (content : Bytes) :
    (fieldsOf (endFields artifactId content.length (sha256Hex content))).find (ascii "artifact_id") =
        some (decimal artifactId) ∧
      (fieldsOf (endFields artifactId content.length (sha256Hex content))).find (ascii "size") =
        some (decimal content.length) ∧
      (fieldsOf (endFields artifactId content.length (sha256Hex content))).find (ascii "sha256") =
        some (jsonString ((Lib.Sha256.hexdigest content).map octet)) := by
  have hnodup : ((endFields artifactId content.length (sha256Hex content)).map Prod.fst).Nodup := by
    show [ascii "artifact_id", ascii "sha256", ascii "size"].Nodup
    decide
  rw [← sha256Hex_eq]
  exact ⟨find_fieldsOf_mem hnodup (by simp [endFields]), find_fieldsOf_mem hnodup (by simp [endFields]),
    find_fieldsOf_mem hnodup (by simp [endFields])⟩

theorem find_stableFields (content : Bytes) (stable : Bool) :
    (fieldsOf (endFields artifactId content.length (sha256Hex content) ++ [stableField stable])).find
        (ascii "artifact_id") = some (decimal artifactId) ∧
      (fieldsOf (endFields artifactId content.length (sha256Hex content) ++ [stableField stable])).find
        (ascii "size") = some (decimal content.length) ∧
      (fieldsOf (endFields artifactId content.length (sha256Hex content) ++ [stableField stable])).find
        (ascii "sha256") = some (jsonString ((Lib.Sha256.hexdigest content).map octet)) ∧
      (fieldsOf (endFields artifactId content.length (sha256Hex content) ++ [stableField stable])).find
        (ascii "stable") = some (if stable then ascii "true" else ascii "false") := by
  have hnodup : ((endFields artifactId content.length (sha256Hex content) ++
      [stableField stable]).map Prod.fst).Nodup := by
    show [ascii "artifact_id", ascii "sha256", ascii "size", ascii "stable"].Nodup
    decide
  rw [← sha256Hex_eq]
  exact ⟨find_fieldsOf_mem hnodup (by simp [endFields]), find_fieldsOf_mem hnodup (by simp [endFields]),
    find_fieldsOf_mem hnodup (by simp [endFields]), find_fieldsOf_mem hnodup (by simp [stableField])⟩

/-- The group of a directory. -/
def directoryGroup : ArtifactGroup where
  begin := candidate.beginFields artifactId mode directoryFields
  chunks := []
  ending := fieldsOf (endFields artifactId 0 (sha256Hex []))
  content := []

def symlinkGroup (target : Bytes) : ArtifactGroup where
  begin := candidate.beginFields artifactId mode (symlinkFields target)
  chunks := []
  ending := fieldsOf (endFields artifactId target.length (sha256Hex target))
  content := target

def regularGroup (size : Nat) (data : List Bytes) (stable : Bool) : ArtifactGroup where
  begin := candidate.beginFields artifactId mode (regularFields size)
  chunks := data.mapIdx (chunkFields artifactId)
  ending := fieldsOf (endFields artifactId data.flatten.length (sha256Hex data.flatten) ++ [stableField stable])
  content := data.flatten

variable {chunkSize : Nat}

theorem directoryGroup_accounted :
    (directoryGroup candidate artifactId mode).Accounted artifactId chunkSize where
  kind := .inl ⟨find_beginFields candidate artifactId mode (by decide) (by simp [directoryFields]), rfl, rfl⟩
  begin_id := find_beginFields candidate artifactId mode (by decide) (by simp [ArtifactCandidate.common])
  end_id := (find_endFields artifactId []).1
  size := (find_endFields artifactId []).2.1
  sha256 := (find_endFields artifactId []).2.2

theorem symlinkGroup_accounted (target : Bytes) :
    (symlinkGroup candidate artifactId mode target).Accounted artifactId chunkSize := by
  have hnodup : ([ascii "artifact_id", ascii "mode", ascii "path", ascii "role"] ++
      (symlinkFields target).map Prod.fst).Nodup := by
    show [ascii "artifact_id", ascii "mode", ascii "path", ascii "role", ascii "file_type", ascii "target"].Nodup
    decide
  exact {
    kind := .inr (.inl ⟨find_beginFields candidate artifactId mode hnodup (by simp [symlinkFields]), rfl,
      find_beginFields candidate artifactId mode hnodup (by simp [symlinkFields, symlinkGroup])⟩)
    begin_id := find_beginFields candidate artifactId mode hnodup (by simp [ArtifactCandidate.common])
    end_id := (find_endFields artifactId target).1
    size := (find_endFields artifactId target).2.1
    sha256 := (find_endFields artifactId target).2.2 }

theorem regularGroup_accounted (size : Nat) {data : List Bytes} (stable : Bool)
    (hdata : ∀ chunk ∈ data, chunk ≠ [] ∧ chunk.length ≤ chunkSize) :
    (regularGroup candidate artifactId mode size data stable).Accounted artifactId chunkSize := by
  have hnodup : ([ascii "artifact_id", ascii "mode", ascii "path", ascii "role"] ++
      (regularFields size).map Prod.fst).Nodup := by
    show [ascii "artifact_id", ascii "mode", ascii "path", ascii "role", ascii "file_type",
      ascii "size_expected"].Nodup
    decide
  exact {
    kind := .inr (.inr ⟨find_beginFields candidate artifactId mode hnodup (by simp [regularFields]),
      data, rfl, hdata, rfl⟩)
    begin_id := find_beginFields candidate artifactId mode hnodup (by simp [ArtifactCandidate.common])
    end_id := (find_stableFields artifactId data.flatten stable).1
    size := (find_stableFields artifactId data.flatten stable).2.1
    sha256 := (find_stableFields artifactId data.flatten stable).2.2.1 }

end Groups

/-! ## One candidate -/

/-- What a candidate adds is one group of its id, or nothing but diagnostics. -/
def Capture.Accounted (c : Capture) (artifactId chunkSize : Nat) : Prop :=
  (c.counted = true ∧ ∃ g : ArtifactGroup, g.Accounted artifactId chunkSize ∧ c.records = g.records ∧
    c.bytes = g.content.length) ∨
  (c.counted = false ∧ c.records = [] ∧ c.bytes = 0)

theorem failure_accounted (value : Diagnostic) (artifactId chunkSize : Nat) :
    (Capture.failure value).Accounted artifactId chunkSize := .inr ⟨rfl, rfl, rfl⟩

section One
variable (candidate : ArtifactCandidate) {answers : Inspection} (metadata : FileState) (artifactId : Nat)
variable {chunkSize : Nat}

theorem captureContent_records (answers : Inspection) (opened : FileState) :
    (captureContent candidate answers metadata opened artifactId).records =
      (regularGroup candidate artifactId metadata.mode metadata.size (delivered answers.reads)
        (unchanged opened answers.after && (readError answers.reads).isNone)).records := by
  rw [captureContent, Capture.group, chunkRecords_eq]
  simp only [Nat.zero_add]
  rfl

variable (hreads : ∀ chunk, ReadResult.data chunk ∈ answers.reads → chunk.length ≤ chunkSize)
include hreads

theorem captureContent_accounted (opened : FileState) :
    (captureContent candidate answers metadata opened artifactId).Accounted artifactId chunkSize := by
  refine .inl ⟨rfl, _, ?_, captureContent_records candidate metadata artifactId answers opened, rfl⟩
  refine regularGroup_accounted candidate artifactId metadata.mode metadata.size _ fun chunk hchunk => ?_
  exact ⟨(mem_delivered hchunk).1, hreads chunk (mem_delivered hchunk).2⟩

theorem captureRegular_accounted :
    (captureRegular candidate answers metadata artifactId).Accounted artifactId chunkSize := by
  unfold captureRegular
  cases answers.open_ with
  | error error => exact failure_accounted _ _ _
  | ok =>
    cases answers.opened with
    | error error => exact failure_accounted _ _ _
    | ok opened =>
      dsimp only
      split_ifs
      · exact captureContent_accounted candidate metadata artifactId hreads opened
      · exact failure_accounted _ _ _

theorem capture_accounted : (capture candidate answers artifactId).Accounted artifactId chunkSize := by
  unfold capture
  cases answers.lstat with
  | error error => exact failure_accounted _ _ _
  | ok metadata =>
    dsimp only
    split_ifs
    · exact .inl ⟨rfl, _, directoryGroup_accounted candidate artifactId metadata.mode, rfl, rfl⟩
    · unfold captureSymlink
      cases answers.readlink with
      | error error => exact failure_accounted _ _ _
      | ok whole => exact .inl ⟨rfl, _, symlinkGroup_accounted candidate artifactId metadata.mode _, rfl, rfl⟩
    · exact captureRegular_accounted candidate metadata artifactId hreads
    · exact failure_accounted _ _ _

end One

/-! ## The whole call -/

/-- The captures are groups numbered from `artifactId` on, and these are what is counted. -/
theorem captures_accounted (candidates : List (ArtifactCandidate × Inspection)) {chunkSize : Nat}
    (hreads : ∀ c ∈ candidates, ∀ chunk, ReadResult.data chunk ∈ c.2.reads → chunk.length ≤ chunkSize) :
    ∀ (artifactId : Nat) (result : ArtifactResult), ∃ groups : List ArtifactGroup,
      (captures candidates artifactId).flatMap Capture.records = groups.flatMap ArtifactGroup.records ∧
      (∀ (i : Nat) (g : ArtifactGroup), groups[i]? = some g → g.Accounted (artifactId + i) chunkSize) ∧
      (result.addAll (captures candidates artifactId)).artifacts = result.artifacts + groups.length ∧
      (result.addAll (captures candidates artifactId)).bytes =
        result.bytes + (groups.map fun g => g.content.length).sum := by
  induction candidates with
  | nil => exact fun artifactId result => ⟨[], rfl, nofun, rfl, rfl⟩
  | cons first rest ih =>
    intro artifactId result
    have ih := ih fun c hc => hreads c (List.mem_cons_of_mem _ hc)
    rw [captures, List.flatMap_cons, ArtifactResult.addAll, List.foldl_cons, ← ArtifactResult.addAll]
    rcases capture_accounted first.1 artifactId (hreads first List.mem_cons_self) with
      ⟨hcounted, g, hg, hrecords, hbytes⟩ | ⟨hcounted, hrecords, hbytes⟩
    · simp only [hcounted, if_true]
      obtain ⟨groups, hflat, hgroups, hartifacts, htotal⟩ := ih (artifactId + 1)
        { result.add (capture first.1 first.2 artifactId) with
          artifacts := (result.add (capture first.1 first.2 artifactId)).artifacts + 1 }
      refine ⟨g :: groups, ?_, ?_, ?_, ?_⟩
      · rw [hflat, hrecords, List.flatMap_cons]
      · intro i h hi
        cases i with
        | zero => exact Option.some.inj hi ▸ hg
        | succ i =>
          have := hgroups i h hi
          rwa [Nat.add_assoc, Nat.add_comm 1] at this
      · rw [hartifacts, List.length_cons, Nat.add_assoc, Nat.add_comm 1]
        rfl
      · rw [htotal, List.map_cons, List.sum_cons, ← hbytes, ← Nat.add_assoc]
        rfl
    · simp only [hcounted, Bool.false_eq_true, if_false]
      obtain ⟨groups, hflat, hgroups, hartifacts, htotal⟩ := ih artifactId
        (result.add (capture first.1 first.2 artifactId))
      refine ⟨groups, ?_, hgroups, hartifacts, ?_⟩
      · rw [hflat, hrecords, List.nil_append]
      · rw [htotal, ArtifactResult.add, hbytes]
        rfl

theorem addAll_success (cs : List Capture) : ∀ result : ArtifactResult,
    (result.success = true ↔ result.diagnostics = []) →
    ((result.addAll cs).success = true ↔ (result.addAll cs).diagnostics = []) := by
  induction cs with
  | nil => exact fun _ h => h
  | cons c cs ih =>
    intro result h
    rw [ArtifactResult.addAll, List.foldl_cons, ← ArtifactResult.addAll]
    have hadd : (result.add c).success = true ↔ (result.add c).diagnostics = [] := by
      rw [ArtifactResult.add, ArtifactResult.note, List.append_eq_nil_iff, Bool.and_eq_true, h,
        List.isEmpty_iff]
    dsimp only
    split_ifs
    · exact ih _ hadd
    · exact ih _ hadd

/-- The call writes the groups of the artifacts it counts, numbered from zero, each closed by a true end
record, and behind them its diagnostics; it succeeds exactly without diagnostics. -/
theorem artifact_accounting (candidates : List (ArtifactCandidate × Inspection)) {chunkSize : Nat}
    (hsize : 4096 ≤ chunkSize ∧ chunkSize ≤ 16777216)
    (hreads : ∀ c ∈ candidates, ∀ chunk, ReadResult.data chunk ∈ c.2.reads → chunk.length ≤ chunkSize)
    {s : Session} (hs : s.Open) : ∃ (result : ArtifactResult) (groups : List ArtifactGroup),
      Does (emitArtifacts noFaults candidates chunkSize) s result
        (groups.flatMap ArtifactGroup.records ++ diagnosticRecords result.diagnostics) ∧
      (∀ (i : Nat) (g : ArtifactGroup), groups[i]? = some g → g.Accounted i chunkSize) ∧
      result.artifacts = groups.length ∧
      result.bytes = (groups.map fun g => g.content.length).sum ∧
      (result.success = true ↔ result.diagnostics = []) := by
  have hrun := emitArtifacts_noFaults candidates
    (⟨by omega, by unfold ssizeMax; omega⟩ : chunkSize ≠ 0 ∧ chunkSize ≤ ssizeMax) hs
  obtain ⟨groups, hflat, hgroups, hartifacts, hbytes⟩ := captures_accounted candidates hreads 0 ⟨0, 0, [], true⟩
  have hdiagnostics := addAll_diagnostics (captures candidates 0) ⟨0, 0, [], true⟩
  rw [List.nil_append] at hdiagnostics
  rw [Nat.zero_add] at hartifacts hbytes
  rw [hflat, ← hdiagnostics] at hrun
  refine ⟨_, groups, hrun, fun i g hi => ?_, hartifacts, hbytes, addAll_success _ _ (by simp)⟩
  have := hgroups i g hi
  rwa [Nat.zero_add] at this

/-- A regular file of two octets that `read` delivers at once. -/
def oneFile : ArtifactCandidate × Inspection :=
  let state : FileState := ⟨1, 1, 0o100644, 2, ⟨0, 0⟩, ⟨0, 0⟩⟩
  (⟨ascii "/sword/f", ascii "f", ascii "module_data"⟩,
    { lstat := .ok state
      readlink := .error ⟨22, ascii "Invalid argument"⟩
      open_ := .ok ()
      opened := .ok state
      reads := [.data (ascii "ab")]
      after := .ok state })

theorem artifact_accounting_oneFile : ∃ (result : ArtifactResult) (groups : List ArtifactGroup),
    Does (emitArtifacts noFaults [oneFile] 4096) ⟨.new ⟨[], none, true, true⟩, 0, []⟩ result
      (groups.flatMap ArtifactGroup.records ++ diagnosticRecords result.diagnostics) ∧
    (∀ (i : Nat) (g : ArtifactGroup), groups[i]? = some g → g.Accounted i 4096) ∧
    result.artifacts = groups.length ∧
    result.bytes = (groups.map fun g => g.content.length).sum ∧
    (result.success = true ↔ result.diagnostics = []) := by
  refine artifact_accounting [oneFile] (by decide) (fun c hc chunk hchunk => ?_) ⟨⟨rfl, rfl, rfl⟩, rfl⟩
  rw [List.mem_singleton.mp hc] at hchunk
  rw [ReadResult.data.inj (List.mem_singleton.mp hchunk)]
  decide

end GetBibleSword.Core
