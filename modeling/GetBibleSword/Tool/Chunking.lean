import GetBibleSword.Core.Artifact
import GetBibleSword.Tool.ByteValue

/-!
# Chunks and reads

Where the chunks of a file are cut is decided by what `read` returns.

* `Delivers` : a sequence of answers that gives the content of a file in order;
* `ExactChunks` : every chunk of an artifact but its last has the chunk size;
* `exactChunks_captures` : the chunks are exact when the reads are full;
* `chunking_iff` : two deliveries of the same files give the same exact records when all reads of
  both but the last of a file are full, and only then.
-/

namespace GetBibleSword.Tool
open GetBibleSword.Lib
open GetBibleSword.Core

/-! ## Values and their texts -/

theorem decimal_inj {m n : Nat} (h : decimal m = decimal n) : m = n := by
  have htext := congrArg latin1 h
  rw [latin1_decimal, latin1_decimal] at htext
  have := congrArg digitsValue htext
  rwa [digitsValue_decimalText, digitsValue_decimalText] at this

theorem byteValueJson_inj {a b : Bytes} (h : byteValueJson a = byteValueJson b) : a = b := by
  have hdict : (Except.ok (.obj (byteValueDict a)) : Except Message Json) = .ok (.obj (byteValueDict b)) := by
    rw [← parseJson_byteValueJson, ← parseJson_byteValueJson, h]
  injection hdict with hobj
  have ha : decodeByteValue (.obj (byteValueDict a)) [] 0 = .ok a :=
    decodeByteValue_eq_ok.mpr ⟨_, rfl, isByteValue_dict a⟩
  have hb : decodeByteValue (.obj (byteValueDict b)) [] 0 = .ok b :=
    decodeByteValue_eq_ok.mpr ⟨_, rfl, isByteValue_dict b⟩
  rw [hobj, hb] at ha
  injection ha with ha
  exact ha.symm

theorem find_fieldsOf {fields : List (Bytes × Bytes)} (h : (fields.map Prod.fst).Nodup) {k a : Bytes} :
    (fieldsOf fields).find k = some a ↔ (k, a) ∈ fields := by
  rw [fieldsOf, OrdMap.find_emplaceAll fields h (by simp)]
  simp

theorem chunkFields_names (artifactId index : Nat) (chunk : Bytes) :
    (chunkFields artifactId index chunk).find (ascii "artifact_id") = some (decimal artifactId) ∧
    (chunkFields artifactId index chunk).find (ascii "data") = some (byteValueJson chunk) := by
  have hnames : ([(ascii "artifact_id", decimal artifactId), (ascii "data", byteValueJson chunk),
      (ascii "index", decimal index)].map Prod.fst).Nodup := by
    show [ascii "artifact_id", ascii "data", ascii "index"].Nodup
    decide
  unfold chunkFields
  exact ⟨(find_fieldsOf hnames).mpr (by simp), (find_fieldsOf hnames).mpr (by simp)⟩

/-! ## Deliveries -/

/-- Chunks of at most `chunkSize` octets of which only the last may be shorter. -/
def Full (chunkSize : Nat) (chunks : List Bytes) : Prop :=
  ∀ chunk ∈ chunks.dropLast, chunk.length = chunkSize

/-- The answers give `content` in order to a buffer of `chunkSize` octets: positive counts and
interrupted calls. -/
structure Delivers (chunkSize : Nat) (content : Bytes) (reads : List ReadResult) : Prop where
  answers : ∀ answer ∈ reads, (∃ error, answer = .fail error ∧ error.code = interruptedCall) ∨
    ∃ chunk, answer = .data chunk ∧ chunk ≠ [] ∧ chunk.length ≤ chunkSize
  content : (delivered reads).flatten = content

/-- The calls on one candidate in two runs: the same answers, and the same content read. -/
structure SameFile (chunkSize : Nat) (a b : ArtifactCandidate × Inspection) : Prop where
  candidate : a.1 = b.1
  lstat : a.2.lstat = b.2.lstat
  readlink : a.2.readlink = b.2.readlink
  open_ : a.2.open_ = b.2.open_
  opened : a.2.opened = b.2.opened
  after : a.2.after = b.2.after
  delivers : ∃ content, Delivers chunkSize content a.2.reads ∧ Delivers chunkSize content b.2.reads

/-- The candidate is a regular file whose descriptor passes the checks in front of the loop. -/
def Reached (answers : Inspection) : Prop :=
  ∃ metadata opened, answers.lstat = .ok metadata ∧ metadata.isDirectory = false ∧
    metadata.isLink = false ∧ metadata.isRegular = true ∧ answers.open_ = .ok () ∧
    answers.opened = .ok opened ∧ sameFileState metadata opened = true

def isChunk (record : Bytes × JsonFields) : Bool := record.1 = ascii "artifact_chunk"

/-- Every chunk that is not the last of its artifact has the chunk size. -/
def ExactChunks (chunkSize : Nat) (records : List (Bytes × JsonFields)) : Prop :=
  (records.filter isChunk).Pairwise fun record later =>
    record.2.find (ascii "artifact_id") = later.2.find (ascii "artifact_id") →
    ∃ data, record.2.find (ascii "data") = some (byteValueJson data) ∧ data.length = chunkSize

section Delivers
variable {chunkSize : Nat} {content : Bytes} {reads : List ReadResult}

theorem Delivers.chunks (h : Delivers chunkSize content reads) :
    (∀ chunk ∈ delivered reads, chunk ≠ [] ∧ chunk.length ≤ chunkSize) ∧ readError reads = none := by
  obtain ⟨h, -⟩ := h
  induction reads with
  | nil => simp [delivered, readError]
  | cons answer reads ih =>
    have hrest := ih fun a ha => h a (List.mem_cons_of_mem _ ha)
    obtain ⟨error, rfl, hcode⟩ | ⟨chunk, rfl, hne, hle⟩ := h answer List.mem_cons_self
    · rw [delivered, readError, if_pos hcode, if_pos hcode]
      exact hrest
    · rw [delivered, readError, if_neg hne, if_neg hne]
      refine ⟨fun c hc => ?_, hrest.2⟩
      rcases List.mem_cons.mp hc with rfl | hc
      · exact ⟨hne, hle⟩
      · exact hrest.1 c hc

/-- Full chunks of one content are cut at the same places. -/
theorem chunks_unique (xs : List Bytes) : ∀ {ys : List Bytes}, Full chunkSize xs → Full chunkSize ys →
    (∀ chunk ∈ xs, chunk ≠ [] ∧ chunk.length ≤ chunkSize) →
    (∀ chunk ∈ ys, chunk ≠ [] ∧ chunk.length ≤ chunkSize) → xs.flatten = ys.flatten → xs = ys := by
  have hfirst : ∀ {x y : Bytes} {xs ys : List Bytes}, Full chunkSize (x :: xs) →
      (∀ chunk ∈ x :: xs, chunk ≠ [] ∧ chunk.length ≤ chunkSize) → y.length ≤ chunkSize →
      (x :: xs).flatten = (y :: ys).flatten → y.length ≤ x.length := by
    intro x y xs ys hfull hchunks hy hflat
    cases xs with
    | nil =>
      have := congrArg List.length hflat
      simp only [List.flatten_cons, List.flatten_nil, List.length_append, List.length_nil] at this
      omega
    | cons x' xs =>
      have := hfull x (by simp)
      omega
  induction xs with
  | nil =>
    intro ys _ _ _ hys hflat
    cases ys with
    | nil => rfl
    | cons y ys =>
      have := (hys y List.mem_cons_self).1
      simp [this] at hflat
  | cons x xs ih =>
    intro ys hfull hfull' hxs hys hflat
    cases ys with
    | nil =>
      have := (hxs x List.mem_cons_self).1
      simp [this] at hflat
    | cons y ys =>
      have hle := hfirst hfull hxs (hys y List.mem_cons_self).2 hflat
      have hge := hfirst hfull' hys (hxs x List.mem_cons_self).2 hflat.symm
      obtain ⟨rfl, hrest⟩ := List.append_inj (by simpa using hflat) (Nat.le_antisymm hge hle)
      have hdrop : ∀ {z : Bytes} {zs : List Bytes}, Full chunkSize (z :: zs) → Full chunkSize zs := by
        intro z zs h chunk hc
        cases zs with
        | nil => cases hc
        | cons z' zs => exact h chunk (List.mem_cons_of_mem _ hc)
      rw [ih (hdrop hfull) (hdrop hfull') (fun c hc => hxs c (List.mem_cons_of_mem _ hc))
        (fun c hc => hys c (List.mem_cons_of_mem _ hc)) hrest]

end Delivers

/-! ## Exact chunks -/

section Exact
variable {chunkSize : Nat}

theorem chunkRecords_id (artifactId : Nat) (chunks : List Bytes) : ∀ index : Nat,
    ∀ record ∈ chunkRecords artifactId index chunks,
      record.2.find (ascii "artifact_id") = some (decimal artifactId) := by
  induction chunks with
  | nil => intro index record h; cases h
  | cons chunk chunks ih =>
    intro index record h
    rcases List.mem_cons.mp h with rfl | h
    · exact (chunkFields_names artifactId index chunk).1
    · exact ih (index + 1) record h

theorem exactChunks_chunkRecords (artifactId : Nat) (chunks : List Bytes) : ∀ index : Nat,
    (chunkRecords artifactId index chunks).Pairwise (fun record later =>
      record.2.find (ascii "artifact_id") = later.2.find (ascii "artifact_id") →
      ∃ data, record.2.find (ascii "data") = some (byteValueJson data) ∧ data.length = chunkSize) ↔
      Full chunkSize chunks := by
  induction chunks with
  | nil => simp [chunkRecords, Full]
  | cons chunk chunks ih =>
    intro index
    have hfirst := chunkFields_names artifactId index chunk
    rw [chunkRecords, List.pairwise_cons, ih (index + 1)]
    cases chunks with
    | nil => simp [chunkRecords, Full]
    | cons next chunks =>
      have hfull : Full chunkSize (chunk :: next :: chunks) ↔
          chunk.length = chunkSize ∧ Full chunkSize (next :: chunks) := by
        simp [Full]
      rw [hfull]
      refine and_congr_left fun _ => ⟨fun h => ?_, fun hsize later hlater hid => ?_⟩
      · have hnext := chunkFields_names artifactId (index + 1) next
        obtain ⟨data, hdata, hsize⟩ := h (Purpose.artifactChunk.type, chunkFields artifactId (index + 1) next)
          List.mem_cons_self (hfirst.1.trans hnext.1.symm)
        rw [hfirst.2, Option.some.injEq] at hdata
        rwa [byteValueJson_inj hdata]
      · exact ⟨chunk, hfirst.2, hsize⟩

/-- The records of one candidate that are chunks. -/
theorem capture_chunks (candidate : ArtifactCandidate) (answers : Inspection) (artifactId : Nat) :
    (Reached answers → (capture candidate answers artifactId).counted = true ∧
      (capture candidate answers artifactId).records.filter isChunk =
        chunkRecords artifactId 0 (delivered answers.reads)) ∧
    (¬ Reached answers → (capture candidate answers artifactId).records.filter isChunk = []) := by
  have hall : ∀ (chunks : List Bytes) (index : Nat),
      (chunkRecords artifactId index chunks).filter isChunk = chunkRecords artifactId index chunks := by
    intro chunks index
    rw [List.filter_eq_self]
    induction chunks generalizing index with
    | nil => intro record h; cases h
    | cons chunk chunks ih =>
      intro record h
      rcases List.mem_cons.mp h with rfl | h
      · rfl
      · exact ih (index + 1) record h
  have hgroup : ∀ (begin ending : JsonFields) (chunks : List (Bytes × JsonFields)) (bytes : Nat)
      (diagnostics : List Diagnostic),
      (Capture.group begin chunks ending bytes diagnostics).records.filter isChunk =
        chunks.filter isChunk := by
    intro begin ending chunks bytes diagnostics
    have hbegin : isChunk (Purpose.artifactBegin.type, begin) = false := rfl
    have hend : isChunk (Purpose.artifactEnd.type, ending) = false := rfl
    rw [Capture.group, List.filter_cons_of_neg (by simp [hbegin]), List.filter_append,
      List.filter_cons_of_neg (by simp [hend]), List.filter_nil, List.append_nil]
  constructor
  · intro hreached
    obtain ⟨metadata, opened, hlstat, hdirectory, hlink, hregular, hopen, hopened, hstate⟩ := hreached
    unfold capture captureRegular
    rw [hlstat, hopen, hopened]
    simp only [hdirectory, hlink, hregular, hstate, if_true, Bool.false_eq_true, if_false]
    rw [captureContent, hgroup, hall]
    exact ⟨rfl, rfl⟩
  · intro hreached
    unfold capture
    split
    · rfl
    rename_i metadata hlstat
    split_ifs with hdirectory hlink hregular
    · rw [captureDirectory, hgroup]
      rfl
    · unfold captureSymlink
      split
      · rfl
      · rw [hgroup]
        rfl
    · unfold captureRegular
      split
      · rfl
      rename_i hopen
      split
      · rfl
      rename_i opened hopened
      split_ifs with hstate
      · refine absurd ⟨metadata, opened, hlstat, ?_, ?_, hregular, hopen, hopened, hstate⟩ hreached
        · exact Bool.eq_false_iff.mpr hdirectory
        · exact Bool.eq_false_iff.mpr hlink
      · rfl
    · rfl

/-- The chunks written are exact when every file that is read is read in full chunks. -/
theorem exactChunks_captures (candidates : List (ArtifactCandidate × Inspection)) : ∀ artifactId : Nat,
    (∀ record ∈ ((captures candidates artifactId).flatMap Capture.records).filter isChunk,
      ∃ n, artifactId ≤ n ∧ record.2.find (ascii "artifact_id") = some (decimal n)) ∧
    (ExactChunks chunkSize ((captures candidates artifactId).flatMap Capture.records) ↔
      ∀ p ∈ candidates, Reached p.2 → Full chunkSize (delivered p.2.reads)) := by
  induction candidates with
  | nil => intro artifactId; simp [captures, ExactChunks]
  | cons first rest ih =>
    intro artifactId
    have hcapture := capture_chunks first.1 first.2 artifactId
    rw [captures, List.flatMap_cons, ExactChunks, List.filter_append, List.pairwise_append,
      List.forall_mem_cons]
    by_cases hreached : Reached first.2
    · obtain ⟨hcounted, hrecords⟩ := hcapture.1 hreached
      rw [hcounted, if_pos rfl, hrecords, exactChunks_chunkRecords]
      obtain ⟨hids, hexact⟩ := ih (artifactId + 1)
      have hmember := chunkRecords_id artifactId (delivered first.2.reads) 0
      constructor
      · intro record h
        rcases List.mem_append.mp h with h | h
        · exact ⟨artifactId, Nat.le_refl _, hmember record h⟩
        · obtain ⟨n, hn, hid⟩ := hids record h
          exact ⟨n, by omega, hid⟩
      · rw [← hexact, ExactChunks]
        refine ⟨fun h => ⟨fun _ => h.1, h.2.1⟩, fun h => ⟨h.1 hreached, h.2, ?_⟩⟩
        -- records of two artifacts have two ids
        intro record hrecord later hlater hid
        obtain ⟨n, hn, hlaterId⟩ := hids later hlater
        rw [hmember record hrecord, hlaterId, Option.some.injEq] at hid
        have := decimal_inj hid
        omega
    · rw [hcapture.2 hreached, List.nil_append]
      obtain ⟨hids, hexact⟩ := ih (if (capture first.1 first.2 artifactId).counted = true
        then artifactId + 1 else artifactId)
      constructor
      · intro record h
        obtain ⟨n, hn, hid⟩ := hids record h
        refine ⟨n, ?_, hid⟩
        split_ifs at hn <;> omega
      · rw [← hexact, ExactChunks]
        refine ⟨fun h => ⟨fun hr => absurd hr hreached, h.2.1⟩, fun h => ⟨List.Pairwise.nil, h.2, ?_⟩⟩
        intro record hrecord
        cases hrecord

theorem exactChunks_append_diagnostics {records : List (Bytes × JsonFields)} (values : List Diagnostic) :
    ExactChunks chunkSize (records ++ diagnosticRecords values) ↔ ExactChunks chunkSize records := by
  have hnone : (diagnosticRecords values).filter isChunk = [] := by
    rw [List.filter_eq_nil_iff]
    intro record h
    obtain ⟨value, -, rfl⟩ := List.mem_map.mp h
    show ¬ decide (ascii "diagnostic" = ascii "artifact_chunk") = true
    decide
  rw [ExactChunks, List.filter_append, hnone, List.append_nil, ExactChunks]

end Exact

/-! ## Two deliveries -/

/-- Both runs write the same records, and these have exact chunks. -/
def SameRecords (chunkSize : Nat) (first second : List (ArtifactCandidate × Inspection)) (s : Session) :
    Prop :=
  ∃ result result' t t' records,
    emitArtifacts noFaults first chunkSize s = .ok result t ∧
    emitArtifacts noFaults second chunkSize s = .ok result' t' ∧
    t.writer.output.written = t'.writer.output.written ∧
    t.emitted = s.emitted ++ records ∧ t'.emitted = s.emitted ++ records ∧
    ExactChunks chunkSize records

theorem capture_congr {chunkSize : Nat} {a b : ArtifactCandidate × Inspection} (h : SameFile chunkSize a b)
    (hchunks : Reached a.2 → delivered a.2.reads = delivered b.2.reads) (artifactId : Nat) :
    capture a.1 a.2 artifactId = capture b.1 b.2 artifactId := by
  obtain ⟨content, hfirst, hsecond⟩ := h.delivers
  unfold capture
  rw [h.candidate, h.lstat]
  split
  · rfl
  rename_i metadata hlstat
  split_ifs with hdirectory hlink hregular
  · rfl
  · rw [captureSymlink, captureSymlink, h.readlink]
  · unfold captureRegular
    rw [h.open_, h.opened]
    split
    · rfl
    rename_i hopen
    split
    · rfl
    rename_i opened hopened
    split_ifs with hstate
    · have hreached : Reached a.2 :=
        ⟨metadata, opened, h.lstat.trans hlstat, Bool.eq_false_iff.mpr hdirectory,
          Bool.eq_false_iff.mpr hlink, hregular, h.open_.trans hopen, h.opened.trans hopened, hstate⟩
      rw [captureContent, captureContent, hchunks hreached, hfirst.chunks.2, hsecond.chunks.2, h.after]
    · rfl
  · rfl

theorem captures_congr {chunkSize : Nat} {first second : List (ArtifactCandidate × Inspection)}
    (h : List.Forall₂ (SameFile chunkSize) first second)
    (hfull : ∀ p ∈ first ++ second, Reached p.2 → Full chunkSize (delivered p.2.reads)) :
    ∀ artifactId : Nat, captures first artifactId = captures second artifactId := by
  induction h with
  | nil => intro artifactId; rfl
  | @cons a b first second hab _ ih =>
    intro artifactId
    have hreached : Reached a.2 → Reached b.2 := by
      rintro ⟨metadata, opened, hlstat, hdirectory, hlink, hregular, hopen, hopened, hstate⟩
      exact ⟨metadata, opened, hab.lstat ▸ hlstat, hdirectory, hlink, hregular, hab.open_ ▸ hopen,
        hab.opened ▸ hopened, hstate⟩
    have hcapture : capture a.1 a.2 artifactId = capture b.1 b.2 artifactId := by
      apply capture_congr hab
      intro hr
      obtain ⟨content, hfirst, hsecond⟩ := hab.delivers
      apply chunks_unique
      · exact hfull a (by simp) hr
      · exact hfull b (by simp) (hreached hr)
      · exact hfirst.chunks.1
      · exact hsecond.chunks.1
      · exact hfirst.content.trans hsecond.content.symm
    have hrest := ih fun p hp => hfull p (by
      rcases List.mem_append.mp hp with hp | hp
      · exact List.mem_append_left _ (List.mem_cons_of_mem _ hp)
      · exact List.mem_append_right _ (List.mem_cons_of_mem _ hp))
    rw [captures, captures, hcapture, hrest]

section Runs
variable {chunkSize : Nat} {first second : List (ArtifactCandidate × Inspection)} {s : Session}

/-- What `SameRecords` says of the captures. -/
theorem sameRecords_iff_captures (hsize : 0 < chunkSize ∧ chunkSize ≤ ssizeMax) (hs : s.Open) :
    SameRecords chunkSize first second s ↔
      (captures first 0).flatMap Capture.records ++
          diagnosticRecords ((captures first 0).flatMap Capture.diagnostics) =
        (captures second 0).flatMap Capture.records ++
          diagnosticRecords ((captures second 0).flatMap Capture.diagnostics) ∧
      ExactChunks chunkSize ((captures first 0).flatMap Capture.records) := by
  obtain ⟨t, hrun, hran⟩ := emitArtifacts_noFaults first ⟨Nat.ne_of_gt hsize.1, hsize.2⟩ hs
  obtain ⟨t', hrun', hran'⟩ := emitArtifacts_noFaults second ⟨Nat.ne_of_gt hsize.1, hsize.2⟩ hs
  constructor
  · intro h
    obtain ⟨result, result', u, u', records, hu, hu', -, hemitted, hemitted', hexact⟩ := h
    rw [hrun] at hu
    rw [hrun'] at hu'
    cases hu
    cases hu'
    rw [hran.emitted, List.append_cancel_left_eq] at hemitted
    rw [hran'.emitted, List.append_cancel_left_eq] at hemitted'
    rw [← hemitted, exactChunks_append_diagnostics] at hexact
    exact ⟨hemitted.trans hemitted'.symm, hexact⟩
  · intro h
    refine ⟨_, _, t, t', _, hrun, hrun', ?_, hran.emitted, ?_, ?_⟩
    · rw [hran.writer, hran'.writer, h.1]
    · rw [hran'.emitted, h.1]
    · exact exactChunks_append_diagnostics _ |>.mpr h.2

/-- Two deliveries of the same files give the same records, with exact chunks, exactly when in both
every read of a file but its last fills the buffer. -/
theorem chunking_iff (hsize : 0 < chunkSize ∧ chunkSize ≤ ssizeMax) (hs : s.Open)
    (hsame : List.Forall₂ (SameFile chunkSize) first second) :
    SameRecords chunkSize first second s ↔
      ∀ p ∈ first ++ second, Reached p.2 → Full chunkSize (delivered p.2.reads) := by
  rw [sameRecords_iff_captures hsize hs]
  constructor
  · intro h p hp
    obtain ⟨hrecords, hexact⟩ := h
    have hexact' : ExactChunks chunkSize ((captures second 0).flatMap Capture.records) := by
      rw [← exactChunks_append_diagnostics ((captures second 0).flatMap Capture.diagnostics), ← hrecords,
        exactChunks_append_diagnostics]
      exact hexact
    rcases List.mem_append.mp hp with hp | hp
    · exact (exactChunks_captures first 0).2.mp hexact p hp
    · exact (exactChunks_captures second 0).2.mp hexact' p hp
  · intro hfull
    rw [captures_congr hsame hfull 0]
    refine ⟨rfl, (exactChunks_captures second 0).2.mpr fun p hp => ?_⟩
    exact hfull p (List.mem_append_right _ hp)

end Runs

/-! ## A file of two octets -/

/-- A regular file of two octets, by what `read` answers. -/
def twoOctets (reads : List ReadResult) : ArtifactCandidate × Inspection :=
  let state : FileState := ⟨1, 1, 0o100644, 2, ⟨0, 0⟩, ⟨0, 0⟩⟩
  (⟨ascii "/sword/f", ascii "f", ascii "module_data"⟩,
    { lstat := .ok state
      readlink := .error ⟨22, ascii "Invalid argument"⟩
      open_ := .ok ()
      opened := .ok state
      reads := reads
      after := .ok state })

def wholeRead : List ReadResult := [.data (ascii "ab")]

/-- The same octets one by one, with an interrupted call between them. -/
def splitRead : List ReadResult :=
  [.data (ascii "a"), .fail ⟨interruptedCall, ascii "Interrupted system call"⟩, .data (ascii "b")]

/-- A session on a stream without limits. -/
def freshSession : Session := ⟨.new ⟨[], none, true, true⟩, 0, []⟩

theorem freshSession_open : freshSession.Open := ⟨⟨rfl, rfl, rfl⟩, rfl⟩

theorem sameFile_twoOctets :
    List.Forall₂ (SameFile 4096) [twoOctets splitRead] [twoOctets wholeRead] := by
  have hwhole : Delivers 4096 (ascii "ab") wholeRead := by
    refine ⟨fun answer h => .inr ⟨ascii "ab", ?_, by decide, by decide⟩, rfl⟩
    exact List.mem_singleton.mp h
  have hsplit : Delivers 4096 (ascii "ab") splitRead := by
    refine ⟨fun answer h => ?_, rfl⟩
    simp only [splitRead, List.mem_cons, List.not_mem_nil, or_false] at h
    rcases h with rfl | rfl | rfl
    · exact .inr ⟨_, rfl, by decide, by decide⟩
    · exact .inl ⟨_, rfl, rfl⟩
    · exact .inr ⟨_, rfl, by decide, by decide⟩
  exact .cons ⟨rfl, rfl, rfl, rfl, rfl, rfl, _, hsplit, hwhole⟩ .nil

theorem chunking_iff_twoOctets :
    SameRecords 4096 [twoOctets splitRead] [twoOctets wholeRead] freshSession ↔
      ∀ p ∈ [twoOctets splitRead] ++ [twoOctets wholeRead],
        Reached p.2 → Full 4096 (delivered p.2.reads) :=
  chunking_iff (by decide) freshSession_open sameFile_twoOctets

/-- Two short reads and one read of the same octets give different records. -/
theorem splitRead_not_same :
    List.Forall₂ (SameFile 4096) [twoOctets splitRead] [twoOctets wholeRead] ∧
      ¬ SameRecords 4096 [twoOctets splitRead] [twoOctets wholeRead] freshSession := by
  refine ⟨sameFile_twoOctets, fun h => ?_⟩
  have hexact := ((sameRecords_iff_captures (by decide) freshSession_open).mp h).2
  have hreached : Reached (twoOctets splitRead).2 :=
    ⟨_, _, rfl, by decide, by decide, by decide, rfl, rfl, by decide⟩
  have hfull := (exactChunks_captures [twoOctets splitRead] 0).2.mp hexact _ (by simp) hreached
  have := hfull (ascii "a") (by decide)
  revert this
  decide

end GetBibleSword.Tool
