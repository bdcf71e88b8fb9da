import GetBibleSword.Core.ArtifactGroups
import GetBibleSword.Tool.Chunking

/-!
# Lossless or flagged

What the group of an artifact says about the file, when no diagnostic says otherwise.

* `ReadsToEnd reads content` : the answers up to the end of the file, and what they hold;
* `Lossless answers c` : without a diagnostic the group is the whole object, and `stable` keeps its word;
* `Truthful answers` : the sizes `lstat` gives are those of what is read;
* `lossless_capture_iff` : for each candidate of a call, the one exactly when the other.

`emit_artifacts` sizes the buffer of `readlink` by `st_size` and does not look whether it is full, and
compares what it has read with no size.
-/

namespace GetBibleSword.Tool
open GetBibleSword.Lib
open GetBibleSword.Core

/-- Up to the answer of no octets, interrupted calls aside. -/
inductive ReadsToEnd : List ReadResult → Bytes → Prop
  | done : ReadsToEnd [] []
  | ended (reads : List ReadResult) : ReadsToEnd (.data [] :: reads) []
  | interrupted {error : SystemError} {reads : List ReadResult} {content : Bytes}
      (hcode : error.code = interruptedCall) (h : ReadsToEnd reads content) :
      ReadsToEnd (.fail error :: reads) content
  | data {chunk : Bytes} {reads : List ReadResult} {content : Bytes} (hchunk : chunk ≠ [])
      (h : ReadsToEnd reads content) : ReadsToEnd (.data chunk :: reads) (chunk ++ content)

theorem ReadsToEnd.eq {reads : List ReadResult} {content : Bytes} (h : ReadsToEnd reads content) :
    readError reads = none ∧ content = (delivered reads).flatten := by
  induction h with
  | done => exact ⟨rfl, rfl⟩
  | ended reads => exact ⟨by rw [readError, if_pos rfl], by rw [delivered, if_pos rfl]; rfl⟩
  | interrupted hcode _ ih =>
    rw [readError, delivered, if_pos hcode, if_pos hcode]
    exact ih
  | data hchunk _ ih =>
    rw [readError, delivered, if_neg hchunk, if_neg hchunk, List.flatten_cons, ← ih.2]
    exact ⟨ih.1, rfl⟩

theorem readsToEnd_delivered {reads : List ReadResult} (h : readError reads = none) :
    ReadsToEnd reads (delivered reads).flatten := by
  induction reads with
  | nil => exact .done
  | cons answer reads ih =>
    cases answer with
    | fail error =>
      rw [readError] at h
      rw [delivered]
      split_ifs at h ⊢ with hcode
      exact .interrupted hcode (ih h)
    | data chunk =>
      rw [readError] at h
      rw [delivered]
      split_ifs at h ⊢ with hchunk
      · rw [hchunk]
        exact .ended reads
      · exact .data hchunk (ih h)

/-! ## What is asked -/

/-- A group that is the whole object: a directory, the complete target, or everything up to the end of the
file that was inspected, and then `stable` only with the size that was expected. -/
inductive Whole (answers : Inspection) (artifactId : Nat) (g : ArtifactGroup) : Prop
  | directory {metadata : FileState} (hkind : g.IsDirectory) (hlstat : answers.lstat = .ok metadata)
      (htype : metadata.isDirectory = true)
  | symlink (hkind : g.IsSymlink) (hlink : answers.readlink = .ok g.content)
  | regular {metadata opened : FileState} (data : List Bytes)
      (hkind : g.begin.find (ascii "file_type") = some (ascii "\"regular\""))
      (hchunks : g.chunks = data.mapIdx (chunkFields artifactId))
      (hdata : ReadsToEnd answers.reads data.flatten)
      (hlstat : answers.lstat = .ok metadata) (hopened : answers.opened = .ok opened)
      (hsame : opened.dev = metadata.dev ∧ opened.ino = metadata.ino)
      (hstable : g.ending.find (ascii "stable") = some (ascii "true") →
        g.ending.find (ascii "size") = g.begin.find (ascii "size_expected"))

/-- A group without a diagnostic is whole. -/
def Lossless (answers : Inspection) (artifactId : Nat) (c : Capture) : Prop :=
  c.diagnostics = [] → ∃ g : ArtifactGroup, c.records = g.records ∧ Whole answers artifactId g

/-- The target is no longer than the size of the link, but for the one octet its buffer has more; a file that
stays the same holds as many octets as its size says. -/
structure Truthful (answers : Inspection) : Prop where
  symlink : ∀ metadata target, answers.lstat = .ok metadata → metadata.isDirectory = false →
    metadata.isLink = true → answers.readlink = .ok target → target.length ≤ metadata.size + 1
  regular : ∀ metadata opened content, answers.lstat = .ok metadata → metadata.isDirectory = false →
    metadata.isLink = false → metadata.isRegular = true → answers.open_ = .ok () →
    answers.opened = .ok opened → sameFileState metadata opened = true →
    ReadsToEnd answers.reads content → unchanged opened answers.after = true → content.length = metadata.size

/-! ## One candidate -/

theorem records_inj {g h : ArtifactGroup} (heq : g.records = h.records) :
    g.begin = h.begin ∧ g.ending = h.ending := by
  obtain ⟨hbegin, hrest⟩ := List.cons.inj heq
  obtain ⟨-, hending⟩ := List.append_inj' hrest rfl
  exact ⟨(Prod.mk.inj hbegin).2, (Prod.mk.inj (List.cons.inj hending).1).2⟩

theorem sameFileState_identity {before after : FileState} (h : sameFileState before after = true) :
    after.dev = before.dev ∧ after.ino = before.ino := by
  unfold sameFileState at h
  simp only [Bool.and_eq_true, decide_eq_true_eq] at h
  exact ⟨h.1.1.1.1.1.1.1.symm, h.1.1.1.1.1.1.2.symm⟩

section One
variable (candidate : ArtifactCandidate) {answers : Inspection} {metadata : FileState} (artifactId : Nat)

theorem lossless_failure (value : Diagnostic) : Lossless answers artifactId (.failure value) := nofun

theorem lossless_directory (hlstat : answers.lstat = .ok metadata) (htype : metadata.isDirectory = true) :
    Lossless answers artifactId (captureDirectory candidate metadata artifactId) := by
  intro _
  refine ⟨directoryGroup candidate artifactId metadata.mode, rfl, .directory ?_ hlstat htype⟩
  exact ⟨find_beginFields candidate artifactId metadata.mode (by decide) (by simp [directoryFields]), rfl, rfl⟩

theorem begin_symlink (mode : Nat) (target : Bytes) :
    (candidate.beginFields artifactId mode (symlinkFields target)).find (ascii "file_type") =
        some (ascii "\"symlink\"") ∧
      (candidate.beginFields artifactId mode (symlinkFields target)).find (ascii "target") =
        some (byteValueJson target) := by
  have hnodup : ([ascii "artifact_id", ascii "mode", ascii "path", ascii "role"] ++
      (symlinkFields target).map Prod.fst).Nodup := by
    show [ascii "artifact_id", ascii "mode", ascii "path", ascii "role", ascii "file_type", ascii "target"].Nodup
    decide
  exact ⟨find_beginFields candidate artifactId mode hnodup (by simp [symlinkFields]),
    find_beginFields candidate artifactId mode hnodup (by simp [symlinkFields])⟩

theorem begin_regular (mode size : Nat) :
    (candidate.beginFields artifactId mode (regularFields size)).find (ascii "file_type") =
        some (ascii "\"regular\"") ∧
      (candidate.beginFields artifactId mode (regularFields size)).find (ascii "size_expected") =
        some (decimal size) := by
  have hnodup : ([ascii "artifact_id", ascii "mode", ascii "path", ascii "role"] ++
      (regularFields size).map Prod.fst).Nodup := by
    show [ascii "artifact_id", ascii "mode", ascii "path", ascii "role", ascii "file_type",
      ascii "size_expected"].Nodup
    decide
  exact ⟨find_beginFields candidate artifactId mode hnodup (by simp [regularFields]),
    find_beginFields candidate artifactId mode hnodup (by simp [regularFields])⟩

/-- A link is whole exactly when its buffer takes the target. -/
theorem lossless_symlink_iff (metadata : FileState) {target : Bytes} (hlink : answers.readlink = .ok target) :
    Lossless answers artifactId (captureSymlink candidate answers metadata artifactId) ↔
      target.length ≤ metadata.size + 1 := by
  have hcapture : captureSymlink candidate answers metadata artifactId =
      Capture.group (candidate.beginFields artifactId metadata.mode (symlinkFields (target.take (metadata.size + 1))))
        [] (fieldsOf (endFields artifactId (target.take (metadata.size + 1)).length
          (sha256Hex (target.take (metadata.size + 1))))) (target.take (metadata.size + 1)).length [] := by
    unfold captureSymlink
    rw [hlink]
  obtain ⟨htype, htarget⟩ := begin_symlink candidate artifactId metadata.mode (target.take (metadata.size + 1))
  rw [hcapture]
  constructor
  · intro h
    obtain ⟨g, hrecords, hwhole⟩ := h rfl
    have hsame := records_inj (g := symlinkGroup candidate artifactId metadata.mode
      (target.take (metadata.size + 1))) hrecords
    have hbegin : candidate.beginFields artifactId metadata.mode
        (symlinkFields (target.take (metadata.size + 1))) = g.begin := hsame.1
    rw [hbegin] at htype htarget
    cases hwhole with
    | directory hkind => exact absurd (htype.symm.trans hkind.1) (by decide)
    | regular _ hkind => exact absurd (htype.symm.trans hkind) (by decide)
    | symlink hkind hread =>
      have hcontent : g.content = target.take (metadata.size + 1) :=
        byteValueJson_inj (Option.some.inj (hkind.2.2.symm.trans htarget))
      have hall : target = target.take (metadata.size + 1) := by
        rw [← hcontent]
        exact Except.ok.inj (hlink.symm.trans hread)
      rw [hall, List.length_take]
      exact Nat.min_le_left _ _
  · intro hle _
    refine ⟨symlinkGroup candidate artifactId metadata.mode (target.take (metadata.size + 1)), rfl,
      .symlink ⟨htype, rfl, htarget⟩ ?_⟩
    rw [hlink]
    exact congrArg Except.ok (List.take_of_length_le hle).symm

/-- A file is whole exactly when no more and no less is read than its size says, or its group is flagged. -/
theorem lossless_content_iff {opened : FileState} (hlstat : answers.lstat = .ok metadata)
    (hopened : answers.opened = .ok opened) (hsame : sameFileState metadata opened = true) :
    Lossless answers artifactId (captureContent candidate answers metadata opened artifactId) ↔
      ∀ content, ReadsToEnd answers.reads content → unchanged opened answers.after = true →
        content.length = metadata.size := by
  obtain ⟨htype, hexpected⟩ := begin_regular candidate artifactId metadata.mode metadata.size
  have hquiet : (captureContent candidate answers metadata opened artifactId).diagnostics = [] ↔
      readError answers.reads = none ∧ unchanged opened answers.after = true := by
    show (readError answers.reads).toList.map candidate.readFailed ++
      (if unchanged opened answers.after then [] else [candidate.changedDuringRead]) = [] ↔ _
    rw [List.append_eq_nil_iff, List.map_eq_nil_iff, Option.toList_eq_nil_iff]
    split_ifs with h <;> simp [h]
  have hrecords := captureContent_records candidate metadata artifactId answers opened
  obtain ⟨-, hsize, -, hstable⟩ := find_stableFields artifactId (delivered answers.reads).flatten
    (unchanged opened answers.after && (readError answers.reads).isNone)
  constructor
  · intro h content hcontent hafter
    obtain ⟨herror, rfl⟩ := hcontent.eq
    obtain ⟨g, hg, hwhole⟩ := h (hquiet.mpr ⟨herror, hafter⟩)
    obtain ⟨hbegin, hending⟩ := records_inj (hrecords.symm.trans hg)
    rw [show candidate.beginFields artifactId metadata.mode (regularFields metadata.size) = g.begin from hbegin]
      at htype hexpected
    rw [show fieldsOf _ = g.ending from hending] at hsize hstable
    rw [herror, hafter] at hstable
    cases hwhole with
    | directory hkind => exact absurd (htype.symm.trans hkind.1) (by decide)
    | symlink hkind => exact absurd (htype.symm.trans hkind.1) (by decide)
    | regular _ _ _ _ _ _ _ hword =>
      have hequal := hword hstable
      rw [hsize, hexpected] at hequal
      exact decimal_inj (Option.some.inj hequal)
  · intro h hnone
    obtain ⟨herror, hafter⟩ := hquiet.mp hnone
    refine ⟨_, hrecords,
      .regular (delivered answers.reads) htype rfl (readsToEnd_delivered herror) hlstat
      hopened (sameFileState_identity hsame) fun _ => ?_⟩
    show (fieldsOf _).find (ascii "size") = (candidate.beginFields artifactId metadata.mode _).find _
    rw [hexpected, ← h _ (readsToEnd_delivered herror) hafter]
    exact hsize

/-- The capture of a candidate is lossless or flagged exactly when the sizes are true. -/
theorem lossless_iff_truthful : Lossless answers artifactId (capture candidate answers artifactId) ↔
    Truthful answers := by
  unfold capture
  cases hlstat : answers.lstat with
  | error error =>
    refine iff_of_true (lossless_failure artifactId _) ⟨?_, ?_⟩
    · intro metadata target h
      rw [hlstat] at h
      cases h
    · intro metadata opened content h
      rw [hlstat] at h
      cases h
  | ok metadata =>
    have hmeta : ∀ {m : FileState}, answers.lstat = .ok m → m = metadata := by
      intro m h
      rw [hlstat] at h
      exact (Except.ok.inj h).symm
    dsimp only
    by_cases hdir : metadata.isDirectory = true
    · rw [if_pos hdir]
      refine iff_of_true (lossless_directory candidate artifactId hlstat hdir) ⟨?_, ?_⟩
      · intro m target h hnot
        rw [hmeta h, hdir] at hnot
        cases hnot
      · intro m opened content h hnot
        rw [hmeta h, hdir] at hnot
        cases hnot
    rw [if_neg hdir]
    by_cases hlink : metadata.isLink = true
    · rw [if_pos hlink]
      have hfile : ∀ m opened content, answers.lstat = .ok m → m.isDirectory = false → m.isLink = false →
          m.isRegular = true → answers.open_ = .ok () → answers.opened = .ok opened →
          sameFileState m opened = true → ReadsToEnd answers.reads content →
          unchanged opened answers.after = true → content.length = m.size := by
        intro m opened content h _ hnot
        rw [hmeta h, hlink] at hnot
        cases hnot
      cases hread : answers.readlink with
      | error error =>
        unfold captureSymlink
        rw [hread]
        refine iff_of_true (lossless_failure artifactId _) ⟨?_, hfile⟩
        intro m target _ _ _ h
        rw [hread] at h
        cases h
      | ok target =>
        rw [lossless_symlink_iff candidate artifactId metadata hread]
        refine ⟨fun hle => ⟨?_, hfile⟩, fun h => h.symlink metadata target hlstat (by simpa using hdir) hlink hread⟩
        intro m t h _ _ ht
        rw [hmeta h, ← Except.ok.inj (hread.symm.trans ht)]
        exact hle
    rw [if_neg hlink]
    have hnolink : ∀ m target, answers.lstat = .ok m → m.isDirectory = false → m.isLink = true →
        answers.readlink = .ok target → target.length ≤ m.size + 1 := by
      intro m target h _ hm
      rw [hmeta h] at hm
      exact absurd hm hlink
    by_cases hregular : metadata.isRegular = true
    · rw [if_pos hregular]
      unfold captureRegular
      cases hopen : answers.open_ with
      | error error =>
        refine iff_of_true (lossless_failure artifactId _) ⟨hnolink, ?_⟩
        intro m opened content _ _ _ _ h
        rw [hopen] at h
        cases h
      | ok =>
        cases hopened : answers.opened with
        | error error =>
          refine iff_of_true (lossless_failure artifactId _) ⟨hnolink, ?_⟩
          intro m opened content _ _ _ _ _ h
          rw [hopened] at h
          cases h
        | ok opened =>
          dsimp only
          by_cases hsame : sameFileState metadata opened = true
          · rw [if_pos hsame, lossless_content_iff candidate artifactId hlstat hopened hsame]
            constructor
            · refine fun hcontent => ⟨hnolink, ?_⟩
              intro m o content h _ _ _ _ ho _ hread hafter
              rw [hmeta h]
              rw [← Except.ok.inj (hopened.symm.trans ho)] at hafter
              exact hcontent content hread hafter
            · intro h content hread hafter
              exact h.regular metadata opened content hlstat (by simpa using hdir) (by simpa using hlink) hregular
                hopen hopened hsame hread hafter
          · rw [if_neg hsame]
            refine iff_of_true (lossless_failure artifactId _) ⟨hnolink, ?_⟩
            intro m o content h _ _ _ _ ho hs
            rw [hmeta h, ← Except.ok.inj (hopened.symm.trans ho)] at hs
            exact absurd hs hsame
    · rw [if_neg hregular]
      refine iff_of_true (lossless_failure artifactId _) ⟨hnolink, ?_⟩
      intro m opened content h _ _ hm
      rw [hmeta h] at hm
      exact absurd hm hregular

end One

/-! ## A whole call -/

/-- How many of the first captures are groups: the id of the artifact behind them. -/
def groupsBefore (cs : List Capture) (i : Nat) : Nat := (cs.take i).countP Capture.counted

theorem groupsBefore_cons (c : Capture) (cs : List Capture) (i : Nat) :
    groupsBefore (c :: cs) (i + 1) = (if c.counted then 1 else 0) + groupsBefore cs i := by
  rw [groupsBefore, groupsBefore, List.take_succ_cons, List.countP_cons, Nat.add_comm]

theorem captures_get (candidates : List (ArtifactCandidate × Inspection)) : ∀ (artifactId i : Nat)
    (p : ArtifactCandidate × Inspection), candidates[i]? = some p →
    (captures candidates artifactId)[i]? =
      some (capture p.1 p.2 (artifactId + groupsBefore (captures candidates artifactId) i)) := by
  induction candidates with
  | nil => exact fun _ _ _ h => nomatch h
  | cons first rest ih =>
    intro artifactId i p h
    rw [captures]
    generalize hc : capture first.1 first.2 artifactId = c
    cases i with
    | zero =>
      have hzero : groupsBefore (c :: captures rest (if c.counted then artifactId + 1 else artifactId)) 0 = 0 := rfl
      obtain rfl : first = p := Option.some.inj h
      rw [hzero]
      show some c = some (capture first.1 first.2 artifactId)
      rw [hc]
    | succ i =>
      rw [List.getElem?_cons_succ, ih _ i p h, groupsBefore_cons, ← Nat.add_assoc]
      split_ifs <;> rfl

/-- Each candidate of a call is captured losslessly or flagged exactly when the sizes of its calls are true. -/
theorem lossless_capture_iff (candidates : List (ArtifactCandidate × Inspection)) {chunkSize : Nat}
    (hsize : chunkSize ≠ 0 ∧ chunkSize ≤ ssizeMax) {s : Session} (hs : s.Open) :
    Does (emitArtifacts noFaults candidates chunkSize) s
        ((⟨0, 0, [], true⟩ : ArtifactResult).addAll (captures candidates 0))
        ((captures candidates 0).flatMap Capture.records ++
          diagnosticRecords ((captures candidates 0).flatMap Capture.diagnostics)) ∧
      ∀ (i : Nat) (p : ArtifactCandidate × Inspection) (c : Capture), candidates[i]? = some p →
        (captures candidates 0)[i]? = some c →
        (Lossless p.2 (groupsBefore (captures candidates 0) i) c ↔ Truthful p.2) := by
  refine ⟨emitArtifacts_noFaults candidates hsize hs, fun i p c hp hc => ?_⟩
  have hget := captures_get candidates 0 i p hp
  rw [Nat.zero_add] at hget
  rw [Option.some.inj (hc.symm.trans hget)]
  exact lossless_iff_truthful p.1 _

/-! ### A link that grew -/

/-- `lstat` sees a link of one octet, and the link is replaced by one of three before it is read. -/
def grownLink : ArtifactCandidate × Inspection :=
  (⟨ascii "/sword/l", ascii "l", ascii "module_data"⟩,
    { lstat := .ok ⟨1, 1, 0o120777, 1, ⟨0, 0⟩, ⟨0, 0⟩⟩
      readlink := .ok (ascii "abc")
      open_ := .error ⟨40, ascii "Too many levels of symbolic links"⟩
      opened := .error ⟨9, ascii "Bad file descriptor"⟩
      reads := []
      after := .error ⟨9, ascii "Bad file descriptor"⟩ })

theorem lossless_capture_iff_grownLink :
    Does (emitArtifacts noFaults [grownLink] 4096) freshSession
        ((⟨0, 0, [], true⟩ : ArtifactResult).addAll (captures [grownLink] 0))
        ((captures [grownLink] 0).flatMap Capture.records ++
          diagnosticRecords ((captures [grownLink] 0).flatMap Capture.diagnostics)) ∧
      ∀ (i : Nat) (p : ArtifactCandidate × Inspection) (c : Capture), [grownLink][i]? = some p →
        (captures [grownLink] 0)[i]? = some c →
        (Lossless p.2 (groupsBefore (captures [grownLink] 0) i) c ↔ Truthful p.2) :=
  lossless_capture_iff [grownLink] (by decide) freshSession_open

/-- The group says `ab`, and no diagnostic is pushed. -/
theorem grownLink_not_lossless :
    (capture grownLink.1 grownLink.2 0).diagnostics = [] ∧
      ¬ Lossless grownLink.2 0 (capture grownLink.1 grownLink.2 0) := by
  refine ⟨rfl, fun h => ?_⟩
  have hle := (lossless_symlink_iff grownLink.1 0 ⟨1, 1, 0o120777, 1, ⟨0, 0⟩, ⟨0, 0⟩⟩
    (rfl : grownLink.2.readlink = .ok (ascii "abc"))).mp h
  exact absurd hle (by decide)

end GetBibleSword.Tool
