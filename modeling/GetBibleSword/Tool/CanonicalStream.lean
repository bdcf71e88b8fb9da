import GetBibleSword.Core.Extractor
import GetBibleSword.Tool.EntryRecord

/-!
# Canonical output

Every line `list_modules` and `extract_module` write is canonical JSON, however they end.

* `CanonicalOutput start output` : what has been written behind `start`: canonical lines, and of a line the
  stream did not take whole a part;
* `CanonicalSession`, `CanonicalDiagnostic` : the invariant of the programs, and the diagnostics they keep it with;
* `canonical_emitRecord`, ..., `canonical_extractModule`, `canonical_listModules` : one lemma for each function;
* `output_canonical` : the result.
-/

namespace GetBibleSword.Tool
open GetBibleSword.Lib GetBibleSword.Core

/-! ## The stream -/

/-- Canonical lines, and behind them less than a line if the stream has failed. -/
def CanonicalOutput (start : Bytes) (output : OStream) : Prop :=
  ∃ (lines : List Bytes) (rest : Bytes), output.written = start ++ lines.flatten ++ rest ∧ (∀ line ∈ lines, CanonicalLine line) ∧
    (rest ≠ [] → output.good = false ∧ ∃ line, CanonicalLine line ∧ rest <+: line ∧ rest ≠ line)

section Stream
variable {start : Bytes} {output : OStream} {line : Bytes}

theorem canonical_start (output : OStream) : CanonicalOutput output.written output :=
  ⟨[], [], by simp, fun line hline => absurd hline List.not_mem_nil, fun hne => absurd rfl hne⟩

theorem canonical_write (h : CanonicalOutput start output) (hline : CanonicalLine line) :
    CanonicalOutput start (output.write line) := by
  obtain ⟨lines, rest, hwritten, hlines, hrest⟩ := h
  by_cases hgood : output.good = true
  · have hempty : rest = [] := by
      by_contra hne
      rw [(hrest hne).1] at hgood
      cases hgood
    subst hempty
    rw [List.append_nil] at hwritten
    have hwhole : CanonicalOutput start { output with written := output.written ++ line } := by
      refine ⟨lines ++ [line], [], ?_, ?_, fun hne => absurd rfl hne⟩
      · rw [hwritten]
        simp
      · intro l hl
        rcases List.mem_append.mp hl with hl | hl
        · exact hlines l hl
        · rwa [List.mem_singleton.mp hl]
    unfold OStream.write
    rw [if_pos hgood]
    cases output.room with
    | none => exact hwhole
    | some n =>
      by_cases hfits : line.length ≤ n
      · dsimp only
        rw [if_pos hfits]
        exact hwhole
      · dsimp only
        rw [if_neg hfits]
        refine ⟨lines, line.take n, by rw [hwritten], hlines, fun _ => ⟨rfl, line, hline, List.take_prefix n line, ?_⟩⟩
        intro heq
        have hlength := congrArg List.length heq
        rw [List.length_take] at hlength
        omega
  · unfold OStream.write
    rw [if_neg hgood]
    exact ⟨lines, rest, hwritten, hlines, hrest⟩

theorem canonical_flush (h : CanonicalOutput start output) : CanonicalOutput start output.flush := by
  obtain ⟨lines, rest, hwritten, hlines, hrest⟩ := h
  refine ⟨lines, rest, by rw [OStream.flush_written, hwritten], hlines, fun hne => ?_⟩
  obtain ⟨hgood, hline⟩ := hrest hne
  refine ⟨?_, hline⟩
  unfold OStream.flush
  split_ifs
  · exact hgood
  · rfl

end Stream

/-! ## Fields -/

section Fields
variable {fields rest : List (Bytes × Bytes)} {value : Bytes} {v : Json}

theorem canonicalFields_nil : CanonicalFields [] := fun _ he => absurd he List.not_mem_nil

/-- One field more, with a literal name. -/
theorem canonicalFields_cons (name : String) (hname : ∀ x ∈ text name, x < 0x80) (h : CanonicalJson value v)
    (hrest : CanonicalFields rest) : CanonicalFields ((ascii name, value) :: rest) := by
  intro e he
  rcases List.mem_cons.mp he with rfl | he
  · exact canonical_entry hname h
  · exact hrest e he

/-- One byte value more. -/
theorem canonicalFields_bytes (name : String) (hname : ∀ x ∈ text name, x < 0x80) (bytes : Bytes)
    (hrest : CanonicalFields rest) : CanonicalFields ((ascii name, byteValueJson bytes) :: rest) :=
  canonicalFields_cons name hname (canonicalJson_byteValue bytes) hrest

/-- One number more. -/
theorem canonicalFields_number (name : String) (hname : ∀ x ∈ text name, x < 0x80) (n : Nat)
    (hrest : CanonicalFields rest) : CanonicalFields ((ascii name, decimal n) :: rest) :=
  canonicalFields_cons name hname (canonicalJson_decimal n) hrest

theorem canonicalFields_append (h : CanonicalFields fields) (hrest : CanonicalFields rest) :
    CanonicalFields (fields ++ rest) := by
  intro e he
  rcases List.mem_append.mp he with he | he
  · exact h e he
  · exact hrest e he

/-- A string that is well-formed UTF-8. -/
theorem canonicalJson_valid {bytes : Bytes} (h : isValidUtf8 bytes = true) :
    ∃ v, CanonicalJson (jsonString bytes) v := by
  obtain ⟨t, ht⟩ := Option.isSome_iff_exists.mp ((isValidUtf8_eq bytes).symm.trans h)
  exact ⟨_, canonicalJson_string ht⟩

theorem canonicalJson_hexDigest (h : Core.Sha256) :
    CanonicalJson (jsonString h.hexDigest) (.str (Lib.Sha256.hex h.digest)) := by
  have hascii : ∀ c ∈ Lib.Sha256.hex h.digest, c < 0x80 := by
    intro c hc
    have := Sha256.hex_digits _ c hc
    omega
  apply canonicalJson_string
  rw [Core.Sha256.hexDigest, ← Utf8.encode_of_ascii hascii, Utf8.decode_encode (Utf8.scalar_of_ascii hascii)]

/-- The footer of a writer whose types are well-formed. -/
theorem canonicalLine_footer {w : NdjsonWriter} {fields : JsonFields} (success : Bool)
    (hcounts : ∀ e ∈ w.counts.entries, ∃ t, Utf8.decode e.1 = some t) (h : CanonicalFields fields.entries) :
    CanonicalLine (footerLine w success fields) := by
  have hsorted : ((w.counts.entries.map fun e => (e.1, decimal e.2)).map Prod.fst).Pairwise (· < ·) := by
    rw [List.map_map]
    exact w.counts.sorted
  have hentries : CanonicalFields (w.counts.entries.map fun e => (e.1, decimal e.2)) := by
    intro e he
    obtain ⟨count, hcount, rfl⟩ := List.mem_map.mp he
    exact ⟨hcounts count hcount, _, canonicalJson_decimal count.2⟩
  obtain ⟨members, hmembers⟩ := hentries.members
  have hfooter : ascii "\"footer\"" = jsonString (ascii "footer") := by decide +kernel
  have hadded := canonicalFields_emplaceAll h
    (canonicalFields_cons "counts" (by decide) (canonicalJson_object hsorted hmembers)
    (canonicalFields_cons "sequence" (by decide) (canonicalJson_decimal w.sequence)
    (canonicalFields_cons "stream_sha256" (by decide) (canonicalJson_hexDigest w.streamHash)
    (canonicalFields_cons "success" (by decide) (canonicalJson_bool success)
    (canonicalFields_cons "type" (by decide) (canonicalJson_quoted hfooter (by decide))
    canonicalFields_nil)))))
  obtain ⟨v, hv⟩ := canonicalJson_map hadded
  exact hv.line

end Fields

/-! ## Emitting -/

/-- What the programs keep: the output, and types that are well-formed. -/
def CanonicalSession (start : Bytes) (s : Session) : Prop :=
  CanonicalOutput start s.writer.output ∧ ∀ e ∈ s.writer.counts.entries, ∃ t, Utf8.decode e.1 = some t

def CanonicalDiagnostic (value : Diagnostic) : Prop :=
  (∃ t, Utf8.decode value.severity = some t) ∧ (∃ t, Utf8.decode value.code = some t) ∧
    CanonicalFields value.context.entries

section Emission
variable {faults : Faults} {start : Bytes} {fields : JsonFields}

theorem decode_type (purpose : Purpose) : ∃ t, Utf8.decode purpose.type = some t := by
  cases purpose
  all_goals exact ⟨_, decode_literal (by decide)⟩

theorem canonical_mayThrow (site : Site) : Keeps (CanonicalSession start) (mayThrow faults site) fun _ => True := by
  intro s hs
  unfold mayThrow
  rw [run_bind, run_get]
  dsimp only
  rw [run_bind, run_set]
  dsimp only
  cases faults site s with
  | some e => exact hs
  | none => exact ⟨trivial, hs⟩

theorem decode_alter {counts : OrdMap Bytes Nat} {type : Bytes} {f : Option Nat → Nat}
    (h : ∀ e ∈ counts.entries, ∃ t, Utf8.decode e.1 = some t) (htype : ∃ t, Utf8.decode type = some t) :
    ∀ e ∈ (counts.alter type f).entries, ∃ t, Utf8.decode e.1 = some t := by
  intro e he
  have hfind := OrdMap.mem_entries.mp he
  rw [OrdMap.find_alter] at hfind
  by_cases hkey : e.1 = type
  · rwa [hkey]
  · rw [if_neg hkey] at hfind
    exact h e (OrdMap.mem_entries.mpr hfind)

theorem canonical_emitRecord (purpose : Purpose) (h : CanonicalFields fields.entries) :
    Keeps (CanonicalSession start) (emitRecord faults purpose fields) fun _ => True := by
  unfold emitRecord
  apply Keeps.bind (canonical_mayThrow _)
  intro _ _ s hs
  obtain ⟨houtput, hcounts⟩ := hs
  have hwrite := canonical_write houtput (canonicalLine_record s.writer.sequence (decode_type purpose) h)
  rw [run_bind, run_get]
  dsimp only
  rw [emit_run]
  by_cases hfinished : s.writer.finished = true
  · rw [if_pos hfinished]
    exact ⟨houtput, hcounts⟩
  rw [if_neg hfinished]
  by_cases hreserved : fields.contains (ascii "sequence") = true ∨ fields.contains (ascii "type") = true
  · rw [if_pos hreserved]
    exact ⟨houtput, hcounts⟩
  rw [if_neg hreserved]
  by_cases hgood : (s.writer.output.write (recordLine s.writer.sequence purpose.type fields)).good = true
  · rw [if_pos hgood]
    dsimp only
    unfold bookRecord
    rw [run_bind, run_get]
    dsimp only
    cases faults (.book purpose) s with
    | some e => exact ⟨hwrite, hcounts⟩
    | none => exact ⟨trivial, hwrite, decode_alter hcounts (decode_type purpose)⟩
  · rw [if_neg hgood]
    exact ⟨hwrite, hcounts⟩

theorem canonicalFields_diagnostic {value : Diagnostic} (h : CanonicalDiagnostic value) :
    CanonicalFields (Core.diagnosticFields value).entries := by
  obtain ⟨⟨severity, hseverity⟩, ⟨code, hcode⟩, hcontext⟩ := h
  apply canonicalFields_emplaceAll hcontext
  apply canonicalFields_cons "code" (by decide) (canonicalJson_string hcode)
  apply canonicalFields_cons "message" (by decide) (canonicalJson_byteValue value.message)
  exact canonicalFields_cons "severity" (by decide) (canonicalJson_string hseverity) canonicalFields_nil

theorem canonicalDiagnostic_error {code message : String} {context : List (Bytes × Bytes)}
    (hcode : ∀ x ∈ text code, x < 0x80) (hcontext : CanonicalFields context) :
    CanonicalDiagnostic (errorDiagnostic code message context) :=
  ⟨⟨_, decode_literal (by decide)⟩, ⟨_, decode_literal hcode⟩, canonicalFields_fieldsOf hcontext⟩

theorem canonicalDiagnostic_warning {code message : String} {context : List (Bytes × Bytes)}
    (hcode : ∀ x ∈ text code, x < 0x80) (hcontext : CanonicalFields context) :
    CanonicalDiagnostic (warningDiagnostic code message context) :=
  ⟨⟨_, decode_literal (by decide)⟩, ⟨_, decode_literal hcode⟩, canonicalFields_fieldsOf hcontext⟩

end Emission

/-! ## Artifacts -/

section Artifacts
variable {faults : Faults} {start : Bytes} {candidate : ArtifactCandidate} {artifactId : Nat} {result : ArtifactResult}

/-- The diagnostics a result has gathered. -/
def CanonicalResult (result : ArtifactResult) : Prop := ∀ value ∈ result.diagnostics, CanonicalDiagnostic value

theorem canonicalDiagnostic_failed {code message : String} (hcode : ∀ x ∈ text code, x < 0x80) :
    CanonicalDiagnostic (candidate.failed code message) :=
  canonicalDiagnostic_error hcode (canonicalFields_bytes "path" (by decide) _ canonicalFields_nil)

theorem canonicalDiagnostic_failedWith {code message : String} (hcode : ∀ x ∈ text code, x < 0x80)
    (error : SystemError) : CanonicalDiagnostic (candidate.failedWith code message error) :=
  canonicalDiagnostic_error hcode
    (canonicalFields_bytes "detail" (by decide) _ (canonicalFields_bytes "path" (by decide) _ canonicalFields_nil))

theorem canonical_pushFailure (hresult : CanonicalResult result) {value : Diagnostic}
    (hvalue : CanonicalDiagnostic value) :
    Keeps (CanonicalSession start) (pushFailure faults result value) CanonicalResult := by
  unfold pushFailure
  apply Keeps.bind (canonical_mayThrow _)
  intro _ _
  apply Keeps.pure
  intro other hother
  rcases List.mem_append.mp hother with hother | hother
  · exact hresult other hother
  · rwa [List.mem_singleton.mp hother]

theorem canonicalFields_begin (hrole : ∃ t, Utf8.decode candidate.role = some t) (mode : Nat)
    {more : List (Bytes × Bytes)} (hmore : CanonicalFields more) :
    CanonicalFields (candidate.beginFields artifactId mode more).entries := by
  obtain ⟨role, hrole⟩ := hrole
  apply canonicalFields_fieldsOf
  apply canonicalFields_append ?_ hmore
  apply canonicalFields_number "artifact_id" (by decide)
  apply canonicalFields_number "mode" (by decide)
  apply canonicalFields_bytes "path" (by decide)
  exact canonicalFields_cons "role" (by decide) (canonicalJson_string hrole) canonicalFields_nil

theorem canonicalFields_end (size : Nat) {sha256 : Bytes} {v : Json} (hsha256 : CanonicalJson (jsonString sha256) v) :
    CanonicalFields (endFields artifactId size sha256) := by
  apply canonicalFields_number "artifact_id" (by decide)
  apply canonicalFields_cons "sha256" (by decide) hsha256
  exact canonicalFields_number "size" (by decide) size canonicalFields_nil

theorem canonicalFields_chunk (index : Nat) (chunk : Bytes) :
    CanonicalFields (Core.chunkFields artifactId index chunk).entries := by
  apply canonicalFields_fieldsOf
  apply canonicalFields_number "artifact_id" (by decide)
  apply canonicalFields_bytes "data" (by decide)
  exact canonicalFields_number "index" (by decide) index canonicalFields_nil

theorem canonical_readLoop (reads : List ReadResult) : ∀ (chunkIndex : Nat) (reading : Reading),
    CanonicalResult reading.result →
    Keeps (CanonicalSession start) (readLoop faults candidate artifactId reads chunkIndex reading)
      fun reading => CanonicalResult reading.result := by
  induction reads with
  | nil => exact fun _ _ h => Keeps.pure h
  | cons read reads ih =>
    intro chunkIndex reading h
    cases read with
    | fail error =>
      rw [readLoop]
      split_ifs
      · exact ih chunkIndex reading h
      · apply Keeps.bind (canonical_pushFailure h (canonicalDiagnostic_failedWith (by decide) error))
        intro result hresult
        exact Keeps.pure hresult
    | data chunk =>
      rw [readLoop]
      split_ifs
      · exact Keeps.pure h
      · apply Keeps.bind (canonical_emitRecord _ (canonicalFields_chunk chunkIndex chunk))
        intro _ _
        exact ih (chunkIndex + 1) _ h

/-- What the body of the loop returns. -/
abbrev CanonicalStep (step : Bool × ArtifactResult) : Prop := CanonicalResult step.2

theorem canonical_failure (hresult : CanonicalResult result) {value : Diagnostic}
    (hvalue : CanonicalDiagnostic value) :
    Keeps (CanonicalSession start) (do return (false, ← pushFailure faults result value)) CanonicalStep := by
  apply Keeps.bind (canonical_pushFailure hresult hvalue)
  intro result hresult
  exact Keeps.pure hresult

section Candidate
variable (hrole : ∃ t, Utf8.decode candidate.role = some t) (hresult : CanonicalResult result)
include hrole hresult

theorem canonical_emitDirectory (metadata : FileState) :
    Keeps (CanonicalSession start) (emitDirectory faults candidate metadata artifactId result) CanonicalStep := by
  have hdirectory : ascii "\"directory\"" = jsonString (ascii "directory") := by decide +kernel
  unfold emitDirectory
  apply Keeps.bind (canonical_emitRecord _ (canonicalFields_begin hrole metadata.mode
    (canonicalFields_cons "file_type" (by decide) (canonicalJson_quoted hdirectory (by decide)) canonicalFields_nil)))
  intro _ _
  apply Keeps.bind (canonical_emitRecord _ (canonicalFields_fieldsOf
    (canonicalFields_end 0 (canonicalJson_hexDigest (Core.Sha256.new.update [])))))
  intro _ _
  exact Keeps.pure hresult

theorem canonical_emitSymlink (answers : Inspection) (metadata : FileState) :
    Keeps (CanonicalSession start) (emitSymlink faults candidate answers metadata artifactId result) CanonicalStep := by
  have hsymlink : ascii "\"symlink\"" = jsonString (ascii "symlink") := by decide +kernel
  unfold emitSymlink
  apply Keeps.bind (canonical_mayThrow _)
  intro _ _
  cases answers.readlink with
  | error error => exact canonical_failure hresult (canonicalDiagnostic_failedWith (by decide) error)
  | ok whole =>
    dsimp only
    apply Keeps.bind (canonical_emitRecord _ (canonicalFields_begin hrole metadata.mode
      (canonicalFields_cons "file_type" (by decide) (canonicalJson_quoted hsymlink (by decide))
        (canonicalFields_bytes "target" (by decide) _ canonicalFields_nil))))
    intro _ _
    apply Keeps.bind (canonical_emitRecord _ (canonicalFields_fieldsOf
      (canonicalFields_end _ (canonicalJson_hexDigest (Core.Sha256.new.update _)))))
    intro _ _
    exact Keeps.pure hresult

theorem canonical_emitContent (answers : Inspection) (metadata opened : FileState) :
    Keeps (CanonicalSession start) (emitContent faults candidate answers metadata opened artifactId result)
      CanonicalStep := by
  have hregular : ascii "\"regular\"" = jsonString (ascii "regular") := by decide +kernel
  unfold emitContent
  apply Keeps.bind (canonical_emitRecord _ (canonicalFields_begin hrole metadata.mode
    (canonicalFields_cons "file_type" (by decide) (canonicalJson_quoted hregular (by decide))
      (canonicalFields_number "size_expected" (by decide) _ canonicalFields_nil))))
  intro _ _
  apply Keeps.bind (canonical_readLoop answers.reads 0 _ hresult)
  intro reading hreading
  dsimp only
  have hnoted : Keeps (CanonicalSession start)
      (noteChange faults candidate (unchanged opened answers.after) reading.result) CanonicalResult := by
    unfold noteChange
    split_ifs
    · exact Keeps.pure hreading
    · exact canonical_pushFailure hreading (canonicalDiagnostic_failed (by decide))
  apply Keeps.bind hnoted
  intro result hresult
  apply Keeps.bind (canonical_emitRecord _ (canonicalFields_fieldsOf (canonicalFields_append
    (canonicalFields_end _ (canonicalJson_hexDigest _))
    (canonicalFields_cons "stable" (by decide) (canonicalJson_bool _) canonicalFields_nil))))
  intro _ _
  exact Keeps.pure hresult

theorem canonical_emitArtifact (answers : Inspection) :
    Keeps (CanonicalSession start) (emitArtifact faults candidate answers artifactId result) CanonicalStep := by
  unfold emitArtifact
  cases answers.lstat with
  | error error => exact canonical_failure hresult (canonicalDiagnostic_failedWith (by decide) error)
  | ok metadata =>
    apply Keeps.bind (canonical_mayThrow _)
    intro _ _
    split_ifs
    · exact canonical_emitDirectory hrole hresult metadata
    · exact canonical_emitSymlink hrole hresult answers metadata
    · unfold emitRegular
      cases answers.open_ with
      | error error => exact canonical_failure hresult (canonicalDiagnostic_failedWith (by decide) error)
      | ok _ =>
        cases answers.opened with
        | error _ => exact canonical_failure hresult (canonicalDiagnostic_failed (by decide))
        | ok opened =>
          dsimp only
          split_ifs
          · exact canonical_emitContent hrole hresult answers metadata opened
          · exact canonical_failure hresult (canonicalDiagnostic_failed (by decide))
    · apply canonical_failure hresult
      exact canonicalDiagnostic_error (by decide)
        (canonicalFields_number "mode" (by decide) _ (canonicalFields_bytes "path" (by decide) _ canonicalFields_nil))

end Candidate

theorem canonical_emitCandidates (candidates : List (ArtifactCandidate × Inspection)) :
    ∀ (artifactId : Nat) (result : ArtifactResult), (∀ c ∈ candidates, ∃ t, Utf8.decode c.1.role = some t) →
    CanonicalResult result →
    Keeps (CanonicalSession start) (emitCandidates faults candidates artifactId result) CanonicalResult := by
  induction candidates with
  | nil => exact fun _ _ _ hresult => Keeps.pure hresult
  | cons c candidates ih =>
    intro artifactId result hroles hresult
    obtain ⟨candidate, answers⟩ := c
    have hrest := fun c hc => hroles c (List.mem_cons_of_mem _ hc)
    rw [emitCandidates]
    apply Keeps.bind (canonical_emitArtifact (hroles _ List.mem_cons_self) hresult answers)
    intro step hstep
    obtain ⟨counted, result⟩ := step
    dsimp only
    split_ifs
    · exact ih _ _ hrest hstep
    · exact ih _ _ hrest hstep

theorem canonical_emitDiagnostics (values : List Diagnostic) : ∀ index : Nat,
    (∀ value ∈ values, CanonicalDiagnostic value) →
    Keeps (CanonicalSession start) (emitDiagnostics faults index values) fun _ => True := by
  induction values with
  | nil => exact fun _ _ => Keeps.pure trivial
  | cons value values ih =>
    intro index hvalues
    rw [emitDiagnostics]
    apply Keeps.bind (canonical_emitRecord _ (canonicalFields_diagnostic (hvalues value List.mem_cons_self)))
    intro _ _
    exact ih _ fun v hv => hvalues v (List.mem_cons_of_mem _ hv)

theorem canonical_emitArtifacts {candidates : List (ArtifactCandidate × Inspection)} (chunkSize : Nat)
    (hroles : ∀ c ∈ candidates, ∃ t, Utf8.decode c.1.role = some t) :
    Keeps (CanonicalSession start) (emitArtifacts faults candidates chunkSize) CanonicalResult := by
  have hempty : CanonicalResult ⟨0, 0, [], true⟩ := fun value hvalue => absurd hvalue List.not_mem_nil
  unfold emitArtifacts
  dsimp only
  split_ifs
  · exact canonical_pushFailure hempty (canonicalDiagnostic_error (by decide) canonicalFields_nil)
  · apply Keeps.bind (canonical_mayThrow _)
    intro _ _
    apply Keeps.bind (canonical_emitCandidates candidates 0 _ hroles hempty)
    intro result hresult
    apply Keeps.bind (canonical_emitDiagnostics result.diagnostics 0 hresult)
    intro _ _
    exact Keeps.pure hresult

end Artifacts

/-! ## Entries -/

/-- The invariant of the functions with counters. -/
abbrev CanonicalRun (start : Bytes) (s : Extraction) : Prop := CanonicalSession start s.session

section Entries
variable {faults : Faults} {icu : Icu} {start : Bytes} {ordinal : Nat}

theorem canonical_onSession {α : Type} {x : Action α} {Q : α → Prop} (h : Keeps (CanonicalSession start) x Q) :
    Keeps (CanonicalRun start) (onSession x) Q := by
  intro s hs
  have hx := h s.session hs
  unfold onSession
  cases hrun : x s.session with
  | ok a session =>
    rw [hrun] at hx
    exact hx
  | error e session =>
    rw [hrun] at hx
    exact hx

theorem canonical_step : Keeps (CanonicalRun start) (onSession (mayThrow faults .extraction)) fun _ => True :=
  canonical_onSession (canonical_mayThrow _)

theorem canonical_record (purpose : Purpose) {fields : List (Bytes × Bytes)} (h : CanonicalFields fields) :
    Keeps (CanonicalRun start) (onSession (emitRecord faults purpose (fieldsOf fields))) fun _ => True :=
  canonical_onSession (canonical_emitRecord purpose (canonicalFields_fieldsOf h))

theorem canonical_emitDiagnostic {value : Diagnostic} (h : CanonicalDiagnostic value) :
    Keeps (CanonicalRun start) (emitDiagnostic faults value) fun _ => True := by
  unfold emitDiagnostic
  refine Keeps.bind (Keeps.modify ?_) fun _ _ => ?_
  · exact fun s hs => hs
  · exact canonical_onSession (canonical_emitRecord _ (canonicalFields_diagnostic h))

theorem canonical_report {value : Diagnostic} (h : CanonicalDiagnostic value) :
    Keeps (CanonicalRun start) (report faults value) fun _ => True := by
  unfold report
  apply Keeps.bind canonical_step
  intro _ _
  exact canonical_emitDiagnostic h

/-- A report with what follows it. -/
theorem canonical_reporting {α : Type} {value : Diagnostic} {x : Run α} {Q : α → Prop} (h : CanonicalDiagnostic value)
    (hx : Keeps (CanonicalRun start) x Q) :
    Keeps (CanonicalRun start) (do report faults value; x) Q := by
  apply Keeps.bind (canonical_report h)
  intro _ _
  exact hx

/-- A context with the number of an entry first. -/
theorem canonicalFields_ordinal {rest : List (Bytes × Bytes)} (hrest : CanonicalFields rest) :
    CanonicalFields (ordinalContext ordinal :: rest) :=
  canonicalFields_number "entry_ordinal" (by decide) ordinal hrest

theorem canonical_swordLength (size : Nat) :
    Keeps (CanonicalRun start) (swordLength faults size ordinal) fun _ => True := by
  unfold swordLength
  split_ifs
  · apply canonical_reporting _ (Keeps.pure trivial)
    exact canonicalDiagnostic_error (by decide)
      (canonicalFields_ordinal (canonicalFields_number "size" (by decide) size canonicalFields_nil))
  · exact Keeps.pure trivial

theorem canonical_normalizedStripped (answers : EntryAnswers) (normalized : Option Bytes) :
    Keeps (CanonicalRun start) (normalizedStripped faults answers normalized ordinal) fun _ => True := by
  have hone : CanonicalFields [ordinalContext ordinal] := canonicalFields_ordinal canonicalFields_nil
  unfold normalizedStripped
  cases normalized with
  | none => exact Keeps.pure trivial
  | some utf8 =>
    dsimp only
    by_cases hzero : utf8.contains zeroByte = true
    · rw [if_pos hzero]
      exact canonical_reporting (canonicalDiagnostic_warning (by decide) hone) (Keeps.pure trivial)
    · rw [if_neg hzero]
      apply Keeps.bind (canonical_swordLength utf8.length)
      intro fits _
      cases fits with
      | false => exact Keeps.pure trivial
      | true =>
        apply Keeps.bind canonical_step
        intro _ _
        unfold checkStripped
        split_ifs
        · exact Keeps.pure trivial
        · exact canonical_reporting (canonicalDiagnostic_warning (by decide) hone) (Keeps.pure trivial)

theorem canonicalFields_entry (answers : EntryAnswers) (normalized stripped : Option Bytes) (projections : Bool) :
    CanonicalFields (entryFields answers ordinal normalized stripped projections) := by
  obtain ⟨scope, hscope⟩ := canonicalJson_scope answers.scope
  have hattributes : ∃ v, CanonicalJson
      (if projections then officialAttributesJson answers.attributes else ascii "[]") v := by
    cases projections with
    | true => exact ⟨_, canonicalJson_attributes answers.attributes⟩
    | false => exact ⟨_, canonicalJson_array .nil⟩
  obtain ⟨attributes, hattributes⟩ := hattributes
  apply canonicalFields_cons "annotation_segments" (by decide) (canonicalJson_segments _)
  apply canonicalFields_bytes "key" (by decide)
  apply canonicalFields_cons "normalized_raw" (by decide) (canonicalJson_nullable _)
  apply canonicalFields_cons "normalized_stripped" (by decide) (canonicalJson_nullable _)
  apply canonicalFields_cons "official_attributes" (by decide) hattributes
  apply canonicalFields_number "ordinal" (by decide)
  apply canonicalFields_cons "projections_available" (by decide) (canonicalJson_bool _)
  apply canonicalFields_bytes "raw" (by decide)
  apply canonicalFields_cons "rendered_default" (by decide) (canonicalJson_nullable _)
  apply canonicalFields_cons "scope" (by decide) hscope
  exact canonicalFields_cons "stripped" (by decide) (canonicalJson_nullable _) canonicalFields_nil

theorem canonical_emitEntry (answers : EntryAnswers) :
    Keeps (CanonicalRun start) (emitEntry faults icu answers) fun _ => True := by
  unfold emitEntry
  apply Keeps.bind Keeps.get
  intro s _
  dsimp only
  by_cases hread : answers.readError ≠ zeroByte
  · rw [if_pos hread]
    apply canonical_reporting _ (Keeps.pure trivial)
    exact canonicalDiagnostic_error (by decide) (canonicalFields_ordinal (canonicalFields_bytes "key" (by decide) _
      (canonicalFields_number "sword_error" (by decide) _ canonicalFields_nil)))
  · rw [if_neg hread]
    apply Keeps.bind (canonical_swordLength answers.raw.length)
    intro projections _
    have hchecked : Keeps (CanonicalRun start) (checkNormalized faults
        (sourceUtf8 icu answers.raw (safeCString answers.encoding)) (safeCString answers.encoding) s.entries)
        fun _ => True := by
      unfold checkNormalized
      split_ifs
      · apply canonical_report
        exact canonicalDiagnostic_warning (by decide)
          (canonicalFields_ordinal (canonicalFields_bytes "encoding" (by decide) _ canonicalFields_nil))
      · exact Keeps.pure trivial
    apply Keeps.bind hchecked
    intro _ _
    apply Keeps.bind canonical_step
    intro _ _
    apply Keeps.bind (canonical_normalizedStripped answers _)
    intro stripped _
    apply Keeps.bind (canonical_record _ (canonicalFields_entry answers _ stripped projections))
    intro _ _
    refine Keeps.bind (Keeps.modify ?_) fun _ _ => Keeps.pure trivial
    exact fun s hs => hs

section Traversal
variable {Position : Type} {engine : Engine Position}

theorem canonical_navigate (position : Position) :
    Keeps (CanonicalRun start) (navigate faults engine position) fun _ => True := by
  unfold navigate
  apply Keeps.bind Keeps.get
  intro s _
  dsimp only
  by_cases hfull : engine.full s.entries = true
  · rw [if_pos hfull]
    exact Keeps.pure trivial
  rw [if_neg hfull]
  apply Keeps.bind canonical_step
  intro _ _
  by_cases hnone : (engine.increment position).1 = zeroByte
  · rw [if_pos hnone]
    exact Keeps.pure trivial
  rw [if_neg hnone]
  unfold navigationError
  by_cases hbounds : (engine.increment position).1 = keyErrOutOfBounds
  · rw [if_pos hbounds]
    cases engine.limit with
    | none => exact Keeps.pure trivial
    | some declared =>
      dsimp only
      split_ifs
      · apply canonical_reporting _ (Keeps.pure trivial)
        exact canonicalDiagnostic_error (by decide) (canonicalFields_number "declared_entries" (by decide) _
          (canonicalFields_number "emitted_entries" (by decide) _ canonicalFields_nil))
      · exact Keeps.pure trivial
  · rw [if_neg hbounds]
    apply canonical_reporting _ (Keeps.pure trivial)
    exact canonicalDiagnostic_error (by decide)
      (canonicalFields_ordinal (canonicalFields_number "sword_error" (by decide) _ canonicalFields_nil))

theorem canonical_traverse (fuel : Nat) : ∀ (position : Position) (previousKey : Bytes) (previousIndex : Int),
    Keeps (CanonicalRun start) (traverse faults icu engine fuel position previousKey previousIndex) fun _ => True := by
  induction fuel with
  | zero => exact fun _ _ _ => Keeps.pure trivial
  | succ fuel ih =>
    intro position previousKey previousIndex
    rw [Core.traverse.eq_2]
    apply Keeps.bind canonical_step
    intro _ _
    apply Keeps.bind Keeps.get
    intro s _
    dsimp only
    split_ifs
    · apply canonical_reporting _ (Keeps.pure trivial)
      exact canonicalDiagnostic_error (by decide)
        (canonicalFields_ordinal (canonicalFields_bytes "key" (by decide) _ canonicalFields_nil))
    · apply Keeps.bind (canonical_emitEntry _)
      intro read _
      cases read with
      | false => exact Keeps.pure trivial
      | true =>
        apply Keeps.bind (canonical_navigate position)
        intro navigation _
        cases navigation with
        | ended success => exact Keeps.pure trivial
        | moved next => exact ih _ _ _

theorem canonical_emitEntries (fuel : Nat) :
    Keeps (CanonicalRun start) (emitEntries faults icu engine fuel) fun _ => True := by
  unfold emitEntries
  apply Keeps.bind canonical_step
  intro _ _
  split_ifs
  · apply canonical_reporting _ (Keeps.pure trivial)
    exact canonicalDiagnostic_warning (by decide) canonicalFields_nil
  · exact canonical_traverse fuel _ _ _

end Traversal
end Entries

/-! ## Configuration -/

section Configuration
variable {faults : Faults} {start root moduleName : Bytes}

theorem canonicalFields_relative (path : Bytes) {rest : List (Bytes × Bytes)} (hrest : CanonicalFields rest) :
    CanonicalFields (relativeContext root path :: rest) :=
  canonicalFields_bytes "path" (by decide) _ hrest

theorem canonicalDiagnostic_configReadFailed (message path : Bytes) :
    CanonicalDiagnostic (configReadFailed message root path) :=
  ⟨⟨_, decode_literal (by decide)⟩, ⟨_, decode_literal (by decide)⟩,
    canonicalFields_fieldsOf (canonicalFields_relative path canonicalFields_nil)⟩

theorem canonical_inspectFile (path : Bytes) (file : IfstreamAnswers) :
    Keeps (CanonicalRun start) (inspectFile faults root moduleName path file) fun _ => True := by
  unfold inspectFile
  apply Keeps.bind canonical_step
  intro _ _
  cases readFile file with
  | error message => exact canonical_reporting (canonicalDiagnostic_configReadFailed message path) (Keeps.pure trivial)
  | ok bytes => exact Keeps.pure trivial

theorem canonical_inspectCandidate (step : ConfigStep) (kind : FileKind) :
    Keeps (CanonicalRun start) (inspectCandidate faults root moduleName step kind) fun _ => True := by
  cases kind with
  | regular => exact canonical_inspectFile step.path step.file
  | symlink =>
    apply canonical_reporting _ (Keeps.pure trivial)
    exact canonicalDiagnostic_error (by decide) (canonicalFields_relative step.path canonicalFields_nil)
  | other => exact Keeps.pure trivial

theorem canonical_searchSteps (steps : List ConfigStep) :
    Keeps (CanonicalRun start) (searchSteps faults root moduleName steps) fun _ => True := by
  induction steps with
  | nil => exact Keeps.pure trivial
  | cons step steps ih =>
    rw [searchSteps]
    apply Keeps.bind canonical_step
    intro _ _
    cases step.status with
    | error detail =>
      have hfailed : CanonicalDiagnostic (configStatFailed detail root step.path) :=
        canonicalDiagnostic_error (by decide)
          (canonicalFields_bytes "detail" (by decide) _ (canonicalFields_relative step.path canonicalFields_nil))
      apply canonical_reporting hfailed
      split_ifs
      · exact Keeps.pure trivial
      · exact ih
    | ok kind =>
      apply Keeps.bind (canonical_inspectCandidate step kind)
      intro found _
      cases step.increment with
      | some detail =>
        apply canonical_reporting _ (Keeps.pure trivial)
        exact canonicalDiagnostic_error (by decide) (canonicalFields_bytes "detail" (by decide) _ canonicalFields_nil)
      | none =>
        apply Keeps.bind ih
        intro rest _
        exact Keeps.pure trivial

theorem canonical_findConfigurationFiles (answers : ConfigurationAnswers) :
    Keeps (CanonicalRun start) (findConfigurationFiles faults root moduleName answers) fun _ => True := by
  unfold findConfigurationFiles
  dsimp only
  apply Keeps.bind canonical_step
  intro _ _
  cases answers.masterStatus with
  | regular => exact canonical_inspectFile _ _
  | symlink =>
    apply canonical_reporting _ (Keeps.pure trivial)
    exact canonicalDiagnostic_error (by decide) (canonicalFields_relative _ canonicalFields_nil)
  | other =>
    dsimp only
    cases answers.iterator with
    | error detail =>
      apply canonical_reporting _ (Keeps.pure trivial)
      exact canonicalDiagnostic_error (by decide) (canonicalFields_bytes "detail" (by decide) _ canonicalFields_nil)
    | ok steps =>
      apply Keeps.bind (canonical_searchSteps steps)
      intro files _
      exact Keeps.pure trivial

theorem canonical_emitConfigurationSources (reread : Nat → IfstreamAnswers) (files : List Bytes) :
    ∀ index ordinal, Keeps (CanonicalRun start) (emitConfigurationSources faults root reread index ordinal files)
      fun _ => True := by
  induction files with
  | nil => exact fun _ _ => Keeps.pure trivial
  | cons file files ih =>
    intro index ordinal
    rw [emitConfigurationSources]
    apply Keeps.bind canonical_step
    intro _ _
    cases readFile (reread index) with
    | error message => exact canonical_reporting (canonicalDiagnostic_configReadFailed message file) (ih _ _)
    | ok bytes =>
      have hfields : CanonicalFields (configSourceFields root ordinal file bytes) :=
        canonicalFields_number "ordinal" (by decide) _ (canonicalFields_relative file
          (canonicalFields_bytes "raw" (by decide) bytes canonicalFields_nil))
      apply Keeps.bind (canonical_record _ hfields)
      intro _ _
      exact ih _ _

theorem canonical_emitInterpretedConfiguration (entries : List (Bytes × Bytes)) : ∀ ordinal,
    Keeps (CanonicalRun start) (emitInterpretedConfiguration faults ordinal entries) fun _ => True := by
  induction entries with
  | nil => exact fun _ => Keeps.pure trivial
  | cons entry entries ih =>
    intro ordinal
    have hfields : CanonicalFields (configEntryFields ordinal entry) :=
      canonicalFields_bytes "name" (by decide) _ (canonicalFields_number "ordinal" (by decide) _
        (canonicalFields_bytes "value" (by decide) _ canonicalFields_nil))
    rw [emitInterpretedConfiguration]
    apply Keeps.bind (canonical_record _ hfields)
    intro _ _
    exact ih _

end Configuration

/-! ## Discovery -/

section Discovery
variable {answers : DiscoveryAnswers} {root dataPath : Bytes}

/-- Candidates with literal roles, and diagnostics. -/
def CanonicalDiscovery (found : List ArtifactCandidate × List Diagnostic) : Prop :=
  (∀ c ∈ found.1, ∃ t, Utf8.decode c.role = some t) ∧ ∀ value ∈ found.2, CanonicalDiagnostic value

theorem decode_candidate (path : Bytes) {role : String} (h : ∀ x ∈ text role, x < 0x80) :
    ∃ t, Utf8.decode (candidate root path role).role = some t := ⟨_, decode_literal h⟩

theorem canonicalDiagnostic_escape {code : String} (hcode : ∀ x ∈ text code, x < 0x80) (what path : Bytes) :
    CanonicalDiagnostic (escapeDiagnostic code what path) :=
  ⟨⟨_, decode_literal (by decide)⟩, ⟨_, decode_literal hcode⟩,
    canonicalFields_fieldsOf (canonicalFields_bytes "path" (by decide) path canonicalFields_nil)⟩

theorem canonical_configurations (configs : List Bytes) : CanonicalDiscovery (configurations answers root configs) := by
  induction configs with
  | nil => exact ⟨fun c hc => absurd hc List.not_mem_nil, fun value hvalue => absurd hvalue List.not_mem_nil⟩
  | cons config configs ih =>
    have hescape : ∀ what, CanonicalDiscovery
        ((configurations answers root configs).1, configEscape what config :: (configurations answers root configs).2) := by
      intro what
      refine ⟨ih.1, ?_⟩
      intro value hvalue
      rcases List.mem_cons.mp hvalue with rfl | hvalue
      · exact canonicalDiagnostic_escape (by decide) what config
      · exact ih.2 value hvalue
    unfold configurations
    dsimp only
    cases answers.configThrows config with
    | some what => exact hescape what
    | none =>
      cases normalizeCandidate root config with
      | none => exact hescape escapeMessage
      | some normalized =>
        refine ⟨?_, ih.2⟩
        intro c hc
        rcases List.mem_cons.mp hc with rfl | hc
        · exact decode_candidate normalized (by decide)
        · exact ih.1 c hc

/-- One diagnostic or none. -/
theorem canonicalDiscovery_map {paths : List Bytes} {role : String} {values : List Diagnostic}
    (hrole : ∀ x ∈ text role, x < 0x80) (hvalues : ∀ value ∈ values, CanonicalDiagnostic value) :
    CanonicalDiscovery (paths.map fun path => candidate root path role, values) := by
  refine ⟨?_, hvalues⟩
  intro c hc
  obtain ⟨path, -, rfl⟩ := List.mem_map.mp hc
  exact decode_candidate path hrole

theorem canonical_existingData (data : Bytes) (isDirectory : Bool) :
    CanonicalDiscovery (existingData answers root data isDirectory) := by
  unfold existingData
  split_ifs
  · apply canonicalDiscovery_map (by decide)
    intro value hvalue
    cases herror : (answers.recursiveDirectory data).2 with
    | none =>
      rw [herror] at hvalue
      exact absurd hvalue List.not_mem_nil
    | some detail =>
      rw [herror] at hvalue
      rw [List.mem_singleton.mp hvalue]
      exact canonicalDiagnostic_error (by decide) (canonicalFields_bytes "detail" (by decide) _
        (canonicalFields_bytes "path" (by decide) _ canonicalFields_nil))
  · exact @canonicalDiscovery_map root [data] "module_data" [] (by decide)
      fun value hvalue => absurd hvalue List.not_mem_nil

theorem canonical_prefixData (data : Bytes) : CanonicalDiscovery (prefixData answers root data dataPath) := by
  unfold prefixData
  apply canonicalDiscovery_map (by decide)
  intro value hvalue
  split_ifs at hvalue
  · rw [List.mem_singleton.mp hvalue]
    exact canonicalDiagnostic_error (by decide) (canonicalFields_bytes "path" (by decide) _ canonicalFields_nil)
  · exact absurd hvalue List.not_mem_nil

theorem canonical_interrupted {found : List ArtifactCandidate × List Diagnostic} (h : CanonicalDiscovery found) :
    CanonicalDiscovery (interrupted answers dataPath found) := by
  unfold interrupted
  cases answers.dataThrows with
  | none => exact h
  | some thrown =>
    obtain ⟨added, what⟩ := thrown
    refine ⟨fun c hc => h.1 c (List.mem_of_mem_take hc), ?_⟩
    intro value hvalue
    rw [List.mem_singleton.mp hvalue]
    exact canonicalDiagnostic_escape (by decide) what dataPath

theorem canonical_dataCandidates : CanonicalDiscovery (dataCandidates answers root dataPath) := by
  have hnone : ∀ value : Diagnostic, CanonicalDiagnostic value →
      CanonicalDiscovery (([] : List ArtifactCandidate), [value]) := by
    intro value hvalue
    refine ⟨fun c hc => absurd hc List.not_mem_nil, fun other hother => ?_⟩
    rwa [List.mem_singleton.mp hother]
  unfold dataCandidates
  by_cases hempty : dataPath = []
  · rw [if_pos hempty]
    exact hnone _ (canonicalDiagnostic_error (by decide) canonicalFields_nil)
  rw [if_neg hempty]
  cases normalizeCandidate root dataPath with
  | none => exact hnone _ (canonicalDiagnostic_escape (by decide) _ _)
  | some data =>
    dsimp only
    cases answers.symlinkStatus data with
    | some isDirectory => exact canonical_interrupted (canonical_existingData data isDirectory)
    | none => exact canonical_interrupted (canonical_prefixData data)

theorem canonical_discoverArtifacts {sort : List ArtifactCandidate → List ArtifactCandidate}
    (hsort : ∀ candidates, (sort candidates).Perm candidates) (swordRoot : Bytes) (configs : List Bytes) :
    CanonicalDiscovery (discoverArtifacts answers sort swordRoot dataPath configs) := by
  unfold discoverArtifacts
  cases answers.canonical swordRoot with
  | error detail =>
    refine ⟨fun c hc => absurd hc List.not_mem_nil, fun value hvalue => ?_⟩
    rw [List.mem_singleton.mp hvalue]
    exact canonicalDiagnostic_error (by decide) (canonicalFields_bytes "detail" (by decide) _ canonicalFields_nil)
  | ok root =>
    have hconfigs : CanonicalDiscovery (configurations answers root configs) := canonical_configurations configs
    have hdata : CanonicalDiscovery (dataCandidates answers root dataPath) := canonical_dataCandidates
    constructor
    · intro c hc
      rcases List.mem_append.mp ((hsort _).mem_iff.mp (mem_of_mem_unique hc)) with hc | hc
      · exact hconfigs.1 c hc
      · exact hdata.1 c hc
    · intro value hvalue
      rcases List.mem_append.mp hvalue with hvalue | hvalue
      · exact hconfigs.2 value hvalue
      · exact hdata.2 value hvalue

end Discovery

/-! ## The functions -/

section Functions
variable {faults : Faults} {start : Bytes} {Position : Type} {env : Environment Position}

theorem canonicalJson_enum (code : Byte) {name : Bytes} {v : Json} (h : CanonicalJson (jsonString name) v) :
    ∃ v, CanonicalJson (enumJson code name) v := by
  apply canonicalJson_map
  apply canonicalFields_fieldsOf
  exact canonicalFields_number "code" (by decide) _ (canonicalFields_cons "name" (by decide) h canonicalFields_nil)

/-- A text that is a string of JSON. -/
abbrev CanonicalText (bytes : Bytes) : Prop := ∃ v, CanonicalJson (jsonString bytes) v

theorem canonicalText_nil {value : Byte} : CanonicalText (nameOf value []) := ⟨_, canonicalJson_literal (by decide)⟩

theorem canonicalText_cons {value code : Byte} {name : String} {names : List (Byte × String)}
    (hname : ∀ x ∈ text name, x < 0x80) (hrest : CanonicalText (nameOf value names)) :
    CanonicalText (nameOf value ((code, name) :: names)) := by
  unfold nameOf
  split_ifs
  · exact ⟨_, canonicalJson_literal hname⟩
  · exact hrest

theorem canonicalText_direction (sword : SwordConstants) (value : Byte) : CanonicalText (directionName sword value) :=
  canonicalText_cons (by decide) (canonicalText_cons (by decide) (canonicalText_cons (by decide) canonicalText_nil))

theorem canonicalText_encoding (sword : SwordConstants) (value : Byte) : CanonicalText (encodingName sword value) := by
  iterate 6 apply canonicalText_cons (by decide)
  exact canonicalText_nil

theorem canonicalText_markup (sword : SwordConstants) (value : Byte) : CanonicalText (markupName sword value) := by
  iterate 11 apply canonicalText_cons (by decide)
  exact canonicalText_nil

theorem canonicalText_class (sword : SwordConstants) (module : ModuleAnswers Position) :
    CanonicalText (classifyModule sword module) := by
  unfold classifyModule
  dsimp only
  split_ifs
  all_goals exact ⟨_, canonicalJson_literal (by decide)⟩

theorem canonicalFields_module (sword : SwordConstants) (module : ModuleAnswers Position) :
    CanonicalFields (Core.moduleFields sword module) := by
  obtain ⟨_, hclass⟩ := canonicalText_class sword module
  obtain ⟨_, hdirection⟩ := canonicalText_direction sword module.direction
  obtain ⟨_, hdirection⟩ := canonicalJson_enum module.direction hdirection
  obtain ⟨_, hencoding⟩ := canonicalText_encoding sword module.encoding
  obtain ⟨_, hencoding⟩ := canonicalJson_enum module.encoding hencoding
  obtain ⟨_, hmarkup⟩ := canonicalText_markup sword module.markup
  obtain ⟨_, hmarkup⟩ := canonicalJson_enum module.markup hmarkup
  apply canonicalFields_cons "classification" (by decide) hclass
  apply canonicalFields_bytes "description" (by decide)
  apply canonicalFields_cons "direction" (by decide) hdirection
  apply canonicalFields_bytes "driver" (by decide)
  apply canonicalFields_cons "encoding" (by decide) hencoding
  apply canonicalFields_bytes "language" (by decide)
  apply canonicalFields_cons "markup" (by decide) hmarkup
  apply canonicalFields_bytes "name" (by decide)
  exact canonicalFields_bytes "sword_type" (by decide) _ canonicalFields_nil

theorem canonicalFields_header (sword : SwordConstants) {command : String} (hcommand : ∀ x ∈ text command, x < 0x80)
    (chunkSize : Nat) : CanonicalFields (Core.headerFields sword command chunkSize) := by
  have hcontract : ascii "\"getbiblesword.ndjson/v1\"" = jsonString (ascii "getbiblesword.ndjson/v1") := by
    decide +kernel
  have hproducer : ascii "\"getBibleSword\"" = jsonString (ascii "getBibleSword") := by decide +kernel
  have hversion : CanonicalJson (ascii "1") (.int 1) := canonicalJson_decimal 1
  obtain ⟨_, hproducerVersion⟩ := canonicalJson_valid sword.producerVersion_valid
  obtain ⟨_, hswordVersion⟩ := canonicalJson_valid sword.swordVersion_valid
  apply canonicalFields_append
  · apply canonicalFields_cons "command" (by decide) (canonicalJson_literal hcommand)
    apply canonicalFields_cons "contract" (by decide) (canonicalJson_quoted hcontract (by decide))
    apply canonicalFields_cons "contract_version" (by decide) hversion
    apply canonicalFields_cons "deterministic" (by decide) (canonicalJson_bool true)
    apply canonicalFields_cons "producer" (by decide) (canonicalJson_quoted hproducer (by decide))
    apply canonicalFields_cons "producer_version" (by decide) hproducerVersion
    exact canonicalFields_cons "sword_version" (by decide) hswordVersion canonicalFields_nil
  · split_ifs
    · exact canonicalFields_number "artifact_chunk_size" (by decide) chunkSize canonicalFields_nil
    · exact canonicalFields_nil

theorem canonicalFields_footer (s : Extraction) : CanonicalFields (Core.footerFields s) := by
  have hcounts : ∃ v, CanonicalJson (countsJson s.diagnostics) v := by
    apply canonicalJson_map
    apply canonicalFields_fieldsOf
    apply canonicalFields_number "error" (by decide)
    apply canonicalFields_number "info" (by decide)
    exact canonicalFields_number "warning" (by decide) _ canonicalFields_nil
  obtain ⟨_, hcounts⟩ := hcounts
  apply canonicalFields_number "artifact_bytes" (by decide)
  apply canonicalFields_number "artifacts" (by decide)
  apply canonicalFields_cons "diagnostics" (by decide) hcounts
  exact canonicalFields_number "entries" (by decide) _ canonicalFields_nil

theorem canonical_finishRun (success : Bool) : Keeps (CanonicalRun start) (finishRun faults success) fun _ => True := by
  unfold finishRun
  apply Keeps.bind canonical_step
  intro _ _
  apply Keeps.bind Keeps.get
  intro s _
  apply canonical_onSession
  intro session hsession
  obtain ⟨houtput, hcounts⟩ := hsession
  have hline := canonicalLine_footer success hcounts (canonicalFields_fieldsOf (canonicalFields_footer s))
  have hwritten := canonical_flush (canonical_write houtput hline)
  unfold finishSession
  rw [finish_run]
  by_cases hfinished : session.writer.finished = true
  · rw [if_pos hfinished]
    exact ⟨houtput, hcounts⟩
  · rw [if_neg hfinished]
    split_ifs
    · exact ⟨trivial, hwritten, hcounts⟩
    · exact ⟨hwritten, hcounts⟩

theorem canonical_reportAll (values : List Diagnostic) (h : ∀ value ∈ values, CanonicalDiagnostic value) :
    Keeps (CanonicalRun start) (reportAll faults values) fun _ => True := by
  induction values with
  | nil => exact Keeps.pure trivial
  | cons value values ih =>
    rw [reportAll]
    exact canonical_reporting (h value List.mem_cons_self) (ih fun v hv => h v (List.mem_cons_of_mem _ hv))

theorem canonical_extractArtifacts (module : ModuleAnswers Position) (options : ExtractionOptions) (root : Bytes)
    (files : List Bytes) :
    Keeps (CanonicalRun start) (extractArtifacts faults env module options root files) fun _ => True := by
  have hfound : CanonicalDiscovery (discoverArtifacts env.discovery env.sort root (artifactDataPath module) files) :=
    canonical_discoverArtifacts (fun candidates => (env.sorting candidates).perm) root files
  unfold extractArtifacts
  apply Keeps.bind canonical_step
  intro _ _
  apply Keeps.bind (canonical_reportAll _ hfound.2)
  intro _ _
  have hroles : ∀ c ∈ (discoverArtifacts env.discovery env.sort root (artifactDataPath module) files).1.zipIdx.map
      (fun c => (c.1, env.inspection c.2)), ∃ t, Utf8.decode c.1.role = some t := by
    intro c hc
    obtain ⟨pair, hpair, rfl⟩ := List.mem_map.mp hc
    exact hfound.1 pair.1 (List.fst_mem_of_mem_zipIdx hpair)
  apply Keeps.bind (canonical_onSession (canonical_emitArtifacts options.artifactChunkSize hroles))
  intro result _
  exact Keeps.modify fun s hs => hs

theorem canonical_extractBody (fuel : Nat) (options : ExtractionOptions) (root : Bytes) :
    Keeps (CanonicalRun start) (extractBody faults env fuel options root) fun _ => True := by
  unfold extractBody
  apply Keeps.bind canonical_step
  intro _ _
  cases env.getModule options.moduleName with
  | none =>
    have hmissing : CanonicalDiagnostic (moduleNotFound options.moduleName) :=
      canonicalDiagnostic_error (by decide) (canonicalFields_bytes "module" (by decide) _ canonicalFields_nil)
    apply canonical_reporting hmissing
    apply Keeps.bind (canonical_finishRun false)
    intro _ _
    exact Keeps.pure trivial
  | some module =>
    dsimp only
    unfold extractFound
    apply Keeps.bind (canonical_record _ (canonicalFields_module env.sword module))
    intro _ _
    have htype : Keeps (CanonicalRun start) (checkType faults env module) fun _ => True := by
      unfold checkType
      split_ifs
      · apply canonical_report
        exact canonicalDiagnostic_warning (by decide)
          (canonicalFields_bytes "sword_type" (by decide) _ canonicalFields_nil)
      · exact Keeps.pure trivial
    apply Keeps.bind htype
    intro _ _
    apply Keeps.bind (canonical_findConfigurationFiles env.configuration)
    intro files _
    have hfiles : Keeps (CanonicalRun start) (checkFiles faults files) fun _ => True := by
      unfold checkFiles
      split_ifs
      · exact canonical_report (canonicalDiagnostic_warning (by decide) canonicalFields_nil)
      · exact Keeps.pure trivial
    apply Keeps.bind hfiles
    intro _ _
    apply Keeps.bind (canonical_emitConfigurationSources _ files 0 0)
    intro _ _
    apply Keeps.bind (canonical_emitInterpretedConfiguration module.config 0)
    intro _ _
    apply Keeps.bind (canonical_emitEntries fuel)
    intro success _
    cases success with
    | none => exact Keeps.pure trivial
    | some success =>
      apply Keeps.bind (canonical_extractArtifacts module options root files)
      intro _ _
      exact Keeps.pure trivial

theorem canonical_guarded {α : Type} {code : String} (hcode : ∀ x ∈ text code, x < 0x80) {body : Run α}
    (hbody : Keeps (CanonicalRun start) body fun _ => True) (behind : α) :
    Keeps (CanonicalRun start) (guarded faults code body behind) fun _ => True := by
  apply Keeps.tryCatch hbody
  intro e
  apply Keeps.bind (canonical_emitDiagnostic ?_)
  · intro _ _
    exact Keeps.pure trivial
  · exact ⟨⟨_, decode_literal (by decide)⟩, ⟨_, decode_literal hcode⟩, canonicalFields_fieldsOf canonicalFields_nil⟩

theorem canonical_close : Keeps (CanonicalRun start) (GetBibleSword.Core.close faults) fun _ => True := by
  unfold GetBibleSword.Core.close
  apply Keeps.bind Keeps.get
  intro s _
  apply Keeps.bind (canonical_finishRun _)
  intro _ _
  exact Keeps.pure trivial

theorem canonical_refuseRoot (detail : Bytes) : Keeps (CanonicalRun start) (refuseRoot faults detail) fun _ => True := by
  have hinvalid : CanonicalDiagnostic (swordRootInvalid detail) :=
    canonicalDiagnostic_error (by decide) (canonicalFields_bytes "detail" (by decide) _ canonicalFields_nil)
  unfold refuseRoot
  apply canonical_reporting hinvalid
  apply Keeps.bind (canonical_finishRun false)
  intro _ _
  exact Keeps.pure trivial

theorem canonical_extractModule (fuel : Nat) (options : ExtractionOptions) :
    Keeps (CanonicalRun start) (extractModule faults env fuel options) fun _ => True := by
  unfold extractModule
  apply Keeps.bind (canonical_record _ (canonicalFields_header env.sword (by decide) _))
  intro _ _
  apply Keeps.bind canonical_step
  intro _ _
  cases env.canonicalRoot options.swordPath with
  | error detail =>
    apply Keeps.bind (canonical_refuseRoot detail)
    intro _ _
    exact Keeps.pure trivial
  | ok root =>
    apply Keeps.bind (canonical_guarded (by decide) (canonical_extractBody fuel options root) _)
    intro ending _
    cases ending with
    | returned => exact Keeps.pure trivial
    | diverged => exact Keeps.pure trivial
    | finished =>
      apply Keeps.bind canonical_close
      intro _ _
      exact Keeps.pure trivial

theorem canonical_emitModules (modules : List (ModuleAnswers Position)) :
    Keeps (CanonicalRun start) (emitModules faults env modules) fun _ => True := by
  induction modules with
  | nil => exact Keeps.pure trivial
  | cons module modules ih =>
    rw [emitModules]
    apply Keeps.bind (canonical_record _ (canonicalFields_module env.sword module))
    intro _ _
    exact ih

theorem canonical_listModules (swordPath : Bytes) :
    Keeps (CanonicalRun start) (listModules faults env swordPath) fun _ => True := by
  unfold listModules
  apply Keeps.bind (canonical_record _ (canonicalFields_header env.sword (by decide) 0))
  intro _ _
  apply Keeps.bind canonical_step
  intro _ _
  cases env.canonicalRoot swordPath with
  | error detail => exact canonical_refuseRoot detail
  | ok root =>
    have hbody : Keeps (CanonicalRun start) (do
        onSession (mayThrow faults .extraction)
        emitModules faults env env.modules) fun _ => True := by
      apply Keeps.bind canonical_step
      intro _ _
      exact canonical_emitModules env.modules
    apply Keeps.bind (canonical_guarded (by decide) hbody ())
    intro _ _
    exact canonical_close

/-- However a listing or an extraction ends, what it has written are canonical lines. -/
theorem output_canonical (faults : Faults) (env : Environment Position) (fuel : Nat) (options : ExtractionOptions)
    (swordPath : Bytes) (output : OStream) :
    CanonicalOutput output.written
        (final (extractModule faults env fuel options) (Extraction.start output)).session.writer.output ∧
      CanonicalOutput output.written
        (final (listModules faults env swordPath) (Extraction.start output)).session.writer.output := by
  have hstart : CanonicalRun output.written (Extraction.start output) :=
    ⟨canonical_start output, fun e he => absurd he List.not_mem_nil⟩
  exact ⟨((canonical_extractModule fuel options).final hstart).1, ((canonical_listModules swordPath).final hstart).1⟩

end Functions

end GetBibleSword.Tool
