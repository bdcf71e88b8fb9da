import GetBibleSword.Tool.Acceptance

/-!
# The exit status of `validate`

* `mainValidate`, `exitStatus` : the command;
* `bodies`, `validateLines_reads` : an accepted stream is LF-terminated lines, each read as an event;
* `Verified` : every byte value in a JSON value is one (`validateEmbeddedByteValues_eq_ok`);
* `MeetsRules` : what the documents ask a consumer to check; `GateCondition` : when a stream that exits
  zero meets all of it (`exit_zero_meetsRules_iff`).
-/

namespace GetBibleSword.Tool
open GetBibleSword.Lib
open GetBibleSword.Core (JsonFields jsonString byteValueJson)

/-! ## The command -/

/-- What `main` prints on standard output. -/
inductive Output where
  | text (message : Message)
  | json (members : List (String × Json))

def commandText (command : Option Command) : String := (command.map Command.name).getD ""

def summaryText (summary : ValidationSummary) : Message :=
  [.lit "valid ", .lit contract, .lit ": command=", .lit (commandText summary.command),
    .lit ", records=", .int summary.records, .lit ", modules=", .int summary.modules,
    .lit ", entries=", .int summary.entries, .lit ", artifacts=", .int summary.artifacts.length,
    .lit ", artifact_bytes=", .int summary.artifactBytes,
    .lit ", success=", .lit (if summary.success then "true" else "false")]

/-- The members of the JSON summary, sorted by name. -/
def summaryJson (summary : ValidationSummary) : List (String × Json) :=
  [("artifact_bytes", .int summary.artifactBytes),
    ("artifacts", .int summary.artifacts.length),
    ("command", .str (text (commandText summary.command))),
    ("contract", .str (text contract)),
    ("diagnostics", .obj ((severities.filter fun severity => summary.diagnostics severity ≠ 0).map
      fun severity => (text severity.name, .int (summary.diagnostics severity)))),
    ("entries", .int summary.entries),
    ("modules", .int summary.modules),
    ("producer_version", .str summary.producerVersion),
    ("records", .int summary.records),
    ("stream_sha256", .str summary.streamSha256),
    ("success", .bool summary.success),
    ("sword_version", .str summary.swordVersion)]

/-- An exception on the way out of `main`: `ContractError` and `OSError` are caught there. -/
inductive MainError where
  | py (e : PyError)
  | os

/-- `main(["validate", input])`, with the octets of the input or the failure to read them. -/
def mainValidate (maximumRecordBytes : Nat) (json : Bool) (source : Option Bytes) :
    Except MainError Output :=
  match source with
  | none => .error .os
  | some input =>
    match validate maximumRecordBytes input with
    | .error e => .error (.py e)
    | .ok summary => .ok (if json then .json (summaryJson summary) else .text (summaryText summary))

/-- The exit status: `main` returns one for a caught exception, and the interpreter exits with one on
any other. -/
def exitStatus {α : Type} : Except MainError α → Nat
  | .ok _ => 0
  | .error _ => 1

theorem exitStatus_mainValidate {maximumRecordBytes : Nat} {json : Bool} {source : Option Bytes} :
    exitStatus (mainValidate maximumRecordBytes json source) = 0 ↔
      ∃ input summary, source = some input ∧ validate maximumRecordBytes input = .ok summary := by
  cases source with
  | none => simp [mainValidate, exitStatus]
  | some input => cases h : validate maximumRecordBytes input <;> simp [mainValidate, exitStatus, h]

/-! ## The lines of an accepted stream -/

/-- The lines of a stream, each without its LF; what follows the last LF is not one of them. -/
def bodies (input : Bytes) : List Bytes := (input.splitOn lf).dropLast

theorem bodies_terminated (bs : List Bytes) (h : ∀ b ∈ bs, lf ∉ b) : bodies (terminated bs).flatten = bs := by
  have hsplit : (terminated bs).flatten.splitOn lf = bs ++ [[]] := by
    induction bs with
    | nil => rfl
    | cons b bs ih =>
      have hflat : (terminated (b :: bs)).flatten = b ++ lf :: (terminated bs).flatten := by
        simp [terminated]
      rw [hflat, List.splitOn_append_cons_self, List.splitOn_eq_singleton (h b (by simp)),
        ih fun x hx => h x (List.mem_cons_of_mem _ hx), List.singleton_append, List.cons_append]
  rw [bodies, hsplit, List.dropLast_concat]

theorem readline_append (size : Nat) : ∀ input, (readline size input).1 ++ (readline size input).2 = input := by
  induction size with
  | zero => intro input; rfl
  | succ size ih =>
    intro input
    cases input with
    | nil => rfl
    | cons byte input =>
      rw [readline]
      split_ifs
      · rfl
      · exact congrArg (byte :: ·) (ih input)

theorem lf_notMem_readline (size : Nat) : ∀ input, lf ∉ (readline size input).1.dropLast := by
  induction size with
  | zero => intro input; simp [readline]
  | succ size ih =>
    intro input
    cases input with
    | nil => simp [readline]
    | cons byte input =>
      rw [readline]
      split_ifs with h
      · simp
      · have := ih input
        cases hline : (readline size input).1 with
        | nil => simp [hline]
        | cons x xs =>
          rw [hline] at this
          simpa [hline, eq_comm, h] using this

theorem readline_ne_nil {size : Nat} (h : size ≠ 0) {input : Bytes} (hinput : input ≠ []) :
    (readline size input).1 ≠ [] := by
  obtain ⟨n, rfl⟩ := Nat.exists_eq_succ_of_ne_zero h
  cases input with
  | nil => exact absurd rfl hinput
  | cons byte input =>
    rw [readline]
    split_ifs <;> simp

/-- All the lines the loop reads are the input. -/
theorem flatten_rawLines {size : Nat} (hsize : size ≠ 0) (fuel : Nat) : ∀ {input : Bytes},
    input.length ≤ fuel → (rawLines fuel size input).flatten = input := by
  induction fuel with
  | zero =>
    intro input h
    exact (List.length_eq_zero_iff.mp (Nat.le_zero.mp h)).symm
  | succ fuel ih =>
    intro input h
    have happend := readline_append size input
    rw [rawLines]
    split_ifs with hnil
    · by_contra hinput
      exact readline_ne_nil hsize (Ne.symm hinput) hnil
    · rw [List.flatten_cons, ih, happend]
      have hlength := congrArg List.length happend
      have hpos := List.length_pos_iff.mpr hnil
      rw [List.length_append] at hlength
      omega

theorem lf_notMem_rawLines {size : Nat} (fuel : Nat) : ∀ {input : Bytes},
    ∀ rawLine ∈ rawLines fuel size input, lf ∉ rawLine.dropLast := by
  induction fuel with
  | zero => intro input rawLine h; cases h
  | succ fuel ih =>
    intro input rawLine h
    rw [rawLines] at h
    split_ifs at h with hnil
    · cases h
    · rcases List.mem_cons.mp h with rfl | h
      · exact lf_notMem_readline size input
      · exact ih rawLine h

/-- Lines the loop accepts are read as events, one by one. -/
theorem validateLines_reads {rawLines : List Bytes} : ∀ {v v' : Validator},
    v.validateLines v.sequence rawLines = .ok v' →
    ∃ events, ReadAs v.maximumRecordBytes v.sequence rawLines events := by
  induction rawLines with
  | nil => exact fun {v v'} _ => ⟨[], .nil _⟩
  | cons rawLine rawLines ih =>
    intro v v' h
    rw [Validator.validateLines, bind_eq_ok] at h
    obtain ⟨w, hw, hrest⟩ := h
    rcases Validator.validateLine_eq_ok.mp hw with
      ⟨type, record, item, hrecord, htype, hitem, -, -, rfl⟩ | ⟨record, f, hrecord, hf, -, -, -, -, rfl⟩
    · have hsequence : (v.next rawLine record item).sequence = v.sequence + 1 := by cases item <;> rfl
      have hlimit : (v.next rawLine record item).maximumRecordBytes = v.maximumRecordBytes := by
        cases item <;> rfl
      obtain ⟨events, hevents⟩ := ih (hsequence ▸ hrest)
      rw [hsequence, hlimit] at hevents
      exact ⟨.item item :: events, .item hrecord htype hitem hevents⟩
    · obtain ⟨events, hevents⟩ := ih hrest
      exact ⟨.footer f :: events, .footer hrecord hf hevents⟩

theorem validate_reads {maximumRecordBytes : Nat} {input : Bytes} {summary : ValidationSummary}
    (h : validate maximumRecordBytes input = .ok summary) : 1024 ≤ maximumRecordBytes ∧
      ∃ events, ReadAs maximumRecordBytes 0 (rawLines input.length (maximumRecordBytes + 1) input) events := by
  simp only [validate, bind_eq_ok] at h
  obtain ⟨v, hnew, v', hv, -⟩ := h
  have hlimit : 1024 ≤ maximumRecordBytes := by
    by_contra hlt
    rw [Validator.new, if_pos (by omega)] at hnew
    cases hnew
  obtain ⟨hmax, hsequence, -, -⟩ := new_eq_ok hnew
  rw [← hsequence] at hv
  obtain ⟨events, hread⟩ := validateLines_reads hv
  rw [hmax, hsequence] at hread
  exact ⟨hlimit, events, hread⟩

/-! ## Embedded byte values -/

/-- `"base64" in value or value.get("encoding") == "base64"`. -/
def IsEnvelope (d : Dict) : Prop :=
  (dictGet d "base64").isSome = true ∨ dictGet d "encoding" = some (.str (text "base64"))

/-- Every object that looks like a byte value, however deep, is the byte value of some octets. -/
inductive Verified : Json → Prop where
  | envelope {d : Dict} {b : Bytes} : IsEnvelope d → IsByteValue d b → Verified (.obj d)
  | members {d : Dict} : ¬ IsEnvelope d → (∀ m ∈ d, Verified m.2) → Verified (.obj d)
  | elements {xs : List Json} : (∀ x ∈ xs, Verified x) → Verified (.arr xs)
  | scalar {value : Json} : (∀ d, value ≠ .obj d) → (∀ xs, value ≠ .arr xs) → Verified value

theorem verified_obj {d : Dict} : Verified (.obj d) ↔
    (IsEnvelope d ∧ ∃ b, IsByteValue d b) ∨ (¬ IsEnvelope d ∧ ∀ m ∈ d, Verified m.2) := by
  refine ⟨fun h => ?_, ?_⟩
  · cases h with
    | envelope hlooks hvalue => exact .inl ⟨hlooks, _, hvalue⟩
    | members hlooks hmembers => exact .inr ⟨hlooks, hmembers⟩
    | scalar hobj _ => exact absurd rfl (hobj d)
  · rintro (⟨hlooks, b, hvalue⟩ | ⟨hlooks, hmembers⟩)
    · exact .envelope hlooks hvalue
    · exact .members hlooks hmembers

theorem verified_arr {xs : List Json} : Verified (.arr xs) ↔ ∀ x ∈ xs, Verified x := by
  refine ⟨fun h => ?_, .elements⟩
  cases h with
  | elements helements => exact helements
  | scalar _ harr => exact absurd rfl (harr xs)

mutual

theorem validateEmbeddedByteValues_eq_ok (context : Message) (line : Nat) : ∀ (value : Json) {u : Unit},
    validateEmbeddedByteValues context line value = .ok u ↔ Verified value
  | .obj d, u => by
    rw [validateEmbeddedByteValues, verified_obj]
    split_ifs with h
    · have hlooks : IsEnvelope d := by simpa [IsEnvelope, dictGet] using h
      simp [hlooks, decodeByteValue_eq_ok]
    · have hlooks : ¬ IsEnvelope d := by simpa [IsEnvelope, dictGet] using h
      rw [embeddedMembers_eq_ok context line d]
      simp [hlooks]
  | .arr xs, u => by
    rw [validateEmbeddedByteValues, embeddedElements_eq_ok context line 0 xs, verified_arr]
  | .str t, u => by
    simp only [validateEmbeddedByteValues, true_iff]
    exact .scalar nofun nofun
  | .int i, u => by
    simp only [validateEmbeddedByteValues, true_iff]
    exact .scalar nofun nofun
  | .float x, u => by
    simp only [validateEmbeddedByteValues, true_iff]
    exact .scalar nofun nofun
  | .bool b, u => by
    simp only [validateEmbeddedByteValues, true_iff]
    exact .scalar nofun nofun
  | .null, u => by
    simp only [validateEmbeddedByteValues, true_iff]
    exact .scalar nofun nofun

theorem embeddedMembers_eq_ok (context : Message) (line : Nat) : ∀ (d : List (Text × Json)) {u : Unit},
    embeddedMembers context line d = .ok u ↔ ∀ m ∈ d, Verified m.2
  | [], u => by simp [embeddedMembers]
  | (name, child) :: rest, u => by
    rw [embeddedMembers, bind_eq_ok]
    simp only [validateEmbeddedByteValues_eq_ok _ line child, embeddedMembers_eq_ok context line rest,
      exists_const, List.forall_mem_cons]

theorem embeddedElements_eq_ok (context : Message) (line : Nat) : ∀ (index : Nat) (xs : List Json) {u : Unit},
    embeddedElements context line index xs = .ok u ↔ ∀ x ∈ xs, Verified x
  | index, [], u => by simp [embeddedElements]
  | index, child :: rest, u => by
    rw [embeddedElements, bind_eq_ok]
    simp only [validateEmbeddedByteValues_eq_ok _ line child,
      embeddedElements_eq_ok context line (index + 1) rest, exists_const, List.forall_mem_cons]

end

/-! ## The rules -/

/-- A record that passes its own checks as this item. -/
def ReadsAs (record : Dict) (item : Item) : Prop :=
  dictGet record "type" = some (.str (text item.type.name)) ∧ ∃ line, itemOf item.type record line = .ok item

/-- The lines of a stream are LF-terminated and hold these objects. -/
structure StreamOf (input : Bytes) (records : List Dict) : Prop where
  lines : input = (terminated (bodies input)).flatten
  objects : List.Forall₂ (fun body record => parseJson body = .ok (.obj record)) (bodies input) records

/-- The acceptance rules for the objects of a stream. -/
structure MeetsRules (input : Bytes) (records : List Dict) : Prop extends StreamOf input records where
  contract : ∃ header rest, records = header :: rest ∧
    dictGet header "contract" = some (.str (text contract)) ∧
    dictGet header "contract_version" = some (.int 1)
  sequence : ∀ (i : Nat) record, records[i]? = some record → dictGet record "sequence" = some (.int i)
  envelopes : ∀ record ∈ records, Verified (.obj record)
  groups : ∃ fields items, List.Forall₂ ReadsAs records.dropLast (.header fields :: items) ∧ Body fields items
  footer : ∃ before footer, records = before ++ [footer] ∧
    (∀ record ∈ before, dictGet record "type" ≠ some (.str (text "footer"))) ∧
    dictGet footer "type" = some (.str (text "footer")) ∧
    dictGet footer "stream_sha256" =
      some (.str (Sha256.hexdigest (terminated (bodies input).dropLast).flatten)) ∧
    dictGet footer "success" = some (.bool true)

/-- What the exit status leaves unchecked: the type of the version, the success the footer declares, and the
byte values inside the footer. -/
structure GateCondition (records : List Dict) : Prop where
  version : ∀ header ∈ records.head?, ∃ i, dictGet header "contract_version" = some (.int i)
  success : ∀ footer ∈ records.getLast?, dictGet footer "success" ≠ some (.bool false)
  envelopes : ∀ footer ∈ records.getLast?, Verified (.obj footer)

/-- What one line was read as. -/
def EventOf (record : Dict) : Event → Prop
  | .item item => ReadsAs record item
  | .footer f => dictGet record "type" = some (.str (text "footer")) ∧ ∃ line, footerFields record line = .ok f

theorem sequence_cons {record : Dict} {records : List Dict} {sequence : Nat}
    (h : dictGet record "sequence" = some (.int sequence))
    (hrest : ∀ i record, records[i]? = some record →
      dictGet record "sequence" = some (.int (sequence + 1 + i : Nat))) :
    ∀ i r, (record :: records)[i]? = some r → dictGet r "sequence" = some (.int (sequence + i : Nat)) := by
  intro i r hr
  cases i with
  | zero =>
    obtain rfl := Option.some.inj hr
    exact h
  | succ i =>
    rw [hrest i r hr]
    congr 3
    omega

theorem ReadAs.records {maximumRecordBytes : Nat} {sequence : Nat} {rawLines : List Bytes} {events : List Event}
    (h : ReadAs maximumRecordBytes sequence rawLines events) :
    ∃ records, List.Forall₂ (fun rawLine record => rawLine.getLast? = some lf ∧
        parseJson rawLine.dropLast = .ok (.obj record)) rawLines records ∧
      (∀ i record, records[i]? = some record →
        dictGet record "sequence" = some (.int (sequence + i : Nat))) ∧
      List.Forall₂ EventOf records events := by
  induction h with
  | nil sequence => exact ⟨[], .nil, by simp, .nil⟩
  | @item sequence rawLine type record item rawLines events hrecord htype hitem _ ih =>
    obtain ⟨records, hlines, hsequence, hevents⟩ := ih
    obtain ⟨_, hfields, hrest⟩ := bind_eq_ok.mp hitem
    obtain ⟨_, -, hsame⟩ := bind_eq_ok.mp hrest
    obtain rfl := pure_eq_ok.mp hsame
    obtain rfl := Validator.itemFields_type hfields
    refine ⟨record :: records, .cons ⟨hrecord.ends, hrecord.parses⟩ hlines, ?_,
      .cons ⟨hrecord.type, _, hitem⟩ hevents⟩
    exact sequence_cons hrecord.sequence hsequence
  | @footer sequence rawLine record f rawLines events hrecord hfields _ ih =>
    obtain ⟨records, hlines, hsequence, hevents⟩ := ih
    refine ⟨record :: records, .cons ⟨hrecord.ends, hrecord.parses⟩ hlines, ?_,
      .cons ⟨hrecord.type, _, hfields⟩ hevents⟩
    exact sequence_cons hrecord.sequence hsequence

theorem forall₂_append_right {α β : Type} {R : α → β → Prop} {ys zs : List β} : ∀ {xs : List α},
    List.Forall₂ R xs (ys ++ zs) →
    ∃ first last, xs = first ++ last ∧ List.Forall₂ R first ys ∧ List.Forall₂ R last zs := by
  induction ys with
  | nil => exact fun {xs} h => ⟨[], xs, rfl, .nil, h⟩
  | cons y ys ih =>
    intro xs h
    cases h with
    | cons hxy hrest =>
      obtain ⟨first, last, rfl, hfirst, hlast⟩ := ih hrest
      exact ⟨_ :: first, last, rfl, .cons hxy hfirst, hlast⟩

/-- The records of an accepted stream. -/
structure Accepted (input : Bytes) (before : List Dict) (footer : Dict) (fields : HeaderFields)
    (items : List Item) (f : FooterFields) : Prop where
  stream : StreamOf input (before ++ [footer])
  sequence : ∀ (i : Nat) record, (before ++ [footer])[i]? = some record →
    dictGet record "sequence" = some (.int i)
  reads : List.Forall₂ ReadsAs before (.header fields :: items)
  body : Body fields items
  type : dictGet footer "type" = some (.str (text "footer"))
  footer : ∃ line, footerFields footer line = .ok f
  declares : f.Declares (terminated (bodies input).dropLast) (.header fields :: items)

theorem terminated_of_forall₂ {lines : List Bytes} {records : List Dict}
    (h : List.Forall₂ (fun rawLine record => rawLine.getLast? = some lf ∧
      parseJson rawLine.dropLast = .ok (.obj record)) lines records) :
    lines = terminated (lines.map List.dropLast) ∧
      List.Forall₂ (fun body record => parseJson body = .ok (.obj record)) (lines.map List.dropLast) records := by
  induction h with
  | nil => exact ⟨rfl, .nil⟩
  | @cons line record lines records hline _ ih =>
    refine ⟨?_, .cons hline.2 ih.2⟩
    show line :: lines = (line.dropLast ++ [lf]) :: terminated (lines.map List.dropLast)
    rw [← ih.1, List.dropLast_append_getLast? lf hline.1]

theorem streamOf_rawLines {size fuel : Nat} {input : Bytes} {records : List Dict} (hsize : size ≠ 0)
    (hfuel : input.length ≤ fuel)
    (hlines : List.Forall₂ (fun rawLine record => rawLine.getLast? = some lf ∧
      parseJson rawLine.dropLast = .ok (.obj record)) (rawLines fuel size input) records) :
    rawLines fuel size input = terminated (bodies input) ∧ StreamOf input records := by
  obtain ⟨hterminated, hparse⟩ := terminated_of_forall₂ hlines
  have hflat := flatten_rawLines hsize fuel hfuel
  have hbodies : bodies input = (rawLines fuel size input).map List.dropLast := by
    have hfree : ∀ b ∈ (rawLines fuel size input).map List.dropLast, lf ∉ b := by
      intro b hb
      obtain ⟨rawLine, hmem, rfl⟩ := List.mem_map.mp hb
      exact lf_notMem_rawLines fuel rawLine hmem
    rw [← bodies_terminated _ hfree, ← hterminated, hflat]
  rw [hbodies]
  refine ⟨hterminated, ?_, ?_⟩
  · rw [hbodies, ← hterminated, hflat]
  · rwa [hbodies]

theorem accepted_of_validate {maximumRecordBytes : Nat} {input : Bytes} {summary : ValidationSummary}
    (h : validate maximumRecordBytes input = .ok summary) :
    ∃ before footer fields items f, Accepted input before footer fields items f := by
  obtain ⟨hlimit, events, hread⟩ := validate_reads h
  obtain ⟨⟨fields, items, f, rfl, hbody, -⟩, htrue⟩ := (validate_isOk_iff hlimit hread).mp ⟨summary, h⟩
  obtain ⟨records, hlines, hsequence, hevents⟩ := hread.records
  obtain ⟨hraw, hstream⟩ := streamOf_rawLines (by omega) (Nat.le_refl _) hlines
  have hparts : List.Forall₂ EventOf records ((Item.header fields :: items).map Event.item ++ [.footer f]) :=
    hevents
  obtain ⟨before, last, rfl, hbefore, hlast⟩ := forall₂_append_right hparts
  have hdeclares := htrue (.header fields :: items) f [] rfl
  cases hlast with
  | @cons footer _ _ _ hfooter hnil =>
    cases hnil
    refine ⟨before, footer, fields, items, f, hstream, fun i record hr => ?_,
      (List.forall₂_map_right_iff (f := Event.item)).mp hbefore, hbody, hfooter.1, hfooter.2, ?_⟩
    · simpa using hsequence i record hr
    · have hlength : (terminated (bodies input)).length = (items.length + 1) + 1 := by
        rw [← hraw, hlines.length_eq, List.length_append, hbefore.length_eq]
        simp
      rw [hraw, List.length_cons] at hdeclares
      have hdrop : terminated (bodies input).dropLast = (terminated (bodies input)).dropLast := by
        rw [terminated, List.map_dropLast, terminated]
      rw [hdrop, List.dropLast_eq_take, hlength]
      exact hdeclares

theorem ReadsAs.verified {record : Dict} {item : Item} (h : ReadsAs record item) : Verified (.obj record) := by
  obtain ⟨-, line, hitem⟩ := h
  simp only [itemOf, bind_eq_ok, pure_eq_ok] at hitem
  obtain ⟨_, -, _, hembedded, -⟩ := hitem
  exact (validateEmbeddedByteValues_eq_ok _ line _).mp hembedded

theorem ReadsAs.type_ne_footer {record : Dict} {item : Item} (h : ReadsAs record item) :
    dictGet record "type" ≠ some (.str (text "footer")) := by
  intro hfooter
  have hname := text_inj.mp (Json.str.inj (Option.some.inj (h.1.symm.trans hfooter)))
  have htype : item.type = .footer :=
    recordType_inj _ (mem_recordTypes _) _ (mem_recordTypes _) hname
  cases item <;> cases htype

theorem Accepted.header {input : Bytes} {before : List Dict} {footer : Dict} {fields : HeaderFields}
    {items : List Item} {f : FooterFields} (h : Accepted input before footer fields items f) :
    ∃ header rest, before = header :: rest ∧ dictGet header "contract" = some (.str (text contract)) ∧
      equalsOne (dictGet header "contract_version") = true := by
  have hreads := h.reads
  cases hreads with
  | @cons header _ rest _ hheader _ =>
    obtain ⟨-, line, hitem⟩ := hheader
    obtain ⟨hcontract, hversion⟩ := headerFields_members (headerFields_of_item hitem)
    exact ⟨header, rest, rfl, hcontract, hversion⟩

theorem forall₂_left {α β : Type} {R : α → β → Prop} {xs : List α} {ys : List β} (h : List.Forall₂ R xs ys) :
    ∀ x ∈ xs, ∃ y, R x y := by
  induction h with
  | nil => simp
  | cons hxy _ ih => exact List.forall_mem_cons.mpr ⟨⟨_, hxy⟩, ih⟩

/-- An accepted stream meets all the rules exactly when it meets those the validator leaves out. -/
theorem Accepted.meetsRules_iff {input : Bytes} {before : List Dict} {footer : Dict} {fields : HeaderFields}
    {items : List Item} {f : FooterFields} (h : Accepted input before footer fields items f) :
    MeetsRules input (before ++ [footer]) ↔ GateCondition (before ++ [footer]) := by
  obtain ⟨header, rest, hbefore, hcontract, hversion⟩ := h.header
  obtain ⟨line, hf⟩ := h.footer
  obtain ⟨hsuccess, hsha⟩ := footerFields_members hf
  have hhead : (before ++ [footer]).head? = some header := by simp [hbefore]
  have hlast : (before ++ [footer]).getLast? = some footer := by simp
  refine ⟨fun hrules => ⟨?_, ?_, ?_⟩, fun hgate => ?_⟩
  · obtain ⟨header', rest', hrecords, -, hone⟩ := hrules.contract
    rw [hhead]
    rintro _ ⟨⟩
    rw [hrecords] at hhead
    obtain rfl : header' = header := Option.some.inj hhead
    exact ⟨1, hone⟩
  · obtain ⟨before', footer', hrecords, -, -, -, htrue⟩ := hrules.footer
    obtain ⟨rfl, rfl⟩ := List.append_singleton_inj.mp hrecords
    rw [hlast]
    rintro _ ⟨⟩
    simp [htrue]
  · rw [hlast]
    rintro _ ⟨⟩
    exact hrules.envelopes footer (by simp)
  · refine ⟨h.stream, ⟨header, rest ++ [footer], by rw [hbefore, List.cons_append], hcontract, ?_⟩,
      h.sequence, ?_, ⟨fields, items, by rw [List.dropLast_concat]; exact h.reads, h.body⟩,
      ⟨before, footer, rfl, ?_, h.type, ?_, ?_⟩⟩
    · obtain ⟨i, hi⟩ := hgate.version header hhead
      rw [hi] at hversion ⊢
      simpa [equalsOne] using hversion
    · intro record hrecord
      rcases List.mem_append.mp hrecord with hrecord | hrecord
      · obtain ⟨item, hitem⟩ := forall₂_left h.reads record hrecord
        exact hitem.verified
      · rw [List.mem_singleton.mp hrecord]
        exact hgate.envelopes footer hlast
    · intro record hrecord
      obtain ⟨item, hitem⟩ := forall₂_left h.reads record hrecord
      exact hitem.type_ne_footer
    · rw [hsha, h.declares.streamSha256]
    · have := hgate.success footer hlast
      rw [hsuccess] at this ⊢
      simpa using this

/-- Behind a zero exit status the stream meets every rule exactly when its version is an integer, its footer
does not declare a failure, and the byte values in its footer verify. -/
theorem exit_zero_meetsRules_iff {maximumRecordBytes : Nat} {json : Bool} {source : Option Bytes}
    (h : exitStatus (mainValidate maximumRecordBytes json source) = 0) :
    ∃ input records, source = some input ∧ StreamOf input records ∧
      (MeetsRules input records ↔ GateCondition records) := by
  obtain ⟨input, summary, hsource, hvalidate⟩ := exitStatus_mainValidate.mp h
  obtain ⟨before, footer, fields, items, f, haccepted⟩ := accepted_of_validate hvalidate
  exact ⟨input, before ++ [footer], hsource, haccepted.stream, haccepted.meetsRules_iff⟩

theorem exit_zero_meetsRules_iff_headerOnly : ∃ input records, some (headerOnly .list) = some input ∧
    StreamOf input records ∧ (MeetsRules input records ↔ GateCondition records) := by
  have h : exitStatus (mainValidate 1024 false (some (headerOnly .list))) = 0 := by decide +kernel
  exact exit_zero_meetsRules_iff h

/-- A list stream that reports an error. -/
def failedList : Bytes :=
  writtenStream [headerRecord .list, diagnosticRecord [
      (ascii "code", jsonString (ascii "E")),
      (ascii "message", byteValueJson (ascii "x")),
      (ascii "severity", jsonString (ascii "error"))]]
    [(.header, 1), (.diagnostic, 1)] false (totals 0 0 0 1)

def declaresSuccess (body : Bytes) : Bool :=
  match parseJson body with
  | .ok (.obj footer) => isTrue (dictGet footer "success")
  | _ => false

/-- The failed stream is validated with exit status zero. -/
theorem failedList_exit_zero : exitStatus (mainValidate 1024 false (some failedList)) = 0 ∧
    ∀ records, ¬ MeetsRules failedList records := by
  refine ⟨by decide +kernel, fun records h => ?_⟩
  obtain ⟨before, footer, rfl, -, -, -, hsuccess⟩ := h.footer
  obtain ⟨first, last, hbodies, -, hlast⟩ := forall₂_append_right h.objects
  cases hlast with
  | @cons body _ _ _ hparse hnil =>
    cases hnil
    have hfails : (bodies failedList).getLast?.map declaresSuccess = some false := by decide +kernel
    rw [hbodies, List.getLast?_concat] at hfails
    simp [declaresSuccess, hparse, hsuccess, isTrue] at hfails

end GetBibleSword.Tool
