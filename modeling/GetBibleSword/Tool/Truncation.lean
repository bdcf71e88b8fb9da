import GetBibleSword.Tool.Failure

/-!
# The record limit, and truncation

* `Validator.limited` : the object under another limit; `validateLines_limited` : what it accepts under one it accepts
  under any other that no line exceeds;
* `validate_limit_iff` : what a smaller limit refuses;
* `ReadAs.prefix` : what the lines in front of others are read as; `accepted_not_extended` : nothing can be put behind
  an accepted stream, and nothing left out at its end.
-/

namespace GetBibleSword.Tool
open GetBibleSword.Lib

/-! ## The limit -/

/-- The object under another limit. -/
def Validator.limited (v : Validator) (maximumRecordBytes : Nat) : Validator :=
  { v with maximumRecordBytes := maximumRecordBytes }

section Limit
variable {v w : Validator} {m m' sequence line : Nat} {rawLine : Bytes} {type : RecordType} {record : Dict} {item : Item}

theorem IsRecord.limited (h : IsRecord m sequence rawLine type record) (hshort : rawLine.length ≤ m') :
    IsRecord m' sequence rawLine type record :=
  { h with limit := hshort }

theorem admits_limited : (v.limited m').Admits item ↔ v.Admits item := by
  cases item
  all_goals rfl

theorem next_limited : (v.limited m').next rawLine record item = (v.next rawLine record item).limited m' := by
  cases item
  all_goals rfl

theorem trueOf_limited {f : FooterFields} (h : f.TrueOf v) : f.TrueOf (v.limited m') :=
  ⟨h.streamSha256, h.counts, h.entries, h.artifacts, h.artifactBytes, h.diagnostics, h.success⟩

theorem validateLine_limited (h : v.validateLine rawLine line = .ok w) (hshort : rawLine.length ≤ m') :
    (v.limited m').validateLine rawLine line = .ok (w.limited m') := by
  rcases Validator.validateLine_eq_ok.mp h with
    ⟨type, record, item, hrecord, htype, hitem, hfooter, hadmits, rfl⟩ |
      ⟨record, f, hrecord, hfields, hheader, hfooter, hactive, htrue, rfl⟩
  · exact Validator.validateLine_eq_ok.mpr (.inl ⟨type, record, item, hrecord.limited hshort, htype, hitem, hfooter,
      admits_limited.mpr hadmits, next_limited.symm⟩)
  · exact Validator.validateLine_eq_ok.mpr (.inr ⟨record, f, hrecord.limited hshort, hfields, hheader, hfooter,
      hactive, trueOf_limited htrue, rfl⟩)

theorem validateLines_limited (rawLines : List Bytes) : ∀ {v w : Validator} {line : Nat},
    v.validateLines line rawLines = .ok w → (∀ rawLine ∈ rawLines, rawLine.length ≤ m') →
    (v.limited m').validateLines line rawLines = .ok (w.limited m') := by
  induction rawLines with
  | nil =>
    intro v w line h _
    rw [← Except.ok.inj h]
    rfl
  | cons rawLine rawLines ih =>
    intro v w line h hshort
    rw [Validator.validateLines, bind_eq_ok] at h ⊢
    obtain ⟨u, hline, hrest⟩ := h
    exact ⟨u.limited m', validateLine_limited hline (hshort rawLine List.mem_cons_self),
      ih hrest fun l hl => hshort l (List.mem_cons_of_mem _ hl)⟩

end Limit

/-! ## Lines -/

section Lines
variable {m m' : Nat} {input : Bytes} {summary : ValidationSummary}

/-- The lines that are validated are those of the file. -/
theorem rawLines_of_validate (h : validate m input = .ok summary) :
    fileLines input = rawLines input.length (m + 1) input := by
  obtain ⟨-, events, hread⟩ := validate_reads h
  exact fileLines_of_reads hread

theorem terminated_of_validate (h : validate m input = .ok summary) :
    fileLines input = terminated (bodies input) ∧ (terminated (bodies input)).flatten = input ∧
      ∀ body ∈ bodies input, lf ∉ body := by
  obtain ⟨-, events, hread⟩ := validate_reads h
  obtain ⟨records, hlines, -, -⟩ := hread.records
  obtain ⟨hraw, -⟩ := streamOf_rawLines (Nat.succ_ne_zero m) (Nat.le_refl _) hlines
  refine ⟨(rawLines_of_validate h).trans hraw, ?_, fun body hbody => ?_⟩
  · rw [← hraw, flatten_rawLines (Nat.succ_ne_zero m) _ (Nat.le_refl _)]
  · have hmem : body ++ [lf] ∈ terminated (bodies input) := List.mem_map_of_mem hbody
    rw [← hraw] at hmem
    have hfree := lf_notMem_rawLines _ _ hmem
    rwa [List.dropLast_concat] at hfree

/-- A limit that no line exceeds splits the stream in the same way. -/
theorem rawLines_limit (h : validate m input = .ok summary) (hshort : ∀ line ∈ fileLines input, line.length ≤ m') :
    rawLines input.length (m' + 1) input = fileLines input := by
  obtain ⟨hlines, hinput, hfree⟩ := terminated_of_validate h
  have hread : rawLines (terminated (bodies input)).flatten.length (m' + 1) (terminated (bodies input)).flatten =
      terminated (bodies input) := by
    refine rawLines_terminated (bodies input) (length_terminated _) fun body hbody => ⟨hfree body hbody, ?_⟩
    have hmem : body ++ [lf] ∈ fileLines input := by
      rw [hlines]
      exact List.mem_map_of_mem hbody
    have hle := hshort _ hmem
    rw [List.length_append] at hle
    exact Nat.lt_succ_of_lt hle
  rwa [hinput, ← hlines] at hread

theorem ReadAs.length_le {sequence : Nat} {rawLines : List Bytes} {events : List Event}
    (h : ReadAs m sequence rawLines events) : ∀ line ∈ rawLines, line.length ≤ m := by
  induction h with
  | nil => exact fun line hline => absurd hline List.not_mem_nil
  | item hrecord _ _ _ ih =>
    intro line hline
    rcases List.mem_cons.mp hline with rfl | hline
    · exact hrecord.limit
    · exact ih line hline
  | footer hrecord _ _ ih =>
    intro line hline
    rcases List.mem_cons.mp hline with rfl | hline
    · exact hrecord.limit
    · exact ih line hline

theorem short_of_validate (h : validate m input = .ok summary) : ∀ line ∈ fileLines input, line.length ≤ m := by
  obtain ⟨-, events, hread⟩ := validate_reads h
  rw [fileLines_of_reads hread]
  exact hread.length_le

theorem validate_relimited (hlimit : 1024 ≤ m') (h : validate m input = .ok summary)
    (hshort : ∀ line ∈ fileLines input, line.length ≤ m') : validate m' input = .ok summary := by
  have hlines := rawLines_of_validate h
  have hlines' := rawLines_limit h hshort
  unfold validate at h ⊢
  simp only [bind_eq_ok] at h ⊢
  obtain ⟨v, hnew, w, hvalidated, hsummary⟩ := h
  have hnew' : Validator.new m' = .ok (v.limited m') := by
    unfold Validator.new at hnew ⊢
    split_ifs at hnew
    rw [if_neg (Nat.not_lt.mpr hlimit), ← Except.ok.inj hnew]
    rfl
  rw [← hlines] at hvalidated hsummary
  rw [hlines']
  exact ⟨_, hnew', _, validateLines_limited _ hvalidated hshort, hsummary⟩

theorem validate_mono (hle : m ≤ m') (h : validate m input = .ok summary) : validate m' input = .ok summary :=
  validate_relimited ((validate_reads h).1.trans hle) h fun line hline => (short_of_validate h line hline).trans hle

/-- A smaller limit refuses exactly the streams with a longer line, and leaves the summary of the others. -/
theorem validate_limit_iff (hlimit : 1024 ≤ m') (hle : m' ≤ m) :
    validate m' input = .ok summary ↔
      validate m input = .ok summary ∧ ∀ line ∈ fileLines input, line.length ≤ m' := by
  refine ⟨fun h => ?_, fun h => validate_relimited hlimit h.1 h.2⟩
  have hshort := short_of_validate h
  exact ⟨validate_mono hle h, hshort⟩

theorem validate_limit_iff_oneFile : ∃ summary, validate 4096 (artifactStream oneFile) = .ok summary ∧
    ∀ line ∈ fileLines (artifactStream oneFile), line.length ≤ 1024 := by
  obtain ⟨summary, hvalid, -⟩ := @exists_oneFile
  exact ⟨summary, (validate_limit_iff (by decide) (by decide : 1024 ≤ 4096)).mp hvalid⟩

end Lines

/-! ## Truncation -/

section Truncation
variable {m m' : Nat} {first last : Bytes} {summary summary' : ValidationSummary}

/-- The lines in front are read as the events in front. -/
theorem ReadAs.prefix {sequence : Nat} {rawLines : List Bytes} {events : List Event}
    (h : ReadAs m sequence rawLines events) : ∀ {more : List Bytes} {events' : List Event},
    ReadAs m sequence (rawLines ++ more) events' →
    ∃ rest, events' = events ++ rest ∧ ReadAs m (sequence + rawLines.length) more rest := by
  induction h with
  | nil => exact fun h' => ⟨_, rfl, h'⟩
  | @item sequence rawLine type record item rawLines events hrecord htype hitem _ ih =>
    intro more events' h'
    cases h' with
    | item hrecord' _ hitem' hrest =>
      obtain ⟨rfl, rfl⟩ := hrecord.unique hrecord'
      obtain rfl := Except.ok.inj (hitem.symm.trans hitem')
      obtain ⟨rest, rfl, hmore⟩ := ih hrest
      refine ⟨rest, rfl, ?_⟩
      rwa [List.length_cons, Nat.add_comm rawLines.length, ← Nat.add_assoc]
    | footer hrecord' _ _ => exact absurd (hrecord.unique hrecord').1 htype
  | @footer sequence rawLine record fields rawLines events hrecord hfields _ ih =>
    intro more events' h'
    cases h' with
    | item hrecord' htype' _ _ => exact absurd (hrecord'.unique hrecord).1 htype'
    | footer hrecord' hfields' hrest =>
      obtain ⟨-, rfl⟩ := hrecord.unique hrecord'
      obtain rfl := Except.ok.inj (hfields.symm.trans hfields')
      obtain ⟨rest, rfl, hmore⟩ := ih hrest
      refine ⟨rest, rfl, ?_⟩
      rwa [List.length_cons, Nat.add_comm rawLines.length, ← Nat.add_assoc]

/-- Lines in front of something: the lines of the whole. -/
theorem terminated_prefix (as : List Bytes) : ∀ {bs : List Bytes} {last : Bytes}, (∀ a ∈ as, lf ∉ a) →
    (∀ b ∈ bs, lf ∉ b) → (terminated as).flatten ++ last = (terminated bs).flatten →
    ∃ cs, bs = as ++ cs ∧ last = (terminated cs).flatten := by
  induction as with
  | nil => exact fun _ _ h => ⟨_, rfl, h⟩
  | cons a as ih =>
    intro bs last has hbs h
    cases bs with
    | nil => simp [terminated] at h
    | cons b bs =>
      have hline : a ++ lf :: ((terminated as).flatten ++ last) = b ++ lf :: (terminated bs).flatten := by
        simpa [terminated] using h
      have hread := readline_line (has a List.mem_cons_self) ((terminated as).flatten ++ last)
        (by omega : a.length < a.length + b.length + 1)
      rw [hline, readline_line (hbs b List.mem_cons_self) _ (by omega)] at hread
      obtain ⟨hbody, hrest⟩ := Prod.mk.inj hread
      obtain rfl := List.append_cancel_right hbody
      obtain ⟨cs, rfl, hlast⟩ := ih (fun x hx => has x (List.mem_cons_of_mem _ hx))
        (fun x hx => hbs x (List.mem_cons_of_mem _ hx)) hrest.symm
      exact ⟨cs, rfl, hlast⟩

/-- No accepted stream is the start of another one, whatever the limits: a stream that has lost its end is
refused, and so is one with something behind its footer. -/
theorem accepted_not_extended (h : validate m first = .ok summary) (h' : validate m' (first ++ last) = .ok summary') :
    last = [] := by
  -- both under the larger limit
  have hboth : validate (max m m') first = .ok summary := validate_mono (le_max_left m m') h
  have hboth' : validate (max m m') (first ++ last) = .ok summary' := validate_mono (le_max_right m m') h'
  obtain ⟨hlines, hfirst, hfree⟩ := terminated_of_validate hboth
  obtain ⟨hlines', hwhole, hfree'⟩ := terminated_of_validate hboth'
  obtain ⟨cs, hbodies, hlast⟩ := terminated_prefix (bodies first) hfree hfree' (by rw [hfirst, hwhole])
  obtain ⟨fields, items, f, t, hv⟩ := validated_of_validate hboth
  obtain ⟨fields', items', f', t', hv'⟩ := validated_of_validate hboth'
  have hread := hv.reads
  have hread' := hv'.reads
  rw [← rawLines_of_validate hboth, hlines] at hread
  rw [← rawLines_of_validate hboth', hlines', hbodies, terminated, List.map_append] at hread'
  obtain ⟨rest, hevents, hmore⟩ := hread.prefix hread'
  rw [List.append_assoc, List.singleton_append] at hevents
  obtain ⟨-, -, hrest⟩ := split_unique hevents
  rw [← hrest] at hmore
  have hnil := hmore.eq_nil_iff.mpr rfl
  rw [hlast, terminated, hnil]
  rfl

theorem accepted_not_extended_oneFile : ∃ summary, validate 1024 (artifactStream oneFile) = .ok summary ∧
    ∀ last summary', validate 4096 (artifactStream oneFile ++ last) = .ok summary' → last = [] := by
  obtain ⟨summary, hvalid, -⟩ := @exists_oneFile
  exact ⟨summary, hvalid, fun _ _ hvalid' => accepted_not_extended hvalid hvalid'⟩

end Truncation

end GetBibleSword.Tool
