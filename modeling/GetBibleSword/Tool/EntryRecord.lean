import GetBibleSword.Core.Traversal
import GetBibleSword.Tool.Canonical
import GetBibleSword.Tool.Handlers

/-!
# Entry records in the validator

What `emit_entries` writes and what `_validate_entry` checks.

* `entryDict` : what the line of an entry is parsed to (`entryLine_parse`);
* `entryContent` : the checks of an entry up to that of its scope; `entryContent_ok` : they pass;
* `Explained` : an entry with a null has a diagnostic with its ordinal before it;
* `entries_agree` : both, for every entry record of any run of `emit_entries`.
-/

namespace GetBibleSword.Tool
open GetBibleSword.Lib GetBibleSword.Core

/-! ## What the texts are parsed to -/

def segmentKind : AnnotationSegmentKind → SegmentKind
  | .text => .text
  | .markup => .markup
  | .entity => .entity

def segmentInterpretation (kind : SegmentKind) : String :=
  if kind = .text then "not_applicable" else "uninterpreted"

def segmentValue (segment : AnnotationSegment) : Json :=
  .obj [(text "interpretation", .str (text (segmentInterpretation (segmentKind segment.kind)))),
    (text "kind", .str (text (segmentKind segment.kind).name)),
    (text "raw", .obj (byteValueDict segment.raw))]

def attributeValueJsonValue (value : Bytes × Bytes) : Json :=
  .obj [(text "name", .obj (byteValueDict value.1)), (text "value", .obj (byteValueDict value.2))]

def attributeListValue (list : Bytes × List (Bytes × Bytes)) : Json :=
  .obj [(text "name", .obj (byteValueDict list.1)),
    (text "values", .arr (list.2.map attributeValueJsonValue))]

def attributeTypeValue (type : Bytes × List (Bytes × List (Bytes × Bytes))) : Json :=
  .obj [(text "lists", .arr (type.2.map attributeListValue)), (text "name", .obj (byteValueDict type.1))]

def nullableValue (value : Option Bytes) : Json :=
  match value with
  | some bytes => .obj (byteValueDict bytes)
  | none => .null

section Texts

/-- A member with a literal name. -/
theorem literalMember {name : String} (hname : ∀ x ∈ text name, x < 0x80) {value : Bytes} {v : Json}
    (h : CanonicalJson value v) :
    Utf8.decode (ascii name, value).1 = some (text name, v).1 ∧ CanonicalJson (ascii name, value).2 (text name, v).2 :=
  ⟨decode_literal hname, h⟩

theorem canonicalJson_map_list {α : Type} {f : α → Bytes} {g : α → Json} (xs : List α)
    (h : ∀ x, CanonicalJson (f x) (g x)) : CanonicalJson (arrayJson (xs.map f)) (.arr (xs.map g)) := by
  apply canonicalJson_array
  induction xs with
  | nil => exact .nil
  | cons x xs ih => exact .cons (h x) ih

theorem canonicalJson_segment (segment : AnnotationSegment) :
    CanonicalJson (annotationSegmentJson segment) (segmentValue segment) := by
  have hkind : kindName segment.kind = ascii (segmentKind segment.kind).name := by
    cases segment.kind <;> rfl
  have hinterpretation : interpretation segment.kind =
      ascii (segmentInterpretation (segmentKind segment.kind)) := by
    cases segment.kind <;> rfl
  have hascii : ∀ kind : SegmentKind, (∀ x ∈ text kind.name, x < 0x80) ∧
      ∀ x ∈ text (segmentInterpretation kind), x < 0x80 := by
    intro kind
    cases kind <;> decide
  rw [annotationSegmentJson_eq, hkind, hinterpretation]
  apply canonicalJson_object
  · show ([ascii "interpretation", ascii "kind", ascii "raw"] : List Bytes).Pairwise (· < ·)
    decide
  · refine .cons (literalMember (by decide) ?_) (.cons (literalMember (by decide) ?_)
      (.cons (literalMember (by decide) (canonicalJson_byteValue _)) .nil))
    · exact canonicalJson_literal (hascii _).2
    · exact canonicalJson_literal (hascii _).1

theorem canonicalJson_segments (raw : Bytes) : CanonicalJson (annotationSegmentsJson raw)
    (.arr ((segmentAnnotations raw).map segmentValue)) :=
  canonicalJson_map_list _ canonicalJson_segment

theorem canonicalJson_attributeValue (value : Bytes × Bytes) :
    CanonicalJson (attributeValueJson value) (attributeValueJsonValue value) := by
  have htext : attributeValueJson value =
      objectJson [(ascii "name", byteValueJson value.1), (ascii "value", byteValueJson value.2)] := by
    simp [attributeValueJson, objectJson, memberJson, List.intercalate]
    rfl
  rw [htext]
  apply canonicalJson_object
  · show ([ascii "name", ascii "value"] : List Bytes).Pairwise (· < ·)
    decide
  · exact .cons (literalMember (by decide) (canonicalJson_byteValue _))
      (.cons (literalMember (by decide) (canonicalJson_byteValue _)) .nil)

theorem canonicalJson_attributeList (list : Bytes × List (Bytes × Bytes)) :
    CanonicalJson (attributeListJson list) (attributeListValue list) := by
  have htext : attributeListJson list = objectJson [(ascii "name", byteValueJson list.1),
      (ascii "values", arrayJson (list.2.map attributeValueJson))] := by
    simp [attributeListJson, objectJson, memberJson, List.intercalate]
    rfl
  rw [htext]
  apply canonicalJson_object
  · show ([ascii "name", ascii "values"] : List Bytes).Pairwise (· < ·)
    decide
  · exact .cons (literalMember (by decide) (canonicalJson_byteValue _))
      (.cons (literalMember (by decide) (canonicalJson_map_list _ canonicalJson_attributeValue)) .nil)

theorem canonicalJson_attributeType (type : Bytes × List (Bytes × List (Bytes × Bytes))) :
    CanonicalJson (attributeTypeJson type) (attributeTypeValue type) := by
  have htext : attributeTypeJson type = objectJson [
      (ascii "lists", arrayJson (type.2.map attributeListJson)), (ascii "name", byteValueJson type.1)] := by
    simp [attributeTypeJson, objectJson, memberJson, List.intercalate]
    rfl
  rw [htext]
  apply canonicalJson_object
  · show ([ascii "lists", ascii "name"] : List Bytes).Pairwise (· < ·)
    decide
  · exact .cons (literalMember (by decide) (canonicalJson_map_list _ canonicalJson_attributeList))
      (.cons (literalMember (by decide) (canonicalJson_byteValue _)) .nil)

theorem canonicalJson_attributes (attributes : AttributeTypeList) :
    CanonicalJson (officialAttributesJson attributes) (.arr (attributes.map attributeTypeValue)) :=
  canonicalJson_map_list _ canonicalJson_attributeType

theorem canonicalJson_nullable (value : Option Bytes) :
    CanonicalJson (nullableJson value) (nullableValue value) := by
  cases value with
  | none => exact canonicalJson_null
  | some bytes => exact canonicalJson_byteValue bytes

/-- A string written as a literal with its quotes. -/
theorem canonicalJson_quoted {literal name : String} (hquoted : ascii literal = jsonString (ascii name))
    (h : ∀ x ∈ text name, x < 0x80) : CanonicalJson (ascii literal) (.str (text name)) := by
  rw [hquoted]
  exact canonicalJson_literal h

theorem canonicalFields_scope (scope : KeyScope) : CanonicalFields (scopeFields scope) := by
  have hkey : ascii "\"sword_key\"" = jsonString (ascii "sword_key") := by decide +kernel
  have hverse : ascii "\"verse_key\"" = jsonString (ascii "verse_key") := by decide +kernel
  unfold CanonicalFields
  cases scope with
  | swordKey index =>
    unfold scopeFields
    rw [List.forall_mem_cons, List.forall_mem_singleton]
    exact ⟨canonical_entry (by decide) (canonicalJson_integer index),
      canonical_entry (by decide) (canonicalJson_quoted hkey (by decide))⟩
  | verseKey key =>
    have hintro : ∃ v, CanonicalJson (jsonString (introScope key)) v := by
      unfold introScope
      split_ifs
      all_goals exact ⟨_, canonicalJson_literal (by decide)⟩
    obtain ⟨intro, hintro⟩ := hintro
    unfold scopeFields
    simp only [List.forall_mem_cons]
    refine ⟨canonical_entry (by decide) (canonicalJson_integer _),
      canonical_entry (by decide) (canonicalJson_nullable _),
      canonical_entry (by decide) (canonicalJson_nullable _),
      canonical_entry (by decide) (canonicalJson_integer _),
      canonical_entry (by decide) (canonicalJson_integer _),
      canonical_entry (by decide) hintro,
      canonical_entry (by decide) (canonicalJson_byteValue _),
      canonical_entry (by decide) (canonicalJson_integer _),
      canonical_entry (by decide) (canonicalJson_integer _),
      canonical_entry (by decide) (canonicalJson_quoted hverse (by decide)),
      canonical_entry (by decide) (canonicalJson_integer _),
      canonical_entry (by decide) (canonicalJson_byteValue _), fun e he => by cases he⟩

theorem canonicalJson_scope (scope : KeyScope) : ∃ v, CanonicalJson (scopeJson scope) v :=
  canonicalJson_map (canonicalFields_fieldsOf (canonicalFields_scope scope))

end Texts

/-! ## The line of an entry -/

section Line
variable (answers : EntryAnswers) (ordinal : Nat) (normalized stripped : Option Bytes) (projections : Bool)

def entryDict (sequence : Nat) (scope : Json) : Dict :=
  [(text "annotation_segments", .arr ((segmentAnnotations answers.raw).map segmentValue)),
    (text "key", .obj (byteValueDict (safeCString answers.keyText))),
    (text "normalized_raw", nullableValue normalized),
    (text "normalized_stripped", nullableValue stripped),
    (text "official_attributes",
      .arr (if projections then answers.attributes.map attributeTypeValue else [])),
    (text "ordinal", .int ordinal),
    (text "projections_available", .bool projections),
    (text "raw", .obj (byteValueDict answers.raw)),
    (text "rendered_default", nullableValue (if projections then some answers.rendered else none)),
    (text "scope", scope),
    (text "sequence", .int sequence),
    (text "stripped", nullableValue (if projections then some (safeCString answers.stripped) else none)),
    (text "type", .str (text "entry"))]

/-- The line is that of an object with one member for each field. -/
theorem canonicalJson_entryLine (sequence : Nat) {scope : Json} (hscope : CanonicalJson (scopeJson answers.scope) scope) :
    ∃ body, recordLine sequence Purpose.entry.type
        (fieldsOf (entryFields answers ordinal normalized stripped projections)) = body ++ [Core.lf] ∧
      CanonicalJson body (.obj (entryDict answers ordinal normalized stripped projections sequence scope)) := by
  have hattributes : CanonicalJson
      (if projections then officialAttributesJson answers.attributes else ascii "[]")
      (.arr (if projections then answers.attributes.map attributeTypeValue else [])) := by
    cases projections with
    | true => exact canonicalJson_attributes answers.attributes
    | false => exact canonicalJson_array .nil
  refine ⟨_, rfl, ?_⟩
  apply canonicalJson_object
  · exact OrdMap.sorted _
  · have hentries : ((fieldsOf (entryFields answers ordinal normalized stripped projections)).emplaceAll
        [(ascii "sequence", decimal sequence), (ascii "type", jsonString Purpose.entry.type)]).entries =
        [(ascii "annotation_segments", annotationSegmentsJson answers.raw),
          (ascii "key", byteValueJson (safeCString answers.keyText)),
          (ascii "normalized_raw", nullableJson normalized),
          (ascii "normalized_stripped", nullableJson stripped),
          (ascii "official_attributes",
            if projections then officialAttributesJson answers.attributes else ascii "[]"),
          (ascii "ordinal", decimal ordinal),
          (ascii "projections_available", if projections then ascii "true" else ascii "false"),
          (ascii "raw", byteValueJson answers.raw),
          (ascii "rendered_default", nullableJson (if projections then some answers.rendered else none)),
          (ascii "scope", scopeJson answers.scope),
          (ascii "sequence", decimal sequence),
          (ascii "stripped",
            nullableJson (if projections then some (safeCString answers.stripped) else none)),
          (ascii "type", jsonString Purpose.entry.type)] := rfl
    rw [hentries]
    refine .cons (literalMember (by decide) (canonicalJson_segments _)) (.cons
      (literalMember (by decide) (canonicalJson_byteValue _)) (.cons
      (literalMember (by decide) (canonicalJson_nullable _)) (.cons
      (literalMember (by decide) (canonicalJson_nullable _)) (.cons
      (literalMember (by decide) hattributes) (.cons
      (literalMember (by decide) (canonicalJson_decimal _)) (.cons
      (literalMember (by decide) (canonicalJson_bool _)) (.cons
      (literalMember (by decide) (canonicalJson_byteValue _)) (.cons
      (literalMember (by decide) (canonicalJson_nullable _)) (.cons
      (literalMember (by decide) hscope) (.cons
      (literalMember (by decide) (canonicalJson_decimal _)) (.cons
      (literalMember (by decide) (canonicalJson_nullable _)) (.cons
      (literalMember (by decide) (canonicalJson_literal (by decide))) .nil))))))))))))

end Line

/-! ## The checks -/

section Checks
variable {record : Dict} {context : Message} {line : Nat}

theorem byteValue_ok {name : String} {bytes : Bytes}
    (h : dictGet record name = some (.obj (byteValueDict bytes))) :
    byteValue record context name line = .ok bytes := by
  simp only [byteValue, bind_eq_ok, dictItem_eq_ok]
  exact ⟨_, h, decodeByteValue_eq_ok.mpr ⟨_, rfl, isByteValue_dict bytes⟩⟩

theorem normalizedField_ok {name : String} {value : Option Bytes} (h : dictGet record name = some (nullableValue value))
    (hvalid : ∀ bytes, value = some bytes → isValidUtf8 bytes = true) :
    normalizedField record name line = .ok () := by
  unfold normalizedField present
  rw [h]
  cases value with
  | none => rfl
  | some bytes =>
    obtain ⟨t, ht⟩ := Option.isSome_iff_exists.mp ((isValidUtf8_eq bytes).symm.trans (hvalid bytes rfl))
    show (decodeByteValue (.obj (byteValueDict bytes)) _ line >>= _) = _
    rw [bind_eq_ok]
    refine ⟨bytes, decodeByteValue_eq_ok.mpr ⟨_, rfl, isByteValue_dict bytes⟩, ?_⟩
    exact discard_eq_ok.mpr ⟨t, decodeText_eq_ok.mpr ht⟩

theorem projectionField_ok {name : String} {projections : Bool} {bytes : Bytes}
    (h : dictGet record name = some (nullableValue (if projections then some bytes else none))) :
    projectionField record projections name line = .ok () := by
  unfold projectionField
  cases projections with
  | true =>
    rw [if_pos rfl]
    exact discard_eq_ok.mpr ⟨bytes, byteValue_ok h⟩
  | false =>
    rw [if_neg Bool.false_ne_true, failIf_eq_ok, present, h]
    exact Bool.false_ne_true

theorem annotationSegment_ok (segment : AnnotationSegment) :
    annotationSegment (segmentValue segment) context line = .ok segment.raw := by
  have hkind : ∀ a ∈ [SegmentKind.text, .markup, .entity], ∀ b ∈ [SegmentKind.text, .markup, .entity],
      a.name = b.name → a = b := by decide
  have hmem : segmentKind segment.kind ∈ [SegmentKind.text, .markup, .entity] := by
    cases segment.kind <;> decide
  simp only [annotationSegment, segmentValue, requireObject, bind_eq_ok, requireMembers_eq_ok, dictItem_eq_ok,
    requireString_eq_ok, oneOf_eq_ok hkind, failIf_eq_ok, not_not, ne_eq]
  refine ⟨_, rfl, (), ?_, _, rfl, _, rfl, _, rfl, _, rfl, _, ⟨hmem, rfl⟩, (), rfl, byteValue_ok rfl⟩
  intro name hname
  simp only [List.mem_cons, List.not_mem_nil, or_false] at hname
  rcases hname with rfl | rfl | rfl
  all_goals rfl

/-- The loop puts the octets together again. -/
theorem annotationSegments_ok (segments : List AnnotationSegment) : ∀ (index : Nat) (reconstructed : Bytes),
    annotationSegments line index (segments.map segmentValue) reconstructed =
      .ok (reconstructed ++ segments.flatMap AnnotationSegment.raw) := by
  induction segments with
  | nil =>
    intro index reconstructed
    rw [List.map_nil, annotationSegments, List.flatMap_nil, List.append_nil]
  | cons segment segments ih =>
    intro index reconstructed
    rw [List.map_cons, annotationSegments, bind_eq_ok]
    refine ⟨segment.raw, annotationSegment_ok segment, ?_⟩
    rw [ih, List.flatMap_cons, List.append_assoc]

theorem checkEach_ok {α : Type} {f : α → Json} {check : Nat → Json → Except PyError Unit}
    (h : ∀ index x, check index (f x) = .ok ()) (xs : List α) : ∀ index,
    checkEach check index (xs.map f) = .ok () := by
  induction xs with
  | nil => intro index; rfl
  | cons x xs ih =>
    intro index
    rw [List.map_cons, checkEach, bind_eq_ok]
    exact ⟨(), h index x, ih (index + 1)⟩

theorem attributeValue_ok (index : Nat) (value : Bytes × Bytes) :
    attributeValue context line index (attributeValueJsonValue value) = .ok () := by
  simp only [attributeValue, attributeValueJsonValue, requireObject, bind_eq_ok, requireMembers_eq_ok,
    discard_eq_ok]
  refine ⟨_, rfl, (), ?_, (), ⟨_, byteValue_ok rfl⟩, _, byteValue_ok rfl⟩
  intro name hname
  simp only [List.mem_cons, List.not_mem_nil, or_false] at hname
  rcases hname with rfl | rfl
  all_goals rfl

theorem attributeList_ok (index : Nat) (list : Bytes × List (Bytes × Bytes)) :
    attributeList context line index (attributeListValue list) = .ok () := by
  simp only [attributeList, attributeListValue, requireObject, bind_eq_ok, requireMembers_eq_ok,
    discard_eq_ok, dictItem_eq_ok]
  refine ⟨_, rfl, (), ?_, (), ⟨_, byteValue_ok rfl⟩, _, rfl, _, rfl, ?_⟩
  · intro name hname
    simp only [List.mem_cons, List.not_mem_nil, or_false] at hname
    rcases hname with rfl | rfl
    all_goals rfl
  · exact checkEach_ok attributeValue_ok list.2 0

theorem attributeType_ok (index : Nat) (type : Bytes × List (Bytes × List (Bytes × Bytes))) :
    attributeType line index (attributeTypeValue type) = .ok () := by
  simp only [attributeType, attributeTypeValue, requireObject, bind_eq_ok, requireMembers_eq_ok,
    discard_eq_ok, dictItem_eq_ok]
  refine ⟨_, rfl, (), ?_, (), ⟨_, byteValue_ok rfl⟩, _, rfl, _, rfl, ?_⟩
  · intro name hname
    simp only [List.mem_cons, List.not_mem_nil, or_false] at hname
    rcases hname with rfl | rfl
    all_goals rfl
  · exact checkEach_ok attributeList_ok type.2 0

theorem validateOfficialAttributes_ok (attributes : AttributeTypeList) :
    validateOfficialAttributes (.arr (attributes.map attributeTypeValue)) line = .ok () := by
  unfold validateOfficialAttributes
  rw [bind_eq_ok]
  exact ⟨_, rfl, checkEach_ok attributeType_ok attributes 0⟩

end Checks

/-- The checks of an entry up to that of its scope. -/
def entryContent (record : Dict) (line : Nat) : Except PyError Unit := do
  let context := [.lit "entry"]
  discard <| byteValue record context "key" line
  let raw ← byteValue record context "raw" line
  checkAll ["normalized_raw", "normalized_stripped"] fun name => normalizedField record name line
  failIf ((present record "normalized_stripped").isSome ∧ (present record "normalized_raw").isNone)
    [.lit "entry.normalized_stripped requires normalized_raw"] line
  let projections ← requireBoolean (← dictItem record "projections_available")
    (field context "projections_available") line
  checkAll ["rendered_default", "stripped"] fun name => projectionField record projections name line
  let segments ← requireList (← dictItem record "annotation_segments")
    (field context "annotation_segments") line
  let reconstructed ← annotationSegments line 0 segments []
  failIf (reconstructed ≠ raw) [.lit "entry.annotation_segments do not reconstruct entry.raw"] line
  validateOfficialAttributes (← dictItem record "official_attributes") line

theorem entryPayload_eq (record : Dict) (line : Nat) : entryPayload record line =
    (entryContent record line >>= fun _ => dictItem record "scope" >>= fun scope => validateScope scope line) := by
  simp only [entryPayload, entryContent, bind_assoc]

section Content
variable (answers : EntryAnswers) (ordinal : Nat) (normalized stripped : Option Bytes) (projections : Bool)
variable (sequence : Nat) (scope : Json) (line : Nat)

theorem entryContent_ok (hnormalized : ∀ bytes, normalized = some bytes → isValidUtf8 bytes = true)
    (hstripped : ∀ bytes, stripped = some bytes → isValidUtf8 bytes = true)
    (hrequires : stripped.isSome = true → normalized.isSome = true) :
    entryContent (entryDict answers ordinal normalized stripped projections sequence scope) line = .ok () := by
  have hpresent : ∀ name value,
      dictGet (entryDict answers ordinal normalized stripped projections sequence scope) name =
        some (nullableValue value) →
      (present (entryDict answers ordinal normalized stripped projections sequence scope) name).isSome =
        value.isSome := by
    intro name value h
    unfold present
    rw [h]
    cases value with
    | none => rfl
    | some bytes => rfl
  simp only [entryContent, checkAll, bind_eq_ok, discard_eq_ok, failIf_eq_ok, dictItem_eq_ok,
    requireBoolean_eq_ok]
  refine ⟨(), ⟨_, byteValue_ok rfl⟩, _, byteValue_ok rfl, (), ⟨(), normalizedField_ok rfl hnormalized, (),
    normalizedField_ok rfl hstripped, trivial⟩, (), ?_, _, rfl, projections, rfl, (), ⟨(),
    projectionField_ok rfl, (), projectionField_ok rfl, trivial⟩, _, rfl, _, rfl, _,
    annotationSegments_ok _ 0 [], (), ?_, _, rfl, ?_⟩
  · rw [hpresent "normalized_stripped" stripped rfl, Option.isNone_iff_eq_none, ← Option.not_isSome_iff_eq_none,
      hpresent "normalized_raw" normalized rfl]
    rintro ⟨hsome, hnone⟩
    exact hnone (hrequires hsome)
  · rw [List.nil_append, not_not]
    exact segmentAnnotations_flatten answers.raw
  · cases projections with
    | true => exact validateOfficialAttributes_ok answers.attributes
    | false => exact validateOfficialAttributes_ok []

end Content

/-! ## One entry -/

/-- The validator accepts the line of an entry as that with the given ordinal, up to its scope: what is left of the
handler is the check of the scope. -/
def AgreesButScope (ordinal : Nat) (fields : JsonFields) : Prop :=
  ∀ sequence, ∃ body d scope, recordLine sequence Purpose.entry.type fields = body ++ [Core.lf] ∧
    parseJson body = .ok (.obj d) ∧ dictGet d "scope" = some scope ∧
    ∀ (v : Validator) (line : Nat), v.command = some .extract → v.moduleCount = 1 → v.phase ≤ 4 →
      v.entryCount = ordinal →
      v.validateEntry d line =
        (validateScope scope line).map fun _ => { v with phase := 4, entryCount := ordinal + 1 }

def nullMembers : List String := ["normalized_raw", "normalized_stripped", "rendered_default", "stripped"]

/-- Where one of these is null, one of the records before is a diagnostic with the ordinal of the entry. -/
def Explained (ordinal : Nat) (fields : JsonFields) (before : List (Bytes × JsonFields)) : Prop :=
  (∃ name ∈ nullMembers, fields.find (ascii name) = some (ascii "null")) →
    ∃ value : Diagnostic, (Purpose.diagnostic.type, Core.diagnosticFields value) ∈ before ∧
      value.context.find (ascii "entry_ordinal") = some (decimal ordinal)

section Entry
variable {icu : Icu} (hicu : icu.WellFormed) (answers : EntryAnswers) (ordinal : Nat)

theorem entryStripped_valid {bytes : Bytes} (h : (entryStripped icu answers ordinal).1 = some bytes) :
    isValidUtf8 bytes = true ∧ (entryNormalized icu answers).isSome = true := by
  unfold entryStripped at h
  cases hnormalized : entryNormalized icu answers with
  | none =>
    rw [hnormalized] at h
    cases h
  | some utf8 =>
    rw [hnormalized] at h
    dsimp only at h
    split_ifs at h with hnul hlong hvalid
    · exact ⟨by rw [← Option.some.inj h]; exact hvalid, rfl⟩

include hicu in
theorem agreesButScope_entryRecord :
    AgreesButScope ordinal (fieldsOf (entryRecord icu answers ordinal)) := by
  intro sequence
  obtain ⟨scope, hscope⟩ := canonicalJson_scope answers.scope
  obtain ⟨body, hbody, hcanonical⟩ := canonicalJson_entryLine answers ordinal (entryNormalized icu answers)
    (entryStripped icu answers ordinal).1 (answers.raw.length ≤ intMax) sequence hscope
  refine ⟨body, _, scope, hbody, hcanonical.parse, rfl, fun v line hcommand hmodule hphase hcount => ?_⟩
  have hcontent := entryContent_ok answers ordinal (entryNormalized icu answers)
    (entryStripped icu answers ordinal).1 (answers.raw.length ≤ intMax) sequence scope line
    (fun bytes h => sourceUtf8_valid hicu h) (fun bytes h => (entryStripped_valid answers ordinal h).1) (fun h => ?_)
  · generalize hd : entryDict answers ordinal (entryNormalized icu answers)
      (entryStripped icu answers ordinal).1 (answers.raw.length ≤ intMax) sequence scope = d at hcontent ⊢
    have hitem : dictItem d "scope" = .ok scope := by rw [← hd]; rfl
    have hextract : v.extractOnly .entry line = .ok () := Validator.extractOnly_eq_ok.mpr ⟨hcommand, hmodule⟩
    have hadvance : v.advance 4 .entry line = .ok { v with phase := 4 } := Validator.advance_eq_ok.mpr ⟨hphase, rfl⟩
    have hordinal : ordinalField d .entry entryMembers line = .ok ordinal := by
      rw [← hd]
      rfl
    have hexpect : Validator.expect ordinal v.entryCount (RecordType.entry.name ++ ".ordinal") line = .ok () :=
      expect_eq_ok.mpr hcount.symm
    subst hcount
    unfold Validator.validateEntry Validator.ordinalRecord
    simp only [hextract, hadvance, hordinal, hexpect, entryPayload_eq, hcontent, hitem, ok_bind]
    cases validateScope scope line with
    | ok u => rfl
    | error e => rfl
  · obtain ⟨bytes, hbytes⟩ := Option.isSome_iff_exists.mp h
    exact (entryStripped_valid answers ordinal hbytes).2

theorem byteValueJson_ne_null (bytes : Bytes) : byteValueJson bytes ≠ ascii "null" := by
  intro h
  have hhead := congrArg List.head? h
  have hbrace : (byteValueJson bytes).head? = (ascii "\x7b").head? := rfl
  rw [hbrace] at hhead
  revert hhead
  decide

theorem nullableJson_eq_null {value : Option Bytes} (h : nullableJson value = ascii "null") : value = none := by
  cases value with
  | none => rfl
  | some bytes => exact absurd h (byteValueJson_ne_null bytes)

/-- Every diagnostic about an entry names its ordinal. -/
theorem entryDiagnostics_ordinal : ∀ value ∈ entryDiagnostics icu answers ordinal,
    value.context.find (ascii "entry_ordinal") = some (decimal ordinal) := by
  have hlength : ∀ size, ∀ value ∈ lengthDiagnostics ordinal size,
      value.context.find (ascii "entry_ordinal") = some (decimal ordinal) := by
    intro size value hvalue
    unfold lengthDiagnostics at hvalue
    split_ifs at hvalue
    · rw [List.mem_singleton.mp hvalue]
      rfl
    · cases hvalue
  have hstripped : ∀ value ∈ (entryStripped icu answers ordinal).2,
      value.context.find (ascii "entry_ordinal") = some (decimal ordinal) := by
    intro value hvalue
    unfold entryStripped at hvalue
    cases hnormalized : entryNormalized icu answers with
    | none =>
      rw [hnormalized] at hvalue
      cases hvalue
    | some utf8 =>
      rw [hnormalized] at hvalue
      dsimp only at hvalue
      split_ifs at hvalue
      · rw [List.mem_singleton.mp hvalue]
        rfl
      · rw [List.mem_singleton.mp hvalue]
        rfl
      · cases hvalue
      · rw [List.mem_singleton.mp hvalue]
        rfl
  intro value hvalue
  unfold entryDiagnostics at hvalue
  rw [List.mem_append, List.mem_append] at hvalue
  obtain (hvalue | hvalue) | hvalue := hvalue
  · exact hlength _ value hvalue
  · split_ifs at hvalue
    · rw [List.mem_singleton.mp hvalue]
      rfl
    · cases hvalue
  · exact hstripped value hvalue

/-- Without diagnostics nothing about an entry is missing. -/
theorem complete_of_no_diagnostics (h : entryDiagnostics icu answers ordinal = []) :
    (entryNormalized icu answers).isSome = true ∧ (entryStripped icu answers ordinal).1.isSome = true ∧
      answers.raw.length ≤ intMax := by
  unfold entryDiagnostics at h
  obtain ⟨hfirst, hstripped⟩ := List.append_eq_nil_iff.mp h
  obtain ⟨hlength, hnormalized⟩ := List.append_eq_nil_iff.mp hfirst
  have hsome : (entryNormalized icu answers).isSome = true := by
    by_contra hnone
    rw [if_pos (Option.isNone_iff_eq_none.mpr (Option.not_isSome_iff_eq_none.mp hnone))] at hnormalized
    cases hnormalized
  refine ⟨hsome, ?_, ?_⟩
  · obtain ⟨utf8, hutf8⟩ := Option.isSome_iff_exists.mp hsome
    unfold entryStripped at hstripped ⊢
    rw [hutf8] at hstripped ⊢
    dsimp only at hstripped ⊢
    split_ifs at hstripped ⊢
    · rfl
  · by_contra hlong
    unfold lengthDiagnostics at hlength
    rw [if_pos (Nat.not_le.mp hlong)] at hlength
    cases hlength

/-- A null of the record goes with a diagnostic. -/
theorem entryDiagnostics_of_null {name : String} (hname : name ∈ nullMembers)
    (h : (fieldsOf (entryRecord icu answers ordinal)).find (ascii name) = some (ascii "null")) :
    entryDiagnostics icu answers ordinal ≠ [] := by
  intro hnone
  obtain ⟨hnormalized, hstripped, hlength⟩ := complete_of_no_diagnostics answers ordinal hnone
  simp only [nullMembers, List.mem_cons, List.not_mem_nil, or_false] at hname
  unfold entryRecord at h
  rw [decide_eq_true hlength] at h
  obtain rfl | rfl | rfl | rfl := hname
  · rw [nullableJson_eq_null (Option.some.inj h)] at hnormalized
    cases hnormalized
  · rw [nullableJson_eq_null (Option.some.inj h)] at hstripped
    cases hstripped
  · exact byteValueJson_ne_null _ (Option.some.inj h)
  · exact byteValueJson_ne_null _ (Option.some.inj h)

theorem explained_entryRecord : Explained ordinal (fieldsOf (entryRecord icu answers ordinal))
    (((entryDiagnostics icu answers ordinal).map Emission.diagnostic).map Emission.written) := by
  rintro ⟨name, hname, hnull⟩
  obtain ⟨value, rest, hvalue⟩ := List.exists_cons_of_ne_nil (entryDiagnostics_of_null answers ordinal hname hnull)
  have hmem : value ∈ entryDiagnostics icu answers ordinal := by
    rw [hvalue]
    exact List.mem_cons_self
  refine ⟨value, ?_, entryDiagnostics_ordinal answers ordinal value hmem⟩
  rw [List.map_map]
  exact List.mem_map.mpr ⟨value, hmem, rfl⟩

end Entry

/-! ## A run -/

/-- What a run of `emit_entries` writes from the entry with the given ordinal on: diagnostics, and entries behind
their own; an exception can cut it off inside an entry. -/
inductive EntryRun (icu : Icu) : Nat → List Emission → Prop
  | cut (answers : EntryAnswers) {ordinal : Nat} {done : List Emission}
    (h : done <+: entryEmissions icu answers ordinal) : EntryRun icu ordinal done
  | diagnostic {value : Diagnostic} {ordinal : Nat} {rest : List Emission} (h : EntryRun icu ordinal rest) :
    EntryRun icu ordinal (.diagnostic value :: rest)
  | entry (answers : EntryAnswers) {ordinal : Nat} {rest : List Emission} (h : EntryRun icu (ordinal + 1) rest) :
    EntryRun icu ordinal (entryEmissions icu answers ordinal ++ rest)

/-- `x` writes such records, also when it throws. -/
def Traces {α : Type} (icu : Icu) (x : Run α) (s : Extraction) : Prop :=
  ∃ emitted, (final x s).session.emitted = s.session.emitted ++ emitted.map Emission.written ∧
    EntryRun icu s.entries emitted

/-- `x` writes diagnostics and no other record. -/
def Reports {α : Type} (x : Run α) (s : Extraction) : Prop :=
  ∃ values : List Diagnostic,
    match x s with
    | .ok _ t => s.Ran t (values.map Emission.diagnostic)
    | .error _ t => t.session.emitted = s.session.emitted ++ (values.map Emission.diagnostic).map Emission.written

section Traces
variable {icu : Icu} {α β : Type} {x : Run α} {f : α → Run β} {s : Extraction} {safe : Prop} {a : α}

theorem EntryRun.diagnostics {ordinal : Nat} {rest : List Emission} (h : EntryRun icu ordinal rest) :
    ∀ values : List Diagnostic, EntryRun icu ordinal (values.map Emission.diagnostic ++ rest)
  | [] => h
  | _ :: values => .diagnostic (h.diagnostics values)

/-- Nothing, which is the beginning of any entry. -/
theorem EntryRun.nil (ordinal : Nat) : EntryRun icu ordinal [] := .cut (plainEntry "") List.nil_prefix

theorem Follows.reports {values : List Diagnostic} (h : Follows safe x s a (values.map Emission.diagnostic)) :
    Reports x s := by
  unfold Follows at h
  cases hx : x s with
  | ok b t =>
    rw [hx] at h
    refine ⟨values, ?_⟩
    rw [hx]
    exact h.2
  | error e t =>
    rw [hx] at h
    obtain ⟨-, done, hdone, hemitted⟩ := h
    obtain ⟨first, hfirst, rfl⟩ : ∃ first : List Diagnostic, first <+: values ∧
        done = first.map Emission.diagnostic := by
      obtain ⟨n, rfl⟩ : ∃ n, done = (values.map Emission.diagnostic).take n :=
        ⟨done.length, (List.prefix_iff_eq_take.mp hdone)⟩
      exact ⟨values.take n, List.take_prefix n values, List.map_take.symm⟩
    refine ⟨first, ?_⟩
    rw [hx]
    exact hemitted

theorem Reports.bind (h : Reports x s) (hf : ∀ a t, x s = .ok a t → Reports (f a) t) : Reports (x >>= f) s := by
  obtain ⟨values, h⟩ := h
  cases hx : x s with
  | error e t =>
    refine ⟨values, ?_⟩
    rw [hx] at h
    rw [run_bind, hx]
    exact h
  | ok a t =>
    rw [hx] at h
    obtain ⟨more, hmore⟩ := hf a t hx
    refine ⟨values ++ more, ?_⟩
    rw [run_bind, hx]
    dsimp only at h ⊢
    cases hy : f a t with
    | ok b u =>
      rw [hy] at hmore
      dsimp only at hmore ⊢
      rw [List.map_append]
      exact h.trans hmore
    | error e u =>
      rw [hy] at hmore
      dsimp only at hmore ⊢
      rw [hmore, h.session.emitted, List.map_append, List.map_append, List.append_assoc]

theorem Reports.traces (h : Reports x s) : Traces icu x s := by
  obtain ⟨values, h⟩ := h
  refine ⟨values.map Emission.diagnostic, ?_, ?_⟩
  · unfold final
    cases hx : x s with
    | ok a t =>
      rw [hx] at h
      exact h.session.emitted
    | error e t =>
      rw [hx] at h
      exact h
  · have hrun := (@EntryRun.nil icu s.entries).diagnostics values
    rwa [List.append_nil] at hrun

/-- Diagnostics, and then the rest. -/
theorem Traces.bind (h : Reports x s) (hf : ∀ a t, x s = .ok a t → t.entries = s.entries → Traces icu (f a) t) :
    Traces icu (x >>= f) s := by
  obtain ⟨values, hvalues⟩ := h
  cases hx : x s with
  | error e t =>
    refine (Reports.bind ⟨values, hvalues⟩ fun a u hu => ?_).traces
    rw [hx] at hu
    cases hu
  | ok a t =>
    rw [hx] at hvalues
    have hcount : (values.map Emission.diagnostic).countP Emission.isEntry = 0 := by
      rw [List.countP_map, List.countP_eq_zero]
      exact fun _ _ => Bool.false_ne_true
    have hentries : t.entries = s.entries := by rw [hvalues.entries, hcount, Nat.add_zero]
    obtain ⟨emitted, hemitted, hrun⟩ := hf a t hx hentries
    refine ⟨values.map Emission.diagnostic ++ emitted, ?_, ?_⟩
    · unfold final at hemitted ⊢
      rw [run_bind, hx]
      dsimp only
      rw [hemitted, hvalues.session.emitted, List.map_append, List.append_assoc]
    · rw [hentries] at hrun
      exact hrun.diagnostics values

/-- An entry, and then the rest. -/
theorem Traces.entry {answers : EntryAnswers} (h : Follows safe x s a (entryEmissions icu answers s.entries))
    (hf : ∀ t, t.entries = s.entries + 1 → Traces icu (f a) t) : Traces icu (x >>= f) s := by
  unfold Follows at h
  cases hx : x s with
  | error e t =>
    rw [hx] at h
    obtain ⟨-, done, hdone, hemitted⟩ := h
    refine ⟨done, ?_, .cut answers hdone⟩
    unfold final
    rw [run_bind, hx]
    exact hemitted
  | ok b t =>
    rw [hx] at h
    obtain ⟨rfl, hran⟩ := h
    have hentries : t.entries = s.entries + 1 := by rw [hran.entries, countP_entryEmissions]
    obtain ⟨emitted, hemitted, hrun⟩ := hf t hentries
    refine ⟨entryEmissions icu answers s.entries ++ emitted, ?_, ?_⟩
    · unfold final at hemitted ⊢
      rw [run_bind, hx]
      dsimp only
      rw [hemitted, hran.session.emitted, List.map_append, List.append_assoc]
    · rw [hentries] at hrun
      exact .entry answers hrun

theorem traces_pure (a : α) (s : Extraction) : Traces icu (pure a) s :=
  ⟨[], (List.append_nil _).symm, .nil s.entries⟩

end Traces

section Run
variable (faults : Faults) (icu : Icu) {Position : Type} (engine : Engine Position)

theorem calm_false (s : Extraction) : Calm faults False s := False.elim

theorem reports_pure {α : Type} (a : α) (s : Extraction) : Reports (pure a) s := ⟨[], .refl s⟩

theorem reports_mayThrow (s : Extraction) : Reports (onSession (mayThrow faults .extraction)) s := by
  apply @Follows.reports Unit _ s False () []
  exact follows_mayThrow (calm_false faults s)

theorem reports_report {value : Diagnostic} (hplain : value.Plain) (s : Extraction) :
    Reports (report faults value) s := by
  apply @Follows.reports Unit _ s False () [value]
  exact follows_report (calm_false faults s) hplain

theorem reports_navigate (position : Position) (s : Extraction) :
    Reports (navigate faults engine position) s := by
  unfold navigate
  show Reports (if engine.full s.entries then _ else _) s
  by_cases hfull : engine.full s.entries = true
  · rw [if_pos hfull]
    exact reports_pure _ s
  rw [if_neg hfull]
  apply Reports.bind (reports_mayThrow faults s)
  intro _ t _
  by_cases hzero : (engine.increment position).1 = zeroByte
  · rw [if_pos hzero]
    exact reports_pure _ t
  rw [if_neg hzero]
  unfold navigationError
  by_cases hbounds : (engine.increment position).1 = keyErrOutOfBounds
  · rw [if_pos hbounds]
    cases engine.limit with
    | none => exact reports_pure _ t
    | some declared =>
      dsimp only
      split_ifs
      · apply Reports.bind (reports_report faults (plain_entryCountMismatch declared s.entries) t)
        intro _ u _
        exact reports_pure _ u
      · exact reports_pure _ t
  · rw [if_neg hbounds]
    apply Reports.bind (reports_report faults (plain_navigationFailed s.entries _) t)
    intro _ u _
    exact reports_pure _ u

theorem traces_traverse (fuel : Nat) : ∀ (position : Position) (previousKey : Bytes) (previousIndex : Int)
    (s : Extraction), Traces icu (traverse faults icu engine fuel position previousKey previousIndex) s := by
  induction fuel with
  | zero => exact fun _ _ _ s => traces_pure none s
  | succ fuel ih =>
    intro position previousKey previousIndex s
    rw [Core.traverse.eq_2]
    apply Traces.bind (reports_mayThrow faults s)
    intro _ t _ _
    show Traces icu (if stalls engine (engine.answers position) t.entries previousKey previousIndex then _ else _) t
    by_cases hstalls : stalls engine (engine.answers position) t.entries previousKey previousIndex = true
    · rw [if_pos hstalls]
      apply Traces.bind (reports_report faults (plain_navigationStalled t.entries _) t)
      intro _ u _ _
      exact traces_pure _ u
    rw [if_neg hstalls]
    by_cases hread : (engine.answers position).readError = zeroByte
    · apply Traces.entry (follows_emitEntry icu (engine.answers position) (calm_false faults t) hread)
      intro u _
      rw [if_pos rfl]
      apply Traces.bind (reports_navigate faults engine position u)
      intro navigation v _ _
      cases navigation with
      | ended success => exact traces_pure _ v
      | moved next => exact ih next _ _ v
    · have hfailed := follows_emitEntry_failed icu (engine.answers position) (calm_false faults t) hread
      apply Traces.bind (@Follows.reports Bool _ t False false [entryReadFailed t.entries _ _] hfailed)
      intro read u hu _
      unfold Follows at hfailed
      rw [hu] at hfailed
      obtain ⟨rfl, -⟩ := hfailed
      exact traces_pure _ u

theorem traces_emitEntries (fuel : Nat) (s : Extraction) :
    Traces icu (emitEntries faults icu engine fuel) s := by
  unfold emitEntries
  apply Traces.bind (reports_mayThrow faults s)
  intro _ t _ _
  split_ifs
  · apply Traces.bind (reports_report faults plain_moduleEmpty t)
    intro _ u _ _
    exact traces_pure _ u
  · exact traces_traverse faults icu engine fuel _ _ _ t

end Run

/-! ## Every record of a run -/

theorem Explained.mono {ordinal : Nat} {fields : JsonFields} {before more : List (Bytes × JsonFields)}
    (h : Explained ordinal fields before) (hsub : ∀ record ∈ before, record ∈ more) :
    Explained ordinal fields more := by
  intro hnull
  obtain ⟨value, hvalue, hordinal⟩ := h hnull
  exact ⟨value, hsub _ hvalue, hordinal⟩

/-- The entry records among `records`, the first with the given ordinal, pass and are explained. -/
def EntriesAgree (ordinal : Nat) (records : List (Bytes × JsonFields)) : Prop :=
  ∀ i fields, records[i]? = some (Purpose.entry.type, fields) →
    AgreesButScope (ordinal + entryRecords (records.take i)) fields ∧
      Explained (ordinal + entryRecords (records.take i)) fields (records.take i)

section Agree
variable {ordinal : Nat} {records more : List (Bytes × JsonFields)}

theorem EntriesAgree.prefix_ (h : EntriesAgree ordinal more) (hpre : records <+: more) :
    EntriesAgree ordinal records := by
  intro i fields hi
  have hlt := (List.getElem?_eq_some_iff.mp hi).1
  have htake : records.take i = more.take i := by
    obtain ⟨rest, rfl⟩ := hpre
    rw [List.take_append_of_le_length (Nat.le_of_lt hlt)]
  have hmore : more[i]? = some (Purpose.entry.type, fields) := by
    obtain ⟨rest, rfl⟩ := hpre
    rw [List.getElem?_append_left hlt]
    exact hi
  rw [htake]
  exact h i fields hmore

theorem EntriesAgree.append (h : EntriesAgree ordinal records)
    (h' : EntriesAgree (ordinal + entryRecords records) more) : EntriesAgree ordinal (records ++ more) := by
  intro i fields hi
  by_cases hlt : i < records.length
  · rw [List.getElem?_append_left hlt] at hi
    rw [List.take_append_of_le_length (Nat.le_of_lt hlt)]
    exact h i fields hi
  · rw [List.getElem?_append_right (Nat.not_lt.mp hlt)] at hi
    obtain ⟨hagrees, hexplained⟩ := h' _ fields hi
    rw [List.take_append, List.take_of_length_le (Nat.not_lt.mp hlt), entryRecords_append, ← Nat.add_assoc]
    exact ⟨hagrees, hexplained.mono fun record hrecord => List.mem_append_right _ hrecord⟩

theorem entriesAgree_diagnostics (values : List Diagnostic) :
    EntriesAgree ordinal ((values.map Emission.diagnostic).map Emission.written) := by
  intro i fields hi
  have hmem := List.mem_of_getElem? hi
  simp only [List.map_map, List.mem_map, Function.comp_apply] at hmem
  obtain ⟨value, -, hvalue⟩ := hmem
  have hne : Purpose.diagnostic.type ≠ Purpose.entry.type := by decide
  exact absurd (congrArg Prod.fst hvalue) hne

theorem entriesAgree_entryEmissions {icu : Icu} (hicu : icu.WellFormed) (answers : EntryAnswers) :
    EntriesAgree ordinal ((entryEmissions icu answers ordinal).map Emission.written) := by
  unfold entryEmissions
  rw [List.map_append]
  intro i fields hi
  by_cases hlt : i < (((entryDiagnostics icu answers ordinal).map Emission.diagnostic).map Emission.written).length
  · have hdiagnostic := @entriesAgree_diagnostics ordinal (entryDiagnostics icu answers ordinal) i fields
    rw [List.getElem?_append_left hlt] at hi
    rw [List.take_append_of_le_length (Nat.le_of_lt hlt)]
    exact hdiagnostic hi
  · rw [List.getElem?_append_right (Nat.not_lt.mp hlt)] at hi
    have hrecord := List.mem_singleton.mp (List.mem_of_getElem? hi)
    obtain rfl : fields = fieldsOf (entryRecord icu answers ordinal) := congrArg Prod.snd hrecord
    have hindex := (List.getElem?_eq_some_iff.mp hi).1
    rw [List.map_singleton, List.length_singleton] at hindex
    rw [List.take_append, List.take_of_length_le (Nat.not_lt.mp hlt), Nat.lt_one_iff.mp hindex, List.take_zero,
      List.append_nil, entryRecords_diagnostics, Nat.add_zero]
    exact ⟨agreesButScope_entryRecord hicu answers ordinal, explained_entryRecord answers ordinal⟩

theorem EntryRun.agree {icu : Icu} (hicu : icu.WellFormed) {emitted : List Emission}
    (h : EntryRun icu ordinal emitted) : EntriesAgree ordinal (emitted.map Emission.written) := by
  induction h with
  | cut answers hdone =>
    exact (entriesAgree_entryEmissions hicu answers).prefix_ (hdone.map Emission.written)
  | @diagnostic value ordinal rest _ ih =>
    exact (entriesAgree_diagnostics [value]).append ih
  | @entry answers ordinal rest _ ih =>
    rw [List.map_append]
    apply (entriesAgree_entryEmissions hicu answers).append
    rw [entryRecords_entryEmissions]
    exact ih

end Agree

/-- Whatever the engine answers and wherever a step raises, the entry records of a run pass the validator up to their
scope, numbered from the entries already emitted, and their nulls are explained. -/
theorem emitEntries_agree {icu : Icu} (hicu : icu.WellFormed) (faults : Faults) {Position : Type}
    (engine : Engine Position) (fuel : Nat) (s : Extraction) :
    ∃ records, (final (emitEntries faults icu engine fuel) s).session.emitted = s.session.emitted ++ records ∧
      EntriesAgree s.entries records := by
  obtain ⟨emitted, hemitted, hrun⟩ := traces_emitEntries faults icu engine fuel s
  exact ⟨_, hemitted, hrun.agree hicu⟩

theorem emitEntries_agree_fixedIndex :
    ∃ records, (final (emitEntries noFaults noIcu fixedIndex 2) (Extraction.start openStream)).session.emitted =
        (Extraction.start openStream).session.emitted ++ records ∧
      EntriesAgree (Extraction.start openStream).entries records :=
  emitEntries_agree (fun _ _ _ h => by cases h) noFaults fixedIndex 2 (Extraction.start openStream)

end GetBibleSword.Tool
