import GetBibleSword.Tool.Handlers
import GetBibleSword.Core.NdjsonWriter

/-!
# Streams of the writer, as the validator reads them

* `parseJson_objectJson` : an object of the writer is parsed to the values of its fields;
* `Holds d extra fields` : the dictionary holds exactly these members;
* `IsRecordLine`, `IsFooterLine` : a line parsed back to the record or footer it was written for;
* `writer_framing` : every run of `emit` and `finish` that returned is framed, numbered, counted and
  hashed as the validator recomputes it.
-/

namespace GetBibleSword.Tool
open GetBibleSword.Lib GetBibleSword.Core

/-! ## Objects of the writer -/

/-- `e` is written as the member `m`. -/
structure IsMember (e : Bytes × Bytes) (m : Json.Member) : Prop where
  name : Utf8.decode e.1 = some m.name
  text : Utf8.decode e.2 = some m.text
  value : parseJson e.2 = .ok m.value

theorem parseJson_ok {raw : Bytes} {v : Json} (h : parseJson raw = .ok v) :
    ∃ t, Utf8.decode raw = some t ∧ Json.Reads uniqueObject rejectConstant t v := by
  unfold parseJson at h
  split at h
  · cases h
  · rename_i t ht
    split at h
    · rename_i w hw
      cases h
      exact ⟨t, ht, Json.reads_of_loads hw⟩
    · cases h

theorem exists_members (fields : List (Bytes × Bytes))
    (h : ∀ e ∈ fields, (∃ t, Utf8.decode e.1 = some t) ∧ ∃ v, parseJson e.2 = .ok v) :
    ∃ ms, List.Forall₂ IsMember fields ms := by
  induction fields with
  | nil => exact ⟨[], .nil⟩
  | cons e fields ih =>
    obtain ⟨⟨t, ht⟩, v, hv⟩ := h e (by simp)
    obtain ⟨u, hu, -⟩ := parseJson_ok hv
    obtain ⟨ms, hms⟩ := ih fun x hx => h x (List.mem_cons_of_mem _ hx)
    exact ⟨⟨t, u, v⟩ :: ms, .cons ⟨ht, hu, hv⟩ hms⟩

theorem memberJson_eq {e : Bytes × Bytes} {m : Json.Member} (h : IsMember e m) :
    memberJson e = Utf8.encode (Json.memberText m) := by
  obtain ⟨hname, hscalar⟩ := Utf8.decode_eq_some.mp h.name
  obtain ⟨htext, -⟩ := Utf8.decode_eq_some.mp h.text
  rw [memberJson, hname, htext, jsonString_encode hscalar, Json.memberText, Utf8.encode_append,
    Utf8.encode_cons, List.append_assoc]
  rfl

theorem moreMembers_eq {fields : List (Bytes × Bytes)} {ms : List Json.Member}
    (h : List.Forall₂ IsMember fields ms) :
    (fields.flatMap fun e => ascii "," ++ memberJson e) = Utf8.encode (Json.moreMembers ms) := by
  induction h with
  | nil => rfl
  | cons he _ ih =>
    rw [List.flatMap_cons, ih, memberJson_eq he, Json.moreMembers, Json.moreMembers, List.flatMap_cons,
      Utf8.encode_append, Utf8.encode_cons]
    rfl

theorem intercalate_comma (a : Bytes) (parts : List Bytes) :
    List.intercalate (ascii ",") (a :: parts) = a ++ parts.flatMap fun part => ascii "," ++ part := by
  induction parts generalizing a with
  | nil => simp [List.intercalate]
  | cons b parts ih => rw [List.intercalate_cons_cons, ih, List.flatMap_cons]; simp only [List.append_assoc]

/-- The writer's object is the object text of its members. -/
theorem objectJson_eq {fields : List (Bytes × Bytes)} {ms : List Json.Member}
    (h : List.Forall₂ IsMember fields ms) : objectJson fields = Utf8.encode (Json.objectText ms) := by
  cases h with
  | nil => rfl
  | cons he hrest =>
    rw [objectJson, List.map_cons, intercalate_comma, List.flatMap_map, moreMembers_eq hrest,
      memberJson_eq he, Json.objectText, Utf8.encode_cons, Utf8.encode_append, Utf8.encode_append]
    simp only [List.append_assoc]
    rfl

theorem IsMember.valid {e : Bytes × Bytes} {m : Json.Member} (h : IsMember e m) :
    m.Valid uniqueObject rejectConstant := by
  obtain ⟨t, ht, hreads⟩ := parseJson_ok h.value
  rw [h.text, Option.some.injEq] at ht
  subst ht
  exact ⟨Json.noSurrogates_of_scalar (Utf8.decode_eq_some.mp h.name).2, hreads⟩

theorem forall₂_member {fields : List (Bytes × Bytes)} {ms : List Json.Member}
    (h : List.Forall₂ IsMember fields ms) :
    (∀ e ∈ fields, ∃ m ∈ ms, IsMember e m) ∧ (∀ m ∈ ms, ∃ e ∈ fields, IsMember e m) := by
  induction h with
  | nil => simp
  | cons he _ ih =>
    constructor
    · intro e hmem
      rcases List.mem_cons.mp hmem with rfl | hmem
      · exact ⟨_, by simp, he⟩
      · obtain ⟨m, hm, hem⟩ := ih.1 e hmem
        exact ⟨m, List.mem_cons_of_mem _ hm, hem⟩
    · intro m hmem
      rcases List.mem_cons.mp hmem with rfl | hmem
      · exact ⟨_, by simp, he⟩
      · obtain ⟨e, hm, hem⟩ := ih.2 m hmem
        exact ⟨e, List.mem_cons_of_mem _ hm, hem⟩

theorem nodup_names {fields : List (Bytes × Bytes)} {ms : List Json.Member}
    (h : List.Forall₂ IsMember fields ms) (hnodup : (fields.map Prod.fst).Nodup) :
    (ms.map Json.Member.name).Nodup := by
  induction h with
  | nil => simp
  | cons he hrest ih =>
    obtain ⟨hnot, hrestNodup⟩ := List.nodup_cons.mp hnodup
    refine List.nodup_cons.mpr ⟨fun hmem => ?_, ih hrestNodup⟩
    obtain ⟨m', hm', hname⟩ := List.mem_map.mp hmem
    obtain ⟨e', he', hem'⟩ := (forall₂_member hrest).2 m' hm'
    have hsame : e'.1 = _ := Utf8.decode_injective (hname ▸ hem'.name) he.name
    exact hnot (hsame ▸ List.mem_map_of_mem he')

/-- An object of the writer is parsed, and what its names hold is what their texts are parsed to. -/
theorem parseJson_objectJson {fields : List (Bytes × Bytes)} (hnodup : (fields.map Prod.fst).Nodup)
    (h : ∀ e ∈ fields, (∃ t, Utf8.decode e.1 = some t) ∧ ∃ v, parseJson e.2 = .ok v) :
    ∃ d, parseJson (objectJson fields) = .ok (.obj d) ∧ (d.map Prod.fst).Nodup ∧
      ∀ t v, d.lookup t = some v ↔
        ∃ e ∈ fields, Utf8.decode e.1 = some t ∧ parseJson e.2 = .ok v := by
  obtain ⟨ms, hms⟩ := exists_members fields h
  have hnames := nodup_names hms hnodup
  have hfst : (ms.map Json.Member.json).map Prod.fst = ms.map Json.Member.name := by
    rw [List.map_map]
    rfl
  refine ⟨ms.map Json.Member.json, ?_, hfst ▸ hnames, fun t v => ?_⟩
  · rw [objectJson_eq hms]
    refine parseJson_objectText ?_ hnames (objectText_scalar ?_)
    · intro m hm
      obtain ⟨e, -, he⟩ := (forall₂_member hms).2 m hm
      exact he.valid
    · intro m hm
      obtain ⟨e, -, he⟩ := (forall₂_member hms).2 m hm
      exact ⟨(Utf8.decode_eq_some.mp he.name).2, (Utf8.decode_eq_some.mp he.text).2⟩
  · constructor
    · intro hl
      obtain ⟨m, hm, hmt⟩ := List.mem_map.mp (mem_of_lookup hl)
      obtain ⟨e, he, hem⟩ := (forall₂_member hms).2 m hm
      have ht : m.name = t := congrArg Prod.fst hmt
      have hv : m.value = v := congrArg Prod.snd hmt
      exact ⟨e, he, ht ▸ hem.name, hv ▸ hem.value⟩
    · rintro ⟨e, he, ht, hv⟩
      obtain ⟨m, hm, hem⟩ := (forall₂_member hms).1 e he
      have hname : m.name = t := Option.some.inj (hem.name.symm.trans ht)
      have hvalue : m.value = v := Except.ok.inj (hem.value.symm.trans hv)
      refine lookup_of_mem (hfst ▸ hnames) (List.mem_map.mpr ⟨m, hm, ?_⟩)
      rw [Json.Member.json, hname, hvalue]

/-! ## Values of the writer -/

theorem parseJson_decimal (n : Nat) : parseJson (decimal n) = .ok (.int n) := by
  have hhead : (decimalText n).head? ≠ some 0xfeff := by
    intro h
    have := decimalText_ascii n _ (List.mem_of_head? h)
    omega
  have := parseJson_of_reads (Utf8.scalar_of_ascii (decimalText_ascii n)) hhead (Json.reads_decimal n)
  rwa [Utf8.encode_of_ascii (decimalText_ascii n)] at this

theorem parseJson_jsonString {utf8 : Bytes} {t : Text} (h : Utf8.decode utf8 = some t) :
    parseJson (jsonString utf8) = .ok (.str t) := by
  obtain ⟨rfl, hscalar⟩ := Utf8.decode_eq_some.mp h
  rw [jsonString_encode hscalar]
  exact parseJson_of_reads (quote_scalar hscalar) (by simp [Json.quote])
    (Json.reads_quote (Json.noSurrogates_of_scalar hscalar))

theorem parseJson_success (success : Bool) :
    parseJson (if success then ascii "true" else ascii "false") = .ok (.bool success) := by
  have htrue : ascii "true" = Utf8.encode (text "true") := by decide +kernel
  have hfalse : ascii "false" = Utf8.encode (text "false") := by decide +kernel
  cases success with
  | true =>
    rw [if_pos rfl, htrue]
    exact parseJson_of_reads (Utf8.scalar_of_ascii (by decide)) (by decide) Json.reads_true
  | false =>
    rw [if_neg (by decide), hfalse]
    exact parseJson_of_reads (Utf8.scalar_of_ascii (by decide)) (by decide) Json.reads_false

theorem parseJson_footerType : parseJson (ascii "\"footer\"") = .ok (.str (text "footer")) := by
  have hquoted : ascii "\"footer\"" = jsonString (ascii "footer") := by decide +kernel
  have hdecode : Utf8.decode (ascii "footer") = some (text "footer") := by decide +kernel
  rw [hquoted]
  exact parseJson_jsonString hdecode

/-! ## Fields given to a call -/

/-- Names in UTF-8, each with a JSON text on one line. -/
structure WellFormedFields (fields : JsonFields) : Prop where
  names : ∀ name value, fields.find name = some value → ∃ t, Utf8.decode name = some t
  values : ∀ name value, fields.find name = some value → ∃ v, parseJson value = .ok v
  oneLine : ∀ name value, fields.find name = some value → lf ∉ value

/-- A member the writer adds: its name, its text and what the text is parsed to. -/
structure Added where
  name : String
  text : Bytes
  value : Json

structure Added.Valid (a : Added) : Prop where
  ascii : Utf8.decode (ascii a.name) = some (Lib.text a.name)
  value : parseJson a.text = .ok a.value
  oneLine : lf ∉ a.text

def Added.entry (a : Added) : Bytes × Bytes := (Lib.ascii a.name, a.text)

def Added.member (a : Added) : String × Json := (a.name, a.value)

/-- The dictionary holds `members`, what the fields are parsed to, and nothing else. -/
def Holds (d : Dict) (members : List (String × Json)) (fields : JsonFields) : Prop :=
  ∀ t v, d.lookup t = some v ↔ (∃ e ∈ members, t = text e.1 ∧ v = e.2) ∨
    ∃ name value, fields.find name = some value ∧ Utf8.decode name = some t ∧ parseJson value = .ok v

theorem Holds.get {d : Dict} {members : List (String × Json)} {fields : JsonFields}
    (h : Holds d members fields) {name : String} {v : Json} (hm : (name, v) ∈ members) :
    dictGet d name = some v :=
  (h _ _).mpr (.inl ⟨_, hm, rfl, rfl⟩)

section Emplaced
variable {fields : JsonFields} {added : List Added}

theorem mem_emplaced (hnodup : (added.map fun a => Lib.ascii a.name).Nodup)
    (hfree : ∀ a ∈ added, fields.find (ascii a.name) = none) {name value : Bytes} :
    (name, value) ∈ (fields.emplaceAll (added.map Added.entry)).entries ↔
      (∃ a ∈ added, a.entry = (name, value)) ∨ fields.find name = some value := by
  have hfst : (added.map Added.entry).map Prod.fst = added.map fun a => Lib.ascii a.name := by
    rw [List.map_map]
    rfl
  rw [OrdMap.mem_entries, OrdMap.find_emplaceAll _ (hfst ▸ hnodup), List.mem_map]
  intro k hk
  rw [hfst] at hk
  obtain ⟨a, ha, rfl⟩ := List.mem_map.mp hk
  exact hfree a ha

/-- The object of given fields and added members: one line, parsed to exactly these. -/
theorem parseJson_emplaced (added : List Added) (hf : WellFormedFields fields) (ha : ∀ a ∈ added, a.Valid)
    (hnodup : (added.map fun a => Lib.ascii a.name).Nodup)
    (hfree : ∀ a ∈ added, fields.find (ascii a.name) = none) :
    lf ∉ objectJson (fields.emplaceAll (added.map Added.entry)).entries ∧
      ∃ d, parseJson (objectJson (fields.emplaceAll (added.map Added.entry)).entries) = .ok (.obj d) ∧
        Holds d (added.map Added.member) fields := by
  constructor
  · refine lf_notMem_objectJson fun e he => ?_
    rcases (mem_emplaced hnodup hfree).mp he with ⟨a, hmem, hae⟩ | hfind
    · exact (congrArg Prod.snd hae : a.text = e.2) ▸ (ha a hmem).oneLine
    · exact hf.oneLine _ _ hfind
  obtain ⟨d, hparse, -, hlookup⟩ := parseJson_objectJson
    (fields.emplaceAll (added.map Added.entry)).nodup_keys (by
      intro e he
      rcases (mem_emplaced hnodup hfree).mp he with ⟨a, hmem, hae⟩ | hfind
      · obtain rfl : e = a.entry := hae.symm
        exact ⟨⟨_, (ha a hmem).ascii⟩, ⟨_, (ha a hmem).value⟩⟩
      · exact ⟨hf.names _ _ hfind, hf.values _ _ hfind⟩)
  refine ⟨d, hparse, fun t v => ?_⟩
  rw [hlookup]
  constructor
  · rintro ⟨e, he, ht, hv⟩
    rcases (mem_emplaced hnodup hfree).mp he with ⟨a, hmem, hae⟩ | hfind
    · obtain rfl : e = a.entry := hae.symm
      refine .inl ⟨a.member, List.mem_map_of_mem hmem, ?_, ?_⟩
      · exact Option.some.inj (ht.symm.trans (ha a hmem).ascii)
      · exact Except.ok.inj (hv.symm.trans (ha a hmem).value)
    · exact .inr ⟨_, _, hfind, ht, hv⟩
  · rintro (⟨e, he, rfl, rfl⟩ | ⟨name, value, hfind, ht, hv⟩)
    · obtain ⟨a, hmem, rfl⟩ := List.mem_map.mp he
      exact ⟨a.entry, (mem_emplaced hnodup hfree).mpr (.inl ⟨a, hmem, rfl⟩), (ha a hmem).ascii,
        (ha a hmem).value⟩
    · exact ⟨(name, value), (mem_emplaced hnodup hfree).mpr (.inr hfind), ht, hv⟩

end Emplaced

/-! ## Lines -/

theorem find_of_contains {fields : JsonFields} {name : Bytes} (h : fields.contains name = false) :
    fields.find name = none :=
  Option.not_isSome_iff_eq_none.mp (by rw [OrdMap.contains] at h; rw [h]; decide)

/-- The names `finish` adds. -/
def footerNames : List String := ["counts", "sequence", "stream_sha256", "success", "type"]

theorem decode_footerNames : ∀ name ∈ footerNames, Utf8.decode (ascii name) = some (text name) := by
  decide +kernel

/-- The body of a line of `emit`, without its LF. -/
theorem recordLine_parse {fields : JsonFields} (hf : WellFormedFields fields) {type : Bytes} {t : Text}
    (ht : Utf8.decode type = some t) (hsequence : fields.contains (ascii "sequence") = false)
    (htype : fields.contains (ascii "type") = false) (sequence : Nat) :
    ∃ body, recordLine sequence type fields = body ++ [lf] ∧ lf ∉ body ∧
      ∃ d, parseJson body = .ok (.obj d) ∧
        Holds d [("sequence", .int sequence), ("type", .str t)] fields := by
  have h := parseJson_emplaced [⟨"sequence", decimal sequence, .int sequence⟩,
    ⟨"type", jsonString type, .str t⟩] hf (by
      intro a ha
      simp only [List.mem_cons, List.not_mem_nil, or_false] at ha
      rcases ha with rfl | rfl
      · exact ⟨decode_footerNames "sequence" (by decide), parseJson_decimal _, lf_notMem_decimal _⟩
      · exact ⟨decode_footerNames "type" (by decide), parseJson_jsonString ht, lf_notMem_jsonString _⟩)
    (by simp only [List.map_cons, List.map_nil]; decide) (by
      intro a ha
      simp only [List.mem_cons, List.not_mem_nil, or_false] at ha
      rcases ha with rfl | rfl
      · exact find_of_contains hsequence
      · exact find_of_contains htype)
  exact ⟨_, rfl, h⟩

/-- The counts of the writer as the parser returns them. -/
structure IsCounts (counts : Dict) (types : List Bytes) : Prop where
  nodup : (counts.map Prod.fst).Nodup
  lookup : ∀ t v, counts.lookup t = some v ↔
    ∃ type ∈ types, Utf8.decode type = some t ∧ v = .int (types.count type)

theorem counts_parse {w : NdjsonWriter} {start : Bytes} {records : List (Bytes × JsonFields)}
    (hw : Wrote w start records) (htypes : ∀ r ∈ records, ∃ t, Utf8.decode r.1 = some t) :
    lf ∉ objectJson (w.counts.entries.map fun e => (e.1, decimal e.2)) ∧
      ∃ counts, parseJson (objectJson (w.counts.entries.map fun e => (e.1, decimal e.2))) =
        .ok (.obj counts) ∧ IsCounts counts (records.map Prod.fst) := by
  have hmem {type : Bytes} {n : Nat} : (type, n) ∈ w.counts.entries ↔
      type ∈ records.map Prod.fst ∧ n = (records.map Prod.fst).count type := by
    rw [OrdMap.mem_entries, hw.counts]
    by_cases h0 : (records.map Prod.fst).count type = 0
    · rw [if_pos h0]
      have := List.count_eq_zero.mp h0
      simp [this]
    · rw [if_neg h0, Option.some.injEq]
      have : type ∈ records.map Prod.fst := by
        by_contra hn
        exact h0 (List.count_eq_zero.mpr hn)
      exact ⟨fun h => ⟨this, h.symm⟩, fun h => h.2.symm⟩
  have hdecode {type : Bytes} (h : type ∈ records.map Prod.fst) : ∃ t, Utf8.decode type = some t := by
    obtain ⟨r, hr, rfl⟩ := List.mem_map.mp h
    exact htypes r hr
  constructor
  · refine lf_notMem_objectJson fun e he => ?_
    obtain ⟨x, -, rfl⟩ := List.mem_map.mp he
    exact lf_notMem_decimal _
  have hfst : (w.counts.entries.map fun e => (e.1, decimal e.2)).map Prod.fst =
      w.counts.entries.map Prod.fst := by
    rw [List.map_map]
    rfl
  obtain ⟨d, hparse, hnodup, hlookup⟩ := parseJson_objectJson (hfst ▸ w.counts.nodup_keys) (by
      intro e he
      obtain ⟨x, hx, rfl⟩ := List.mem_map.mp he
      exact ⟨hdecode (hmem.mp hx).1, _, parseJson_decimal _⟩)
  refine ⟨d, hparse, hnodup, fun t v => ?_⟩
  rw [hlookup]
  constructor
  · rintro ⟨e, he, ht, hv⟩
    obtain ⟨x, hx, rfl⟩ := List.mem_map.mp he
    obtain ⟨htype, hn⟩ := hmem.mp hx
    refine ⟨x.1, htype, ht, ?_⟩
    rw [← hn]
    exact (Except.ok.inj ((parseJson_decimal x.2).symm.trans hv)).symm
  · rintro ⟨type, htype, ht, rfl⟩
    exact ⟨(type, decimal ((records.map Prod.fst).count type)),
      List.mem_map.mpr ⟨_, hmem.mpr ⟨htype, rfl⟩, rfl⟩, ht, parseJson_decimal _⟩

/-- The body of the line of `finish`, without its LF. -/
theorem footerLine_parse {w : NdjsonWriter} {start : Bytes} {records : List (Bytes × JsonFields)}
    (hw : Wrote w start records) (htypes : ∀ r ∈ records, ∃ t, Utf8.decode r.1 = some t)
    {fields : JsonFields} (hf : WellFormedFields fields)
    (hfree : ∀ name ∈ footerNames, fields.contains (ascii name) = false) (success : Bool) :
    ∃ body, footerLine w success fields = body ++ [lf] ∧ lf ∉ body ∧
      ∃ d counts, parseJson body = .ok (.obj d) ∧ IsCounts counts (records.map Prod.fst) ∧
        Holds d [("counts", .obj counts), ("sequence", .int records.length),
          ("stream_sha256", .str (Sha256.hexdigest (recordLines records).flatten)),
          ("success", .bool success), ("type", .str (text "footer"))] fields := by
  obtain ⟨hline, counts, hcounts, his⟩ := counts_parse hw htypes
  have hdigest : w.streamHash.hexDigest =
      Utf8.encode (Sha256.hexdigest (recordLines records).flatten) := by
    rw [hw.streamHash.hexDigest, Utf8.encode_of_ascii (hexdigest_ascii _)]
  have hdecode : Utf8.decode w.streamHash.hexDigest =
      some (Sha256.hexdigest (recordLines records).flatten) := by
    rw [hdigest, Utf8.decode_encode (Utf8.scalar_of_ascii (hexdigest_ascii _))]
  have hname := decode_footerNames
  have h := parseJson_emplaced [
    ⟨"counts", objectJson (w.counts.entries.map fun e => (e.1, decimal e.2)), .obj counts⟩,
    ⟨"sequence", decimal w.sequence, .int w.sequence⟩,
    ⟨"stream_sha256", jsonString w.streamHash.hexDigest,
      .str (Sha256.hexdigest (recordLines records).flatten)⟩,
    ⟨"success", if success then ascii "true" else ascii "false", .bool success⟩,
    ⟨"type", ascii "\"footer\"", .str (text "footer")⟩] hf (by
      intro a ha
      simp only [List.mem_cons, List.not_mem_nil, or_false] at ha
      rcases ha with rfl | rfl | rfl | rfl | rfl
      · exact ⟨hname "counts" (by decide), hcounts, hline⟩
      · exact ⟨hname "sequence" (by decide), parseJson_decimal _, lf_notMem_decimal _⟩
      · exact ⟨hname "stream_sha256" (by decide), parseJson_jsonString hdecode, lf_notMem_jsonString _⟩
      · exact ⟨hname "success" (by decide), parseJson_success success, by cases success <;> decide⟩
      · exact ⟨hname "type" (by decide), parseJson_footerType, by decide⟩)
    (by simp only [List.map_cons, List.map_nil]; decide) (by
      intro a ha
      simp only [List.mem_cons, List.not_mem_nil, or_false] at ha
      rcases ha with rfl | rfl | rfl | rfl | rfl
      · exact find_of_contains (hfree "counts" (by decide))
      · exact find_of_contains (hfree "sequence" (by decide))
      · exact find_of_contains (hfree "stream_sha256" (by decide))
      · exact find_of_contains (hfree "success" (by decide))
      · exact find_of_contains (hfree "type" (by decide)))
  obtain ⟨hlf, d, hparse, hholds⟩ := h
  rw [← hw.sequence]
  exact ⟨_, rfl, hlf, d, counts, hparse, his, hholds⟩

/-! ## Streams -/

/-- `body` is the line of a record: parsed, it holds the record's fields, its number and its type. -/
def IsRecordLine (sequence : Nat) (record : Bytes × JsonFields) (body : Bytes) : Prop :=
  ∃ d t, Utf8.decode record.1 = some t ∧ parseJsonObject body (sequence + 1) = .ok d ∧
    Holds d [("sequence", .int sequence), ("type", .str t)] record.2

/-- `body` is the line of a footer behind the lines of `bodies`, for records of the types `types`. -/
def IsFooterLine (bodies : List Bytes) (types : List Bytes) (success : Bool) (fields : JsonFields)
    (body : Bytes) : Prop :=
  ∃ d counts, parseJsonObject body (bodies.length + 1) = .ok d ∧ IsCounts counts types ∧
    Holds d [("counts", .obj counts), ("sequence", .int bodies.length),
      ("stream_sha256", .str (Sha256.hexdigest (terminated bodies).flatten)),
      ("success", .bool success), ("type", .str (text "footer"))] fields

/-- The validator's framing, type and sequence checks pass on every line, and its digest and count
checks on the last, in a state that has counted and hashed the lines before it. -/
def PassesFraming (maximumRecordBytes : Nat) (types : List Bytes) (bodies : List Bytes) (footer : Bytes)
    (input : Bytes) : Prop :=
  rawLines input.length (maximumRecordBytes + 1) input = terminated (bodies ++ [footer]) ∧
  (∀ i type body, types[i]? = some type → bodies[i]? = some body →
    ∃ recordType d, ascii recordType.name = type ∧
      readRecord maximumRecordBytes i (body ++ [lf]) (i + 1) = .ok (recordType, d)) ∧
  ∃ d, readRecord maximumRecordBytes bodies.length (footer ++ [lf]) (bodies.length + 1) =
      .ok (.footer, d) ∧
    ∀ v : Validator, v.streamHashed = (terminated bodies).flatten →
      (∀ type, v.counts type = types.count (ascii type.name)) →
      v.checkDigest d (bodies.length + 1) = .ok () ∧ v.checkCounts d (bodies.length + 1) = .ok ()

/-- The lines of a run, without their LF. -/
theorem exists_bodies {records : List (Bytes × JsonFields)}
    (hfree : ∀ record ∈ records, record.2.contains (ascii "sequence") = false ∧
      record.2.contains (ascii "type") = false)
    (hrecords : ∀ record ∈ records, (∃ t, Utf8.decode record.1 = some t) ∧ WellFormedFields record.2) :
    ∃ bodies, recordLines records = terminated bodies ∧ bodies.length = records.length ∧
      (∀ body ∈ bodies, lf ∉ body) ∧
      ∀ i record body, records[i]? = some record → bodies[i]? = some body → IsRecordLine i record body := by
  induction records using List.reverseRecOn with
  | nil => exact ⟨[], rfl, rfl, by simp, by simp⟩
  | append_singleton records record ih =>
    obtain ⟨bodies, hlines, hlength, hlf, hall⟩ := ih
      (fun r hr => hfree r (List.mem_append_left _ hr)) fun r hr => hrecords r (List.mem_append_left _ hr)
    obtain ⟨⟨t, ht⟩, hfields⟩ := hrecords record (by simp)
    obtain ⟨hsequence, htype⟩ := hfree record (by simp)
    obtain ⟨body, hbody, hnot, d, hparse, hholds⟩ :=
      recordLine_parse hfields ht hsequence htype records.length
    refine ⟨bodies ++ [body], ?_, by simp [hlength], ?_, ?_⟩
    · rw [recordLines, List.mapIdx_concat, ← recordLines, hlines, hbody, terminated, terminated,
        List.map_append]
      rfl
    · intro b hb
      rcases List.mem_append.mp hb with hb | hb
      · exact hlf b hb
      · exact List.mem_singleton.mp hb ▸ hnot
    · intro i r b hr hb
      by_cases hi : i < records.length
      · rw [List.getElem?_append_left hi] at hr
        rw [List.getElem?_append_left (hlength ▸ hi)] at hb
        exact hall i r b hr hb
      · rw [List.getElem?_append_right (by omega)] at hr
        rw [List.getElem?_append_right (by omega), hlength] at hb
        obtain ⟨hi0, rfl⟩ := List.getElem?_eq_some_iff.mp hr
        obtain ⟨hi1, rfl⟩ := List.getElem?_eq_some_iff.mp hb
        obtain rfl : i = records.length := by simp at hi0; omega
        simp only [List.getElem_singleton]
        exact ⟨d, t, ht, parseJsonObject_of_parseJson hparse _, hholds⟩

/-- The framing checks on a run whose types are record types, short enough for the limit. -/
theorem passesFraming {records : List (Bytes × JsonFields)} {bodies : List Bytes} {footer : Bytes}
    {success : Bool} {fields : JsonFields} {maximumRecordBytes : Nat}
    (hbodies : ∀ body ∈ bodies ++ [footer], lf ∉ body)
    (hlines : ∀ i record body, records[i]? = some record → bodies[i]? = some body →
      IsRecordLine i record body)
    (hfooter : IsFooterLine bodies (records.map Prod.fst) success fields footer)
    (htypes : ∀ record ∈ records, ∃ type, type ≠ RecordType.footer ∧ record.1 = ascii type.name)
    (hlimit : ∀ body ∈ bodies ++ [footer], body.length < maximumRecordBytes) :
    PassesFraming maximumRecordBytes (records.map Prod.fst) bodies footer
      (terminated (bodies ++ [footer])).flatten := by
  have hname : ∀ type, Utf8.decode (ascii (RecordType.name type)) = some (text type.name) := by
    intro type
    cases type <;> decide +kernel
  refine ⟨?_, ?_, ?_⟩
  · exact rawLines_terminated _ (length_terminated _) fun body hb =>
      ⟨hbodies body hb, Nat.lt_succ_of_lt (hlimit body hb)⟩
  · intro i type body htype hbody
    rw [List.getElem?_map] at htype
    obtain ⟨record, hrecord, rfl⟩ := Option.map_eq_some_iff.mp htype
    obtain ⟨d, t, ht, hparse, hholds⟩ := hlines i record body hrecord hbody
    obtain ⟨recordType, -, hrt⟩ := htypes record (List.mem_of_getElem? hrecord)
    obtain rfl : text recordType.name = t := Option.some.inj ((hname recordType).symm.trans (hrt ▸ ht))
    refine ⟨recordType, d, hrt.symm, readRecord_eq_ok.mpr (.of_body ?_ ?_ ?_ ?_)⟩
    · exact hlimit body (List.mem_append_left _ (List.mem_of_getElem? hbody))
    · exact parseJsonObject_eq_ok.mp hparse
    · exact hholds.get (by simp)
    · exact hholds.get (by simp)
  · obtain ⟨d, counts, hparse, hcounts, hholds⟩ := hfooter
    refine ⟨d, readRecord_eq_ok.mpr (.of_body (hlimit footer (by simp)) (parseJsonObject_eq_ok.mp hparse)
      (hholds.get (by simp [RecordType.name])) (hholds.get (by simp))), fun v hhashed hvcounts => ?_⟩
    have hlookup (type : RecordType) (v : Json) : counts.lookup (text type.name) = some v ↔
        ascii type.name ∈ records.map Prod.fst ∧
          v = .int ((records.map Prod.fst).count (ascii type.name)) := by
      rw [hcounts.lookup]
      constructor
      · rintro ⟨t, ht, hdecode, hv⟩
        obtain rfl := Utf8.decode_injective hdecode (hname type)
        exact ⟨ht, hv⟩
      · rintro ⟨ht, rfl⟩
        exact ⟨_, ht, hname type, rfl⟩
    obtain ⟨normalized, hok, hnormalized⟩ := normalizedCounts_ok (bodies.length + 1) counts (by
      rintro ⟨name, value⟩ he
      obtain ⟨type, ht, hdecode, rfl⟩ := (hcounts.lookup name value).mp (lookup_of_mem hcounts.nodup he)
      obtain ⟨record, hrecord, rfl⟩ := List.mem_map.mp ht
      obtain ⟨recordType, hne, hrt⟩ := htypes record hrecord
      obtain rfl : text recordType.name = name :=
        Option.some.inj ((hname recordType).symm.trans (hrt ▸ hdecode))
      exact ⟨recordType, hne, _, rfl⟩)
    constructor
    · rw [Validator.checkDigest_eq_ok, hhashed]
      exact hholds.get (by simp)
    · refine Validator.checkCounts_eq_ok.mpr ⟨counts, normalized, hholds.get (by simp), hok, ?_⟩
      intro type _
      have hmem : v.counts type ≠ 0 ↔ ascii type.name ∈ records.map Prod.fst := by
        rw [hvcounts, ne_eq, List.count_eq_zero, not_not]
      by_cases h0 : v.counts type = 0
      · rw [if_pos h0]
        by_contra hne
        obtain ⟨c, hc⟩ := Option.ne_none_iff_exists'.mp hne
        exact hmem.mpr ((hlookup type _).mp ((hnormalized type c).mp hc).2).1 h0
      · rw [if_neg h0]
        have hin := hmem.mp h0
        refine (hnormalized type _).mpr ⟨?_, (hlookup type _).mpr ⟨hin, by rw [hvcounts]⟩⟩
        rintro rfl
        obtain ⟨record, hrecord, hfst⟩ := List.mem_map.mp hin
        obtain ⟨recordType, hne, hrt⟩ := htypes record hrecord
        have hinj : ∀ type : RecordType, ascii type.name = ascii RecordType.footer.name →
            type = .footer := by
          intro type
          cases type <;> decide +kernel
        exact hne (hinj recordType (hrt.symm.trans hfst))

/-- Every run of `emit` followed by `finish` that returned: the octets written are one line for each
call, the lines are parsed back to the fields of the calls, and the footer holds what a reader
recomputes from the lines before it. -/
theorem writer_framing {out : OStream} {records : List (Bytes × JsonFields)} {fields : JsonFields}
    {success : Bool} {w w' : NdjsonWriter} (hrun : emitAll records (.new out) = .ok () w)
    (hfinish : finish success fields w = .ok () w')
    (hrecords : ∀ record ∈ records, (∃ t, Utf8.decode record.1 = some t) ∧ WellFormedFields record.2)
    (hfields : WellFormedFields fields)
    (hfree : ∀ name ∈ footerNames, fields.contains (ascii name) = false) :
    ∃ bodies footer, bodies.length = records.length ∧ (∀ body ∈ bodies ++ [footer], lf ∉ body) ∧
      w'.output.written = out.written ++ (terminated (bodies ++ [footer])).flatten ∧
      (∀ i record body, records[i]? = some record → bodies[i]? = some body → IsRecordLine i record body) ∧
      IsFooterLine bodies (records.map Prod.fst) success fields footer ∧
      ∀ maximumRecordBytes,
        (∀ record ∈ records, ∃ type, type ≠ RecordType.footer ∧ record.1 = ascii type.name) →
        (∀ body ∈ bodies ++ [footer], body.length < maximumRecordBytes) →
        PassesFraming maximumRecordBytes (records.map Prod.fst) bodies footer
          (terminated (bodies ++ [footer])).flatten := by
  have hw : Wrote w out.written records := wrote_emitAll records (wrote_new out) hrun
  obtain ⟨bodies, hlines, hlength, hlf, hparse⟩ := exists_bodies hw.free hrecords
  obtain ⟨footer, hfooter, hnot, d, counts, hfooterParse, hcounts, hholds⟩ :=
    footerLine_parse hw (fun r hr => (hrecords r hr).1) hfields hfree success
  obtain ⟨-, hgood, rfl⟩ := finish_ok.mp hfinish
  have hall : ∀ body ∈ bodies ++ [footer], lf ∉ body := by
    intro body hb
    rcases List.mem_append.mp hb with hb | hb
    · exact hlf body hb
    · exact List.mem_singleton.mp hb ▸ hnot
  have his : IsFooterLine bodies (records.map Prod.fst) success fields footer := by
    refine ⟨d, counts, parseJsonObject_of_parseJson hfooterParse _, hcounts, ?_⟩
    rw [hlength, ← hlines]
    exact hholds
  refine ⟨bodies, footer, hlength, hall, ?_, hparse, his, fun maximumRecordBytes htypes hlimit =>
    passesFraming hall hparse his htypes hlimit⟩
  have hwrite : (w.output.write (footerLine w success fields)).good = true := by
    unfold OStream.flush at hgood
    split_ifs at hgood with hflush
    · exact hgood
  rw [NdjsonWriter.footed, OStream.flush_written, OStream.write_written hwrite, hw.written, hlines, hfooter,
    terminated, terminated, List.map_append, List.flatten_append, List.append_assoc]
  simp

/-- A stream that accepts every write. -/
def acceptAll : OStream := ⟨[], none, true, true⟩

/-- A diagnostic with the given members. -/
def diagnosticRecord (fields : List (Bytes × Bytes)) : Bytes × JsonFields :=
  (ascii "diagnostic", OrdMap.empty.emplaceAll fields)

theorem emitAll_diagnostic (fields : List (Bytes × Bytes))
    (hsequence : (diagnosticRecord fields).2.contains (ascii "sequence") = false)
    (htype : (diagnosticRecord fields).2.contains (ascii "type") = false) :
    emitAll [diagnosticRecord fields] (.new acceptAll) =
      .ok () ((NdjsonWriter.new acceptAll).emitted (ascii "diagnostic") (diagnosticRecord fields).2) := by
  rw [emitAll, bind_ok]
  exact ⟨(), _, emit_ok.mpr ⟨rfl, hsequence, htype, rfl, rfl⟩, rfl⟩

theorem finish_diagnostic (fields : List (Bytes × Bytes)) :
    finish true .empty
        ((NdjsonWriter.new acceptAll).emitted (ascii "diagnostic") (diagnosticRecord fields).2) =
      .ok () (((NdjsonWriter.new acceptAll).emitted (ascii "diagnostic")
        (diagnosticRecord fields).2).footed true .empty) :=
  finish_ok.mpr ⟨rfl, rfl, rfl⟩

theorem writer_framing_diagnostic : ∃ w w', emitAll [diagnosticRecord []] (.new acceptAll) = .ok () w ∧
    finish true .empty w = .ok () w' ∧
    ∃ bodies footer, bodies.length = 1 ∧ (∀ body ∈ bodies ++ [footer], lf ∉ body) ∧
      w'.output.written = [] ++ (terminated (bodies ++ [footer])).flatten ∧
      (∀ i record body, [diagnosticRecord []][i]? = some record → bodies[i]? = some body →
        IsRecordLine i record body) ∧
      IsFooterLine bodies [ascii "diagnostic"] true .empty footer ∧
      ∀ maximumRecordBytes,
        (∀ record ∈ [diagnosticRecord []], ∃ type, type ≠ RecordType.footer ∧
          record.1 = ascii type.name) →
        (∀ body ∈ bodies ++ [footer], body.length < maximumRecordBytes) →
        PassesFraming maximumRecordBytes [ascii "diagnostic"] bodies footer
          (terminated (bodies ++ [footer])).flatten := by
  have hrun := emitAll_diagnostic [] rfl rfl
  have hfinish := finish_diagnostic []
  have hempty : WellFormedFields OrdMap.empty := ⟨nofun, nofun, nofun⟩
  exact ⟨_, _, hrun, hfinish, writer_framing hrun hfinish
    (fun record hr => List.mem_singleton.mp hr ▸ ⟨⟨text "diagnostic", by decide +kernel⟩, hempty⟩) hempty
    (fun name _ => rfl)⟩

/-- A field name that is not UTF-8: every call returns and the value is a JSON text, but the line is
not JSON. -/
theorem writer_framing_not_utf8 : ∃ w w',
    emitAll [diagnosticRecord [([0xff], ascii "1")]] (.new acceptAll) = .ok () w ∧
    finish true .empty w = .ok () w' ∧
    (∀ name value, (diagnosticRecord [([0xff], ascii "1")]).2.find name = some value →
      lf ∉ value ∧ parseJson value = .ok (.int 1)) ∧
    Utf8.decode (diagnosticRecord [([0xff], ascii "1")]).1 = some (text "diagnostic") ∧
    ∀ d, parseJsonObject (w'.output.written.takeWhile fun byte => decide (byte ≠ lf)) 1 ≠ .ok d := by
  have hrun := emitAll_diagnostic [([0xff], ascii "1")] (by decide) (by decide)
  have hfinish := finish_diagnostic [([0xff], ascii "1")]
  refine ⟨_, _, hrun, hfinish, ?_, by decide +kernel, ?_⟩
  · intro name value h
    have hmem : (name, value) ∈ [(([0xff] : Bytes), ascii "1")] := OrdMap.mem_entries.mpr h
    obtain ⟨-, rfl⟩ := Prod.mk.inj (List.mem_singleton.mp hmem)
    exact ⟨by decide, rfl⟩
  · intro d h
    obtain ⟨t, ht, -⟩ := parseJson_ok (parseJsonObject_eq_ok.mp h)
    have hnone : Utf8.decode ((((NdjsonWriter.new acceptAll).emitted (ascii "diagnostic")
        (diagnosticRecord [([0xff], ascii "1")]).2).footed true .empty).output.written.takeWhile
          fun byte => decide (byte ≠ lf)) = none := by decide +kernel
    rw [hnone] at ht
    cases ht

end GetBibleSword.Tool
