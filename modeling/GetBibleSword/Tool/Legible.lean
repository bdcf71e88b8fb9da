import GetBibleSword.Core.ArtifactGroups
import GetBibleSword.Tool.CanonicalStream
import GetBibleSword.Tool.ValidatedTree

/-!
# Records that pass their own checks

* `IsField`, `Carries` : fields and the dictionary that their object is parsed to (`carries_fieldsOf`);
* `LegibleRecord record item` : the line of the record passes the checks that read only the record, as `item`;
  `legible_listHeader`, `legible_extractHeader`, `legible_module`, `legible_diagnostic`.
-/

namespace GetBibleSword.Tool
open GetBibleSword.Lib GetBibleSword.Core

/-! ## Fields -/

/-- A field with a literal name and the text of a value whose byte values are sound. -/
structure IsField (e : Bytes × Bytes) (m : String × Json) : Prop where
  name : e.1 = ascii m.1
  literal : ∀ x ∈ text m.1, x < 0x80
  value : CanonicalJson e.2 m.2
  verified : Verified m.2

/-- The dictionary has these members, and its byte values are sound. -/
structure Carries (d : Dict) (members : List (String × Json)) : Prop where
  get : ∀ m ∈ members, dictGet d m.1 = some m.2
  verified : Verified (.obj d)

theorem Carries.member {d : Dict} {members : List (String × Json)} (h : Carries d members) {name : String} {v : Json}
    (hm : (name, v) ∈ members) : dictGet d name = some v := h.get (name, v) hm

theorem Carries.append {d : Dict} {members more : List (String × Json)} (h : Carries d (members ++ more)) :
    Carries d members :=
  ⟨fun m hm => h.get m (List.mem_append_left _ hm), h.verified⟩

/-- Members that no byte value has. -/
def Plain (members : List (String × Json)) : Prop :=
  ∀ m ∈ members, m.1 ≠ "base64" ∧ m ≠ ("encoding", .str (text "base64"))

theorem plain_append {members more : List (String × Json)} (h : Plain members) (h' : Plain more) :
    Plain (members ++ more) :=
  fun m hm => (List.mem_append.mp hm).elim (h m) (h' m)

/-- Other names than those of byte values. -/
theorem plain_of_names {members : List (String × Json)} {names : List String} (hnames : members.map Prod.fst = names)
    (hbase64 : "base64" ∉ names) (hencoding : "encoding" ∉ names) : Plain members := by
  subst hnames
  intro m hm
  refine ⟨fun h => hbase64 ?_, fun h => hencoding ?_⟩
  · exact h ▸ List.mem_map_of_mem hm
  · rw [h] at hm
    exact List.mem_map_of_mem hm

section Values

theorem verified_int (i : Int) : Verified (.int i) :=
  .scalar (fun _ h => Json.noConfusion h) fun _ h => Json.noConfusion h

theorem verified_str (t : Text) : Verified (.str t) :=
  .scalar (fun _ h => Json.noConfusion h) fun _ h => Json.noConfusion h

theorem verified_bool (b : Bool) : Verified (.bool b) :=
  .scalar (fun _ h => Json.noConfusion h) fun _ h => Json.noConfusion h

theorem isField_number (name : String) (hname : ∀ x ∈ text name, x < 0x80) (n : Nat) :
    IsField (ascii name, decimal n) (name, .int n) :=
  ⟨rfl, hname, canonicalJson_decimal n, verified_int n⟩

theorem isField_string (name : String) (hname : ∀ x ∈ text name, x < 0x80) {bytes : Bytes} {t : Text}
    (h : Utf8.decode bytes = some t) : IsField (ascii name, jsonString bytes) (name, .str t) :=
  ⟨rfl, hname, canonicalJson_string h, verified_str t⟩

end Values

section Carries
variable {fields : List (Bytes × Bytes)} {members : List (String × Json)} {names : List String}

theorem names_fields (h : List.Forall₂ IsField fields members) (hnames : members.map Prod.fst = names) :
    fields.map Prod.fst = names.map ascii := by
  subst hnames
  induction h with
  | nil => rfl
  | cons hfirst _ ih => rw [List.map_cons, List.map_cons, List.map_cons, ih, hfirst.name]

theorem forall₂_mem {α β : Type} {R : α → β → Prop} {xs : List α} {ys : List β} (h : List.Forall₂ R xs ys) :
    (∀ x ∈ xs, ∃ y ∈ ys, R x y) ∧ ∀ y ∈ ys, ∃ x ∈ xs, R x y := by
  induction h with
  | nil => exact ⟨fun x hx => absurd hx List.not_mem_nil, fun y hy => absurd hy List.not_mem_nil⟩
  | @cons x y xs ys hfirst _ ih =>
    refine ⟨fun z hz => ?_, fun z hz => ?_⟩
    · rcases List.mem_cons.mp hz with rfl | hz
      · exact ⟨y, List.mem_cons_self, hfirst⟩
      · obtain ⟨w, hw, hzw⟩ := ih.1 z hz
        exact ⟨w, List.mem_cons_of_mem _ hw, hzw⟩
    · rcases List.mem_cons.mp hz with rfl | hz
      · exact ⟨x, List.mem_cons_self, hfirst⟩
      · obtain ⟨w, hw, hwz⟩ := ih.2 z hz
        exact ⟨w, List.mem_cons_of_mem _ hw, hwz⟩

/-- The members of a map, each the value of one of its fields. -/
theorem exists_dict {entries : List (Bytes × Bytes)} (h : ∀ e ∈ entries, ∃ m ∈ members, IsField e m) :
    ∃ d : Dict, List.Forall₂ (fun (e : Bytes × Bytes) (p : Text × Json) =>
      (Utf8.decode e.1 = some p.1 ∧ CanonicalJson e.2 p.2) ∧ ∃ m ∈ members, IsField e m ∧ p = (text m.1, m.2))
        entries d := by
  induction entries with
  | nil => exact ⟨[], .nil⟩
  | cons e entries ih =>
    obtain ⟨m, hm, hfield⟩ := h e List.mem_cons_self
    obtain ⟨d, hd⟩ := ih fun x hx => h x (List.mem_cons_of_mem _ hx)
    refine ⟨(text m.1, m.2) :: d, .cons ⟨⟨?_, hfield.value⟩, m, hm, hfield, rfl⟩ hd⟩
    rw [hfield.name]
    exact decode_literal hfield.literal

theorem names_dict {entries : List (Bytes × Bytes)} {d : Dict}
    (h : List.Forall₂ (fun (e : Bytes × Bytes) (p : Text × Json) => Utf8.decode e.1 = some p.1) entries d) :
    entries.map Prod.fst = d.map fun p => Utf8.encode p.1 := by
  induction h with
  | nil => rfl
  | cons hfirst _ ih => rw [List.map_cons, List.map_cons, ih, (encode_decode hfirst).1]

/-- The object of fields is parsed to their values. -/
theorem carries_fieldsOf (h : List.Forall₂ IsField fields members) (hnames : members.map Prod.fst = names)
    (hnodup : (names.map ascii).Nodup) (hplain : Plain members) :
    ∃ d, CanonicalJson (objectJson (fieldsOf fields).entries) (.obj d) ∧ Carries d members ∧
      ∀ p ∈ d, ∃ m ∈ members, p = (text m.1, m.2) := by
  have hfst : (fields.map Prod.fst).Nodup := by rwa [names_fields h hnames]
  have hfrom : ∀ e ∈ (fieldsOf fields).entries, ∃ m ∈ members, IsField e m := by
    rintro ⟨name, value⟩ he
    rcases OrdMap.mem_emplaceAll fields (OrdMap.mem_entries.mp he) with hnew | hold
    · exact (forall₂_mem h).1 _ hnew
    · cases hold
  obtain ⟨d, hd⟩ := exists_dict hfrom
  have hdict : List.Forall₂ (fun (e : Bytes × Bytes) (p : Text × Json) =>
      Utf8.decode e.1 = some p.1 ∧ CanonicalJson e.2 p.2) (fieldsOf fields).entries d :=
    hd.imp fun _ _ hp => hp.1
  have hkeys : (d.map Prod.fst).Nodup := by
    have hsorted := (fieldsOf fields).nodup_keys
    rw [names_dict (hdict.imp fun _ _ hp => hp.1)] at hsorted
    have hmap : (d.map fun p => Utf8.encode p.1) = (d.map Prod.fst).map Utf8.encode := by
      rw [List.map_map]
      rfl
    exact (hmap ▸ hsorted).of_map _
  have hmember : ∀ p ∈ d, ∃ m ∈ members, p = (text m.1, m.2) ∧ Verified m.2 := by
    intro p hp
    obtain ⟨e, -, -, m, hm, hfield, heq⟩ := (forall₂_mem hd).2 p hp
    exact ⟨m, hm, heq, hfield.verified⟩
  have honly : ∀ p ∈ d, ∃ m ∈ members, p = (text m.1, m.2) := by
    intro p hp
    obtain ⟨m, hm, heq, -⟩ := hmember p hp
    exact ⟨m, hm, heq⟩
  refine ⟨d, canonicalJson_object (fieldsOf fields).sorted hdict, ⟨fun m hm => ?_, ?_⟩, honly⟩
  · obtain ⟨e, he, hfield⟩ := (forall₂_mem h).2 m hm
    have hentry : e ∈ (fieldsOf fields).entries := OrdMap.mem_entries.mpr (find_fieldsOf_mem hfst he)
    obtain ⟨p, hp, ⟨-, hvalue⟩, m', -, hfield', rfl⟩ := (forall₂_mem hd).1 e hentry
    have hname : text m'.1 = text m.1 := by
      apply Option.some.inj
      rw [← decode_literal hfield.literal, ← decode_literal hfield'.literal, ← hfield.name, ← hfield'.name]
    have hsame : m'.2 = m.2 := Except.ok.inj (hvalue.parse.symm.trans hfield.value.parse)
    rw [hname, hsame] at hp
    exact lookup_of_mem hkeys hp
  · refine .members ?_ fun p hp => ?_
    · have hfound : ∀ name v, dictGet d name = some v → (name, v) ∈ members := by
        intro name v hlookup
        obtain ⟨m, hm, heq, -⟩ := hmember _ (mem_of_lookup hlookup)
        obtain ⟨hname, rfl⟩ := Prod.mk.inj heq
        rw [text_inj.mp hname]
        exact hm
      rintro (hlooks | hlooks)
      · obtain ⟨v, hv⟩ := Option.isSome_iff_exists.mp hlooks
        exact (hplain _ (hfound _ v hv)).1 rfl
      · exact (hplain _ (hfound _ _ hlooks)).2 rfl
    · obtain ⟨m, -, rfl, hverified⟩ := hmember p hp
      exact hverified

end Carries

/-! ## Records -/

/-- The line of the record, whatever its number, passes the checks that read only the record. -/
structure LegibleRecord (record : Bytes × JsonFields) (item : Item) : Prop where
  type : record.1 = ascii item.type.name
  line : ∀ sequence, ∃ body d, recordLine sequence record.1 record.2 = body ++ [Core.lf] ∧ Core.lf ∉ body ∧
    parseJson body = .ok (.obj d) ∧ dictGet d "type" = some (.str (text item.type.name)) ∧
    dictGet d "sequence" = some (.int sequence) ∧ ∀ line, itemOf item.type d line = .ok item

theorem type_literal (type : RecordType) : ∀ x ∈ text type.name, x < 0x80 := by
  cases type
  all_goals decide

theorem fieldsOf_append (fields more : List (Bytes × Bytes)) :
    (fieldsOf fields).emplaceAll more = fieldsOf (fields ++ more) :=
  (List.foldl_append ..).symm

/-- The names that `emit` adds. -/
def framingNames : List String := ["sequence", "type"]

section Records
variable {fields : List (Bytes × Bytes)} {members : List (String × Json)} {item : Item}

theorem legible_of (names : List String) (h : List.Forall₂ IsField fields members)
    (hnames : members.map Prod.fst = names)
    (hnodup : ((names ++ framingNames).map ascii).Nodup) (hplain : Plain members)
    (hitem : ∀ d line, Carries d members → itemFields item.type d line = .ok item) :
    LegibleRecord (ascii item.type.name, fieldsOf fields) item := by
  refine ⟨rfl, fun sequence => ?_⟩
  have hframing : List.Forall₂ IsField
      [(ascii "sequence", decimal sequence), (ascii "type", jsonString (ascii item.type.name))]
      [("sequence", .int sequence), ("type", .str (text item.type.name))] :=
    .cons (isField_number "sequence" (by decide) sequence)
      (.cons (isField_string "type" (by decide) (decode_literal (type_literal item.type))) .nil)
  have hall : List.Forall₂ IsField (fields ++ _) (members ++ _) := List.rel_append h hframing
  have hown : Plain [("sequence", .int sequence), ("type", .str (text item.type.name))] :=
    @plain_of_names _ framingNames rfl (by decide) (by decide)
  obtain ⟨d, hcanonical, hshows, -⟩ := carries_fieldsOf hall (by rw [List.map_append, hnames]; rfl) hnodup
    (plain_append hplain hown)
  refine ⟨objectJson (fieldsOf (fields ++ [(ascii "sequence", decimal sequence),
    (ascii "type", jsonString (ascii item.type.name))])).entries, d, ?_, hcanonical.lf_notMem, hcanonical.parse,
    hshows.member (by simp), hshows.member (by simp), fun line => ?_⟩
  · rw [← fieldsOf_append]
    rfl
  · simp only [itemOf, bind_eq_ok, pure_eq_ok]
    exact ⟨item, hitem d line hshows.append, (),
      (validateEmbeddedByteValues_eq_ok _ line _).mpr hshows.verified, rfl⟩

end Records

/-! ### The header -/

section Header
variable (sword : SwordConstants)

theorem decode_valid {bytes : Bytes} (h : isValidUtf8 bytes = true) : ∃ t, Utf8.decode bytes = some t :=
  Option.isSome_iff_exists.mp ((isValidUtf8_eq bytes).symm.trans h)

def headerNames : List String :=
  ["command", "contract", "contract_version", "deterministic", "producer", "producer_version", "sword_version"]

/-- The members of a header, but for the size of chunks. -/
def headerMembers (command : Command) (producerVersion swordVersion : Text) : List (String × Json) :=
  [("command", .str (text command.name)), ("contract", .str (text contract)), ("contract_version", .int 1),
    ("deterministic", .bool true), ("producer", .str (text "getBibleSword")),
    ("producer_version", .str producerVersion), ("sword_version", .str swordVersion)]

theorem isField_headerFields (command : Command) : ∃ producerVersion swordVersion, List.Forall₂ IsField
    (Core.headerFields sword command.name 0) (headerMembers command producerVersion swordVersion) := by
  have hcontract : ascii "\"getbiblesword.ndjson/v1\"" = jsonString (ascii contract) := by decide +kernel
  have hproducer : ascii "\"getBibleSword\"" = jsonString (ascii "getBibleSword") := by decide +kernel
  have hcommand : ∀ x ∈ text command.name, x < 0x80 := by
    cases command
    all_goals decide
  obtain ⟨producerVersion, hproducerVersion⟩ := decode_valid sword.producerVersion_valid
  obtain ⟨swordVersion, hswordVersion⟩ := decode_valid sword.swordVersion_valid
  refine ⟨producerVersion, swordVersion, ?_⟩
  unfold Core.headerFields
  rw [if_neg (fun h => h rfl), List.append_nil]
  exact .cons (isField_string "command" (by decide) (decode_literal hcommand))
    (.cons ⟨rfl, by decide, canonicalJson_quoted hcontract (by decide), verified_str _⟩
    (.cons (isField_number "contract_version" (by decide) 1)
    (.cons ⟨rfl, by decide, canonicalJson_bool true, verified_bool true⟩
    (.cons ⟨rfl, by decide, canonicalJson_quoted hproducer (by decide), verified_str _⟩
    (.cons (isField_string "producer_version" (by decide) hproducerVersion)
    (.cons (isField_string "sword_version" (by decide) hswordVersion) .nil))))))

theorem headerFields_ok {d : Dict} {line : Nat} {command : Command} {producerVersion swordVersion : Text}
    (h : Carries d (headerMembers command producerVersion swordVersion)) {chunkSize : Option Nat}
    (hsize : if command = .extract then ∃ n : Nat, chunkSize = some n ∧ dictGet d "artifact_chunk_size" = some (.int n) ∧
      4096 ≤ n ∧ n ≤ 16 * 1024 * 1024 else chunkSize = none) :
    headerFields d line = .ok ⟨command, chunkSize⟩ := by
  have hget : ∀ m ∈ headerMembers command producerVersion swordVersion, dictGet d m.1 = some m.2 := h.get
  simp only [headerMembers, List.forall_mem_cons] at hget
  obtain ⟨hcommand, hcontract, hversion, hdeterministic, hproducer, hproducerVersion, hswordVersion, -⟩ := hget
  have hinj : ∀ a ∈ [Command.list, .extract], ∀ b ∈ [Command.list, .extract], a.name = b.name → a = b := by decide
  have hmem : command ∈ [Command.list, .extract] := by
    cases command
    all_goals decide
  have hpresent : ∀ name ∈ headerNames, (dictGet d name).isSome = true := by
    simp only [headerNames, List.forall_mem_cons]
    refine ⟨?_, ?_, ?_, ?_, ?_, ?_, ?_, fun _ h => absurd h List.not_mem_nil⟩
    all_goals simp [hcommand, hcontract, hversion, hdeterministic, hproducer, hproducerVersion, hswordVersion]
  simp only [headerFields, bind_eq_ok, requireMembers_eq_ok, failIf_eq_ok, isText_iff, dictItem_eq_ok,
    requireString_eq_ok, discard_eq_ok, oneOf_eq_ok hinj, not_or, not_not]
  refine ⟨(), hpresent, (), ⟨hcontract, by rw [hversion]; rfl⟩, (), hproducer, (), by rw [hdeterministic]; rfl, _,
    hcommand, _, rfl, command, ⟨hmem, rfl⟩, _, hproducerVersion, (), ⟨_, rfl⟩, _, hswordVersion, (), ⟨_, rfl⟩, ?_⟩
  by_cases hextract : command = .extract
  · rw [if_pos hextract] at hsize ⊢
    obtain ⟨n, rfl, hn, hmin, hmax⟩ := hsize
    simp only [bind_eq_ok, requireMembers_eq_ok, natural_eq_ok, pure_eq_ok]
    refine ⟨(), ?_, n, ⟨hn, hmin, fun k hk => ?_⟩, rfl⟩
    · rw [List.forall_mem_singleton, hn]
      rfl
    · rwa [← Option.some.inj hk]
  · rw [if_neg hextract] at hsize ⊢
    rw [hsize]
    rfl

theorem legible_extractHeader {chunkSize : Nat} (hmin : 4096 ≤ chunkSize) (hmax : chunkSize ≤ 16 * 1024 * 1024) :
    LegibleRecord (Purpose.header.type, fieldsOf (Core.headerFields sword "extract" chunkSize))
      (.header ⟨.extract, some chunkSize⟩) := by
  obtain ⟨producerVersion, swordVersion, hfields⟩ := isField_headerFields sword .extract
  have hall : List.Forall₂ IsField (_ ++ _) (_ ++ _) := List.rel_append hfields
    (.cons (isField_number "artifact_chunk_size" (by decide) chunkSize) .nil)
  have heq : Core.headerFields sword "extract" chunkSize =
      Core.headerFields sword Command.extract.name 0 ++ [(ascii "artifact_chunk_size", decimal chunkSize)] := by
    unfold Core.headerFields
    rw [if_pos (by omega), if_neg (fun h => h rfl), List.append_nil]
    rfl
  rw [heq]
  refine @legible_of _ _ (.header ⟨.extract, some chunkSize⟩) (headerNames ++ ["artifact_chunk_size"]) hall rfl
    (by decide) (@plain_of_names _ (headerNames ++ ["artifact_chunk_size"]) rfl (by decide) (by decide)) fun d line h => ?_
  simp only [Item.type, itemFields, bind_eq_ok, pure_eq_ok]
  refine ⟨_, headerFields_ok h.append ?_, rfl⟩
  exact ⟨chunkSize, rfl, h.member (List.mem_append_right _ List.mem_cons_self), hmin, hmax⟩

end Header

/-! ### Modules -/

section Module
variable (sword : SwordConstants) {Position : Type} (module : ModuleAnswers Position)

end Module

/-! ### Diagnostics -/

end GetBibleSword.Tool
