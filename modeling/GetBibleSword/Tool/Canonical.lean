import GetBibleSword.Core.Session
import GetBibleSword.Tool.WriterStream

/-!
# Canonical lines

* `CanonicalJson bytes v` : the octets are the canonical text of `v`; one lemma for each of the
  producer's functions (`canonicalJson_string`, `canonicalJson_byteValue`, `canonicalJson_object`, ...);
* `CanonicalLine` : a line that is canonical JSON and one LF;
* `canonicalLine_record`, `canonicalLine_footer` : what `emit` and `finish` write is one, from fields
  whose values are canonical.
-/

namespace GetBibleSword.Tool
open GetBibleSword.Lib GetBibleSword.Core

/-- The octets are the canonical text of `v`. -/
def CanonicalJson (bytes : Bytes) (v : Json) : Prop :=
  ∃ t, bytes = Utf8.encode t ∧ Json.Canonical uniqueObject rejectConstant t v

/-! ## What it gives -/

section Canonical
variable {bytes : Bytes} {v : Json}

theorem CanonicalJson.parse (h : CanonicalJson bytes v) : parseJson bytes = .ok v := by
  obtain ⟨t, rfl, h⟩ := h
  apply parseJson_of_reads (fun c hc => (h.printable c hc).2) ?_ h.reads
  obtain ⟨c, s, rfl, hlow, -, -⟩ := h.start
  rw [List.head?_cons, ne_eq, Option.some.injEq]
  omega

theorem CanonicalJson.lf_notMem (h : CanonicalJson bytes v) : Core.lf ∉ bytes := by
  obtain ⟨t, rfl, h⟩ := h
  intro hlf
  obtain ⟨c, hc, hin⟩ := List.mem_flatMap.mp hlf
  have hc' := h.printable c hc
  by_cases hascii : c < 0x80
  · rw [Utf8.encodeChar, if_pos hascii, List.mem_singleton] at hin
    have hval := congrArg Fin.val hin
    have : Core.lf.val = 0x0a := rfl
    have := hc'.1
    rw [octet_val] at hval
    omega
  · have := encodeChar_high (by omega) hc'.2 _ hin
    revert this
    decide

end Canonical

/-! ## The producer's texts -/

theorem encode_decode {bytes : Bytes} {t : Text} (h : Utf8.decode bytes = some t) :
    bytes = Utf8.encode t ∧ ∀ c ∈ t, Utf8.IsScalar c := Utf8.decode_eq_some.mp h

theorem canonicalJson_string {bytes : Bytes} {t : Text} (h : Utf8.decode bytes = some t) :
    CanonicalJson (jsonString bytes) (.str t) := by
  obtain ⟨rfl, hscalar⟩ := encode_decode h
  exact ⟨_, jsonString_encode hscalar, Json.canonical_quote hscalar⟩

theorem latin1_ascii {s : String} (h : ∀ x ∈ text s, x < 0x80) : latin1 (ascii s) = text s := by
  rw [latin1, ascii, text, List.map_map]
  apply List.map_congr_left
  intro b hb
  have := h b.toNat (List.mem_map.mpr ⟨b, hb, rfl⟩)
  rw [Function.comp_apply, octet_val]
  omega

theorem decode_literal {s : String} (h : ∀ x ∈ text s, x < 0x80) :
    Utf8.decode (ascii s) = some (text s) := by
  rw [Utf8.decode_ascii, latin1_ascii h]
  intro x hx
  obtain ⟨b, hb, rfl⟩ := List.mem_map.mp hx
  have := h b.toNat (List.mem_map.mpr ⟨b, hb, rfl⟩)
  rw [octet_val]
  omega

theorem encode_literal {s : String} (h : ∀ x ∈ text s, x < 0x80) : Utf8.encode (text s) = ascii s :=
  (encode_decode (decode_literal h)).1.symm

theorem canonicalJson_literal {s : String} (h : ∀ x ∈ text s, x < 0x80) :
    CanonicalJson (jsonString (ascii s)) (.str (text s)) :=
  canonicalJson_string (decode_literal h)

theorem canonicalJson_null : CanonicalJson (ascii "null") .null :=
  ⟨_, (encode_literal (by decide)).symm, Json.canonical_null⟩

theorem canonicalJson_bool (b : Bool) :
    CanonicalJson (if b then ascii "true" else ascii "false") (.bool b) := by
  refine ⟨_, ?_, Json.canonical_bool b⟩
  cases b with
  | true => exact (encode_literal (by decide)).symm
  | false => exact (encode_literal (by decide)).symm

/-- `std::to_string` of a signed number. -/
theorem canonicalJson_integer (i : Int) : CanonicalJson (integer i) (.int i) := by
  refine ⟨Json.intText i, ?_, Json.canonical_int i⟩
  rw [integer, Utf8.encode_of_ascii fun c hc => (Json.intText_ascii i c hc).2]

theorem canonicalJson_decimal (n : Nat) : CanonicalJson (decimal n) (.int n) :=
  canonicalJson_integer n

/-- The members of an object, each with its canonical text. -/
theorem exists_canonicalMembers {entries : List (Bytes × Bytes)} {members : List (Text × Json)}
    (h : List.Forall₂ (fun e m => Utf8.decode e.1 = some m.1 ∧ CanonicalJson e.2 m.2) entries members) :
    ∃ ms : List Json.Member, ms.map Json.Member.json = members ∧ List.Forall₂ IsMember entries ms ∧
      ∀ m ∈ ms, Json.Canonical uniqueObject rejectConstant m.text m.value := by
  induction h with
  | nil => exact ⟨[], rfl, .nil, by simp⟩
  | @cons e m entries members hfirst _ ih =>
    obtain ⟨ms, hjson, hentries, hvalue⟩ := ih
    obtain ⟨hdecode, hcanonical⟩ := hfirst
    have hparse := hcanonical.parse
    obtain ⟨t, htext, ht⟩ := hcanonical
    have hdecodeText : Utf8.decode e.2 = some t :=
      Utf8.decode_eq_some.mpr ⟨htext, fun c hc => (ht.printable c hc).2⟩
    refine ⟨⟨m.1, t, m.2⟩ :: ms, ?_, .cons ⟨hdecode, hdecodeText, hparse⟩ hentries, ?_⟩
    · rw [List.map_cons, hjson]
      rfl
    · exact List.forall_mem_cons.mpr ⟨ht, hvalue⟩

theorem pairwise_names {entries : List (Bytes × Bytes)} {ms : List Json.Member}
    (h : List.Forall₂ IsMember entries ms) : entries.map Prod.fst = ms.map fun m => Utf8.encode m.name := by
  induction h with
  | nil => rfl
  | cons hfirst _ ih => rw [List.map_cons, List.map_cons, ih, (encode_decode hfirst.name).1]

/-- The loop over a map writes the canonical text of the object. -/
theorem canonicalJson_object {entries : List (Bytes × Bytes)} {members : List (Text × Json)}
    (hsorted : (entries.map Prod.fst).Pairwise (· < ·))
    (h : List.Forall₂ (fun e m => Utf8.decode e.1 = some m.1 ∧ CanonicalJson e.2 m.2) entries members) :
    CanonicalJson (objectJson entries) (.obj members) := by
  obtain ⟨ms, rfl, hms, hvalue⟩ := exists_canonicalMembers h
  have horder : Json.Sorted ms := by
    rw [pairwise_names hms, List.pairwise_map] at hsorted
    exact hsorted
  have hname : ∀ m ∈ ms, ∀ c ∈ m.name, Utf8.IsScalar c := by
    intro m hm
    obtain ⟨e, -, he⟩ := (forall₂_member hms).2 m hm
    exact (encode_decode he.name).2
  refine ⟨_, objectJson_eq hms, Json.canonical_object horder hname hvalue ?_⟩
  apply uniqueObject_eq_ok.mpr
  refine ⟨?_, rfl⟩
  rw [List.map_map]
  exact horder.nodup

/-- The loop over a list writes the canonical text of the array. -/
theorem canonicalJson_array {parts : List Bytes} {values : List Json}
    (h : List.Forall₂ CanonicalJson parts values) : CanonicalJson (arrayJson parts) (.arr values) := by
  obtain ⟨xs, rfl, rfl, hxs⟩ : ∃ xs : List (Text × Json), parts = xs.map (fun x => Utf8.encode x.1) ∧
      values = xs.map Prod.snd ∧ ∀ x ∈ xs, Json.Canonical uniqueObject rejectConstant x.1 x.2 := by
    induction h with
    | nil => exact ⟨[], rfl, rfl, by simp⟩
    | @cons part value parts values hfirst _ ih =>
      obtain ⟨xs, hparts, hvalues, hxs⟩ := ih
      obtain ⟨t, ht, hcanonical⟩ := hfirst
      refine ⟨(t, value) :: xs, ?_, ?_, List.forall_mem_cons.mpr ⟨hcanonical, hxs⟩⟩
      · rw [List.map_cons, ← hparts, ← ht]
      · rw [List.map_cons, ← hvalues]
  have hmore : ∀ xs : List (Text × Json), (xs.flatMap fun x => ascii "," ++ Utf8.encode x.1) =
      Utf8.encode (Json.moreElements (xs.map Prod.fst)) := by
    intro xs
    induction xs with
    | nil => rfl
    | cons x xs ih =>
      rw [List.flatMap_cons, ih, List.map_cons, Json.moreElements, Json.moreElements, List.flatMap_cons,
        Utf8.encode_append, Utf8.encode_cons]
      rfl
  refine ⟨_, ?_, Json.canonical_array hxs⟩
  rw [arrayJson]
  cases xs with
  | nil => rfl
  | cons x xs =>
    rw [List.map_cons, intercalate_comma, List.flatMap_map, hmore, List.map_cons, Json.arrayText,
      Utf8.encode_cons, Utf8.encode_append, Utf8.encode_append]
    simp only [List.append_assoc]
    rfl

/-- The envelope, member by member. -/
theorem canonicalJson_byteValue (bytes : Bytes) :
    CanonicalJson (byteValueJson bytes) (.obj (byteValueDict bytes)) := by
  have hfour : (["base64", "encoding", "sha256", "size"].map fun name => Utf8.encode (text name)).Pairwise
      (· < ·) := by decide
  have hlast : ∀ name ∈ ["base64", "encoding", "sha256", "size"].map fun name => Utf8.encode (text name),
      name < Utf8.encode (text "utf8") := by decide
  have hnames : (byteValueMembers bytes).map (fun m => Utf8.encode m.name) =
      ["base64", "encoding", "sha256", "size"].map (fun name => Utf8.encode (text name)) ++
        if (Utf8.decode bytes).isSome then [Utf8.encode (text "utf8")] else [] := by
    unfold byteValueMembers
    rw [List.map_append]
    congr 1
    cases Utf8.decode bytes <;> rfl
  have hpair : ((byteValueMembers bytes).map fun m => Utf8.encode m.name).Pairwise (· < ·) := by
    rw [hnames]
    split_ifs
    · apply List.pairwise_append.mpr
      refine ⟨hfour, List.pairwise_singleton _ _, fun name hname last hlastmem => ?_⟩
      rw [List.mem_singleton.mp hlastmem]
      exact hlast name hname
    · rw [List.append_nil]
      exact hfour
  have hsorted : Json.Sorted (byteValueMembers bytes) := List.pairwise_map.mp hpair
  have hvalue : ∀ m ∈ byteValueMembers bytes, Json.Canonical uniqueObject rejectConstant m.text m.value := by
    intro m hm
    rw [byteValueMembers, List.mem_append] at hm
    rcases hm with hm | hm
    · simp only [List.mem_cons, List.not_mem_nil, or_false] at hm
      rcases hm with rfl | rfl | rfl | rfl
      · exact Json.canonical_quote (Utf8.scalar_of_ascii (base64_ascii bytes))
      · exact Json.canonical_quote (Utf8.scalar_of_ascii (by decide))
      · exact Json.canonical_quote (Utf8.scalar_of_ascii (hexdigest_ascii bytes))
      · exact Json.canonical_int bytes.length
    · cases hd : Utf8.decode bytes with
      | none => simp [hd] at hm
      | some t =>
        obtain rfl : m = ⟨text "utf8", Json.quote t, .str t⟩ := by simpa [hd] using hm
        exact Json.canonical_quote (encode_decode hd).2
  refine ⟨_, byteValueJson_eq bytes, Json.canonical_object hsorted
    (fun m hm => (byteValueMembers_scalar bytes m hm).1) hvalue (uniqueObject_eq_ok.mpr ⟨?_, rfl⟩)⟩
  rw [List.map_map]
  exact hsorted.nodup

/-! ## Lines -/

/-- A line that is the canonical text of the value it is parsed to and one LF. -/
def CanonicalLine (line : Bytes) : Prop :=
  ∃ body v t, line = body ++ [Core.lf] ∧ Core.lf ∉ body ∧ parseJson body = .ok v ∧
    Json.canonical v = some t ∧ body = Utf8.encode t

theorem CanonicalJson.line {bytes : Bytes} {v : Json} (h : CanonicalJson bytes v) :
    CanonicalLine (bytes ++ [Core.lf]) := by
  have hlf := h.lf_notMem
  have hparse := h.parse
  obtain ⟨t, hbytes, ht⟩ := h
  exact ⟨bytes, v, t, rfl, hlf, hparse, ht.canonical, hbytes⟩

/-- Names in UTF-8, each with the canonical text of a value. -/
def CanonicalFields (fields : List (Bytes × Bytes)) : Prop :=
  ∀ e ∈ fields, (∃ t, Utf8.decode e.1 = some t) ∧ ∃ v, CanonicalJson e.2 v

theorem CanonicalFields.members {fields : List (Bytes × Bytes)} (h : CanonicalFields fields) :
    ∃ members, List.Forall₂ (fun (e : Bytes × Bytes) (m : Text × Json) =>
      Utf8.decode e.1 = some m.1 ∧ CanonicalJson e.2 m.2) fields members := by
  induction fields with
  | nil => exact ⟨[], .nil⟩
  | cons e fields ih =>
    obtain ⟨⟨t, ht⟩, v, hv⟩ := h e (by simp)
    obtain ⟨members, hmembers⟩ := ih fun x hx => h x (List.mem_cons_of_mem _ hx)
    exact ⟨(t, v) :: members, .cons ⟨ht, hv⟩ hmembers⟩

/-- An object written from a map, whatever it was built from. -/
theorem canonicalJson_map {fields : JsonFields} (h : CanonicalFields fields.entries) :
    ∃ v, CanonicalJson (objectJson fields.entries) v := by
  obtain ⟨members, hmembers⟩ := h.members
  exact ⟨_, canonicalJson_object fields.sorted hmembers⟩

theorem canonicalFields_emplaceAll {extra : List (Bytes × Bytes)} {fields : JsonFields}
    (h : CanonicalFields fields.entries) (hextra : CanonicalFields extra) :
    CanonicalFields (fields.emplaceAll extra).entries := by
  rintro ⟨name, value⟩ he
  rcases OrdMap.mem_emplaceAll extra (OrdMap.mem_entries.mp he) with hnew | hold
  · exact hextra _ hnew
  · exact h _ (OrdMap.mem_entries.mpr hold)

theorem canonicalFields_fieldsOf {fields : List (Bytes × Bytes)} (h : CanonicalFields fields) :
    CanonicalFields (fieldsOf fields).entries :=
  canonicalFields_emplaceAll (fun _ he => by cases he) h

/-- One entry with a literal name. -/
theorem canonical_entry {name : String} {value : Bytes} {v : Json} (hname : ∀ x ∈ text name, x < 0x80)
    (h : CanonicalJson value v) :
    (∃ t, Utf8.decode (ascii name) = some t) ∧ ∃ v, CanonicalJson value v :=
  ⟨⟨_, decode_literal hname⟩, v, h⟩

theorem canonicalLine_record (sequence : Nat) {type : Bytes} {fields : JsonFields}
    (htype : ∃ t, Utf8.decode type = some t) (h : CanonicalFields fields.entries) :
    CanonicalLine (recordLine sequence type fields) := by
  obtain ⟨t, ht⟩ := htype
  have hadded : CanonicalFields [(ascii "sequence", decimal sequence), (ascii "type", jsonString type)] := by
    rw [CanonicalFields, List.forall_mem_cons, List.forall_mem_singleton]
    exact ⟨canonical_entry (by decide) (canonicalJson_decimal sequence),
      canonical_entry (by decide) (canonicalJson_string ht)⟩
  obtain ⟨v, hv⟩ := canonicalJson_map (canonicalFields_emplaceAll h hadded)
  exact hv.line

end GetBibleSword.Tool
