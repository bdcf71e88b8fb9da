import GetBibleSword.Tool.Fields

/-!
# The envelope on both sides

* `uniqueObject_eq_ok` : the object hook keeps the members of an object without repeated names;
* `parseJsonObject_objectText` : an object text is parsed to its members;
* `isByteValue_members` : the producer's envelope of `b` is a byte value of `b`, and
  `IsByteValue.lookup_eq` : up to `utf8` it is the only one;
* `byteValue_bijection` : the two together, from octets to octets.
-/

namespace GetBibleSword.Tool
open GetBibleSword.Lib GetBibleSword.Core

/-! ## Objects without repeated names -/

theorem lookup_eq_none {d : Dict} {name : Text} : d.lookup name = none ↔ name ∉ d.map Prod.fst := by
  simp only [List.lookup_eq_none_iff, List.mem_map, bne_iff_ne, ne_eq, not_exists, not_and]
  exact ⟨fun h p hp he => h p hp he.symm, fun h p hp he => h p hp he.symm⟩

theorem uniqueMembers_eq_ok (pairs : List (Text × Json)) : ∀ result d : Dict,
    uniqueMembers pairs result = .ok d ↔
      (pairs.map Prod.fst).Nodup ∧ (∀ name ∈ pairs.map Prod.fst, name ∉ result.map Prod.fst) ∧
        d = result ++ pairs := by
  induction pairs with
  | nil =>
    intro result d
    rw [uniqueMembers, Except.ok.injEq, eq_comm]
    simp
  | cons pair pairs ih =>
    intro result d
    obtain ⟨key, value⟩ := pair
    rw [uniqueMembers]
    split_ifs with h
    · have hmem : key ∈ result.map Prod.fst := by
        by_contra hmem
        rw [lookup_eq_none.mpr hmem] at h
        cases h
      constructor
      · nofun
      · rintro ⟨-, hnot, -⟩
        exact absurd hmem (hnot key (by simp))
    · have hnot : key ∉ result.map Prod.fst := lookup_eq_none.mp (Option.not_isSome_iff_eq_none.mp h)
      rw [ih, List.map_append, List.append_assoc]
      simp only [List.map_cons, List.map_nil, List.nodup_cons, List.forall_mem_cons, List.mem_append,
        List.mem_singleton, not_or, List.singleton_append]
      constructor
      · rintro ⟨hnodup, hfresh, rfl⟩
        exact ⟨⟨fun hk => (hfresh key hk).2 rfl, hnodup⟩, ⟨hnot, fun n hn => (hfresh n hn).1⟩, rfl⟩
      · rintro ⟨⟨hk, hnodup⟩, ⟨-, hfresh⟩, rfl⟩
        exact ⟨hnodup, fun n hn => ⟨hfresh n hn, fun he => hk (he ▸ hn)⟩, rfl⟩

/-- The hook accepts an object exactly when no name is repeated, and keeps its members in order. -/
theorem uniqueObject_eq_ok {pairs : List (Text × Json)} {v : Json} :
    uniqueObject pairs = .ok v ↔ (pairs.map Prod.fst).Nodup ∧ v = .obj pairs := by
  simp only [uniqueObject, map_eq_ok, uniqueMembers_eq_ok, List.map_nil, List.not_mem_nil,
    not_false_eq_true, implies_true, true_and, List.nil_append]
  constructor
  · rintro ⟨d, ⟨hnodup, rfl⟩, rfl⟩
    exact ⟨hnodup, rfl⟩
  · rintro ⟨hnodup, rfl⟩
    exact ⟨pairs, ⟨hnodup, rfl⟩, rfl⟩

/-! ## Texts that are parsed -/

theorem parseJson_of_reads {t : Text} {v : Json} (hscalar : ∀ c ∈ t, Utf8.IsScalar c)
    (hbom : t.head? ≠ some 0xfeff) (h : Json.Reads uniqueObject rejectConstant t v) :
    parseJson (Utf8.encode t) = .ok v := by
  rw [parseJson, Utf8.decode_encode hscalar]
  dsimp only
  rw [Json.loads_of_reads hbom h]

theorem parseJsonObject_of_parseJson {raw : Bytes} {d : Dict} (h : parseJson raw = .ok (.obj d))
    (line : Nat) : parseJsonObject raw line = .ok d := by
  rw [parseJsonObject, h]

/-- An object written without white space is parsed to its members. -/
theorem parseJson_objectText {ms : List Json.Member}
    (hv : ∀ m ∈ ms, m.Valid uniqueObject rejectConstant) (hnodup : (ms.map Json.Member.name).Nodup)
    (hscalar : ∀ c ∈ Json.objectText ms, Utf8.IsScalar c) :
    parseJson (Utf8.encode (Json.objectText ms)) = .ok (.obj (ms.map Json.Member.json)) := by
  have hhead : (Json.objectText ms).head? ≠ some 0xfeff := by
    cases ms <;> simp [Json.objectText]
  refine parseJson_of_reads hscalar hhead (Json.reads_objectText hv (uniqueObject_eq_ok.mpr ⟨?_, rfl⟩))
  rw [List.map_map]
  exact hnodup

/-! ## The envelope -/

/-- The dictionary the producer's envelope is parsed to. -/
def byteValueDict (bytes : Bytes) : Dict := (byteValueMembers bytes).map Json.Member.json

theorem noSurrogates_of_ascii {t : Text} (h : ∀ c ∈ t, c < 0x80) : Json.NoSurrogates t :=
  Json.noSurrogates_of_scalar (Utf8.scalar_of_ascii h)

theorem byteValueMembers_valid (bytes : Bytes) :
    ∀ m ∈ byteValueMembers bytes, m.Valid uniqueObject rejectConstant := by
  have hname (s : String) (h : ∀ c ∈ text s, c < 0x80) : Json.NoSurrogates (text s) :=
    noSurrogates_of_ascii h
  intro m hm
  rw [byteValueMembers, List.mem_append] at hm
  rcases hm with hm | hm
  · simp only [List.mem_cons, List.not_mem_nil, or_false] at hm
    rcases hm with rfl | rfl | rfl | rfl
    · exact ⟨hname _ (by decide), Json.reads_quote (noSurrogates_of_ascii (base64_ascii bytes))⟩
    · exact ⟨hname _ (by decide), Json.reads_quote (hname _ (by decide))⟩
    · exact ⟨hname _ (by decide), Json.reads_quote (noSurrogates_of_ascii (hexdigest_ascii bytes))⟩
    · exact ⟨hname _ (by decide), Json.reads_decimal _⟩
  · cases hd : Utf8.decode bytes with
    | none => simp [hd] at hm
    | some t =>
      obtain rfl : m = ⟨text "utf8", Json.quote t, .str t⟩ := by simpa [hd] using hm
      exact ⟨hname _ (by decide), Json.reads_quote (Json.noSurrogates_of_scalar (Utf8.decode_eq_some.mp hd).2)⟩

theorem byteValueMembers_scalar (bytes : Bytes) : ∀ m ∈ byteValueMembers bytes,
    (∀ c ∈ m.name, Utf8.IsScalar c) ∧ (∀ c ∈ m.text, Utf8.IsScalar c) := by
  have hname (s : String) (h : ∀ c ∈ text s, c < 0x80) : ∀ c ∈ text s, Utf8.IsScalar c :=
    Utf8.scalar_of_ascii h
  intro m hm
  rw [byteValueMembers, List.mem_append] at hm
  rcases hm with hm | hm
  · simp only [List.mem_cons, List.not_mem_nil, or_false] at hm
    rcases hm with rfl | rfl | rfl | rfl
    · exact ⟨hname _ (by decide), quote_scalar (Utf8.scalar_of_ascii (base64_ascii bytes))⟩
    · exact ⟨hname _ (by decide), quote_scalar (hname _ (by decide))⟩
    · exact ⟨hname _ (by decide), quote_scalar (Utf8.scalar_of_ascii (hexdigest_ascii bytes))⟩
    · exact ⟨hname _ (by decide), Utf8.scalar_of_ascii (decimalText_ascii _)⟩
  · cases hd : Utf8.decode bytes with
    | none => simp [hd] at hm
    | some t =>
      obtain rfl : m = ⟨text "utf8", Json.quote t, .str t⟩ := by simpa [hd] using hm
      exact ⟨hname _ (by decide), quote_scalar (Utf8.decode_eq_some.mp hd).2⟩

theorem parseJson_byteValueJson (bytes : Bytes) :
    parseJson (byteValueJson bytes) = .ok (.obj (byteValueDict bytes)) := by
  rw [byteValueJson_eq]
  refine parseJson_objectText (byteValueMembers_valid bytes) ?_
    (objectText_scalar (byteValueMembers_scalar bytes))
  rw [byteValueMembers, List.map_append]
  cases Utf8.decode bytes with
  | none => simp
  | some t => simp

/-- The value of each name in the producer's envelope. -/
theorem byteValueDict_get (bytes : Bytes) :
    dictGet (byteValueDict bytes) "base64" = some (.str (Base64.encode bytes)) ∧
    dictGet (byteValueDict bytes) "encoding" = some (.str (text "base64")) ∧
    dictGet (byteValueDict bytes) "sha256" = some (.str (Sha256.hexdigest bytes)) ∧
    dictGet (byteValueDict bytes) "size" = some (.int bytes.length) ∧
    dictGet (byteValueDict bytes) "utf8" = (Utf8.decode bytes).map .str := by
  simp only [dictGet, byteValueDict, byteValueMembers]
  refine ⟨rfl, rfl, rfl, rfl, ?_⟩
  cases Utf8.decode bytes with
  | none => rfl
  | some t => rfl

/-- The envelope of `b` is a byte value of `b`. -/
theorem isByteValue_dict (bytes : Bytes) : IsByteValue (byteValueDict bytes) bytes := by
  obtain ⟨hbase64, hencoding, hsha, hsize, hutf8⟩ := byteValueDict_get bytes
  refine ⟨hbase64, hencoding, hsha, hsize, ?_, ?_⟩
  · intro v hv
    rw [hutf8, Option.map_eq_some_iff] at hv
    obtain ⟨t, ht, rfl⟩ := hv
    exact ⟨t, rfl, ht⟩
  · rw [byteValueDict, byteValueMembers]
    cases Utf8.decode bytes with
    | none => simp [Json.Member.json]
    | some t => simp [Json.Member.json]

/-- A byte value of `b` has the members of the producer's envelope of `b`, except that `utf8` may
be missing. -/
theorem IsByteValue.lookup_eq {d : Dict} {bytes : Bytes} (h : IsByteValue d bytes) :
    (∀ name, name ≠ text "utf8" → d.lookup name = (byteValueDict bytes).lookup name) ∧
      (d.lookup (text "utf8") = none ∨
        d.lookup (text "utf8") = (byteValueDict bytes).lookup (text "utf8")) := by
  have hdict := isByteValue_dict bytes
  constructor
  · intro name hutf8
    by_cases hk : name ∈ ["base64", "encoding", "sha256", "size", "utf8"].map text
    · simp only [List.map_cons, List.map_nil, List.mem_cons, List.not_mem_nil, or_false] at hk
      rcases hk with rfl | rfl | rfl | rfl | rfl
      · exact h.base64.trans hdict.base64.symm
      · exact h.encoding.trans hdict.encoding.symm
      · exact h.sha256.trans hdict.sha256.symm
      · exact h.size.trans hdict.size.symm
      · exact absurd rfl hutf8
    · rw [lookup_eq_none.mpr fun hm => hk (h.known name hm),
        lookup_eq_none.mpr fun hm => hk (hdict.known name hm)]
  · cases hu : d.lookup (text "utf8") with
    | none => exact .inl rfl
    | some v =>
      obtain ⟨t, rfl, ht⟩ := h.utf8 v hu
      have := (byteValueDict_get bytes).2.2.2.2
      rw [ht] at this
      exact .inr this.symm

/-- The letter `a`, its members in another order and without the projection. -/
def byteValueLetter : Json :=
  .obj [(text "size", .int 1), (text "encoding", .str (text "base64")), (text "base64", .str (text "YQ==")),
    (text "sha256", .str (text "ca978112ca1bbdcafac231b39a23dc4da786eff8147c4e72b9807785afee48bb"))]

/-- Octets to envelope and back, and every accepted value is the envelope of its octets. -/
theorem byteValue_bijection (context : Message) (line : Nat) :
    (∀ bytes, ∃ d, parseJsonObject (byteValueJson bytes) line = .ok d ∧
      decodeByteValue (.obj d) context line = .ok bytes) ∧
    (∀ v bytes, decodeByteValue v context line = .ok bytes →
      ∃ d e, v = .obj d ∧ parseJsonObject (byteValueJson bytes) line = .ok e ∧
        (∀ name, name ≠ text "utf8" → d.lookup name = e.lookup name) ∧
        (d.lookup (text "utf8") = none ∨ d.lookup (text "utf8") = e.lookup (text "utf8"))) := by
  have hparse (bytes : Bytes) := parseJsonObject_of_parseJson (parseJson_byteValueJson bytes) line
  constructor
  · intro bytes
    exact ⟨_, hparse bytes, decodeByteValue_eq_ok.mpr ⟨_, rfl, isByteValue_dict bytes⟩⟩
  · intro v bytes h
    obtain ⟨d, rfl, hd⟩ := decodeByteValue_eq_ok.mp h
    exact ⟨d, _, rfl, hparse bytes, hd.lookup_eq⟩

theorem byteValue_bijection_letter :
    (∃ d, parseJsonObject (byteValueJson (ascii "a")) 1 = .ok d ∧
      decodeByteValue (.obj d) [] 1 = .ok (ascii "a")) ∧
    ∃ d e, byteValueLetter = .obj d ∧ parseJsonObject (byteValueJson (ascii "a")) 1 = .ok e ∧
      (∀ name, name ≠ text "utf8" → d.lookup name = e.lookup name) ∧
      (d.lookup (text "utf8") = none ∨ d.lookup (text "utf8") = e.lookup (text "utf8")) :=
  ⟨(byteValue_bijection [] 1).1 _, (byteValue_bijection [] 1).2 byteValueLetter _ (by decide +kernel)⟩

end GetBibleSword.Tool
