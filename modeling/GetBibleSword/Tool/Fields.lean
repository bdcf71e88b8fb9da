import GetBibleSword.Core.ByteValue
import GetBibleSword.Lib.Json.Fuel

/-!
# Field checks of the validator

The functions of `tools/getbiblesword_v1.py` on one parsed value. Each returns what the Python
function returns or raises what it raises; `*_eq_ok` says exactly when it returns.

* `parseJsonObject` : one line without its LF;
* `requireMembers`, `requireInteger`, `requireString`, `requireBoolean`, `requireSha256`;
* `decodeByteValue` : returns `b` on the values `IsByteValue` describes (`decodeByteValue_eq_ok`);
* `validateEmbeddedByteValues`, `validateEnum`, `validateRelativePath`.
-/

namespace GetBibleSword.Tool
open GetBibleSword.Lib

/-- A piece of an f-string: literal text, and the values shown in it. -/
inductive Part where
  | lit (s : String)
  | int (i : Int)
  | text (t : Text)
  | repr (t : Text)
  | reprBytes (b : Bytes)
  | join (ts : List Text)
  | scan (e : Json.ScanError)
deriving DecidableEq

abbrev Message := List Part

/-- The exceptions of the validator. `contract` is `ContractError`, with its `line` argument. -/
inductive PyError where
  | contract (message : Message) (line : Option Nat)
  | key (name : String)
  | assertion
  | value (message : String)
deriving DecidableEq

def fail {α : Type} (message : Message) (line : Nat) : Except PyError α :=
  .error (.contract message (some line))

/-- `if c: fail(message, line=line)`. -/
def failIf (c : Prop) [Decidable c] (message : Message) (line : Nat) : Except PyError Unit :=
  if c then fail message line else .ok ()

@[simp] theorem fail_ne_ok {α : Type} {message : Message} {line : Nat} {a : α} :
    fail message line ≠ .ok a := nofun

@[simp] theorem failIf_eq_ok {c : Prop} [Decidable c] {message : Message} {line : Nat} {u : Unit} :
    failIf c message line = .ok u ↔ ¬ c := by
  unfold failIf
  split_ifs with h <;> simp [h]

/-! ## Dictionaries -/

/-- A Python dict of a JSON object. The reader never builds one with a repeated key. -/
abbrev Dict := List (Text × Json)

def dictGet (d : Dict) (name : String) : Option Json := d.lookup (text name)

/-- `d[name]`. -/
def dictItem (d : Dict) (name : String) : Except PyError Json :=
  match dictGet d name with
  | some v => .ok v
  | none => .error (.key name)

@[simp] theorem dictItem_eq_ok {d : Dict} {name : String} {v : Json} :
    dictItem d name = .ok v ↔ dictGet d name = some v := by
  unfold dictItem
  split <;> simp_all

/-- `value == "name"`, for any value. -/
def isText (value : Option Json) (s : String) : Bool :=
  match value with
  | some (.str t) => t == text s
  | _ => false

@[simp] theorem isText_iff {value : Option Json} {s : String} :
    isText value s = true ↔ value = some (.str (text s)) := by
  unfold isText
  split <;> simp_all

/-! ## Parsing one line -/

def rejectConstant (value : String) : Except Json.HookError Json :=
  .error ⟨"non-finite JSON number is not permitted", text value⟩

/-- The loop of `_unique_object`. -/
def uniqueMembers : List (Text × Json) → Dict → Except Json.HookError Dict
  | [], result => .ok result
  | (key, value) :: pairs, result =>
    if (result.lookup key).isSome then .error ⟨"duplicate JSON member", key⟩
    else uniqueMembers pairs (result ++ [(key, value)])

def uniqueObject (pairs : List (Text × Json)) : Except Json.HookError Json :=
  (uniqueMembers pairs []).map .obj

/-- `raw.decode("utf-8")` and `json.loads` with both hooks. -/
def parseJson (raw : Bytes) : Except Message Json :=
  match Utf8.decode raw with
  | none => .error [.lit "invalid JSON: invalid UTF-8"]
  | some t =>
    match Json.loads uniqueObject rejectConstant t with
    | .ok v => .ok v
    | .error e => .error [.lit "invalid JSON: ", .scan e]

def parseJsonObject (raw : Bytes) (line : Nat) : Except PyError Dict :=
  match parseJson raw with
  | .error message => fail message line
  | .ok (.obj d) => .ok d
  | .ok _ => fail [.lit "each NDJSON line must contain one JSON object"] line

/-! ## Checks of one field -/

def requireMembers (value : Dict) (names : List String) (context : Message) (line : Nat) :
    Except PyError Unit :=
  let missing := names.filter fun name => (dictGet value name).isNone
  failIf (missing ≠ [])
    (context ++ [.lit " is missing required member(s): ", .join (missing.map text)]) line

def requireInteger (value : Json) (context : Message) (line : Nat) (minimum : Int)
    (maximum : Option Int) : Except PyError Int :=
  match value with
  | .int i =>
    if i < minimum ∨ maximum.any (· < i) = true then
      fail (context ++ [.lit " must be ", .int minimum] ++
        match maximum with
        | some m => [.lit " through ", .int m]
        | none => [.lit " or greater"]) line
    else .ok i
  | _ => fail (context ++ [.lit " must be an integer"]) line

def requireString (value : Json) (context : Message) (line : Nat) : Except PyError Text :=
  match value with
  | .str t => .ok t
  | _ => fail (context ++ [.lit " must be a string"]) line

def requireBoolean (value : Json) (context : Message) (line : Nat) : Except PyError Bool :=
  match value with
  | .bool b => .ok b
  | _ => fail (context ++ [.lit " must be a boolean"]) line

def hexDigestLength : Nat := 64

def requireSha256 (value : Json) (context : Message) (line : Nat) : Except PyError Text := do
  let digest ← requireString value context line
  failIf (digest.length ≠ hexDigestLength ∨ ∃ character ∈ digest, character ∉ text "0123456789abcdef")
    (context ++ [.lit " must be a lowercase SHA-256 digest"]) line
  return digest

/-! ## Byte values -/

def sortedNames (names : List Text) : List Text := names.mergeSort fun a b => decide (a ≤ b)

/-- `base64.b64decode(encoded, validate=True)`, its exceptions already turned into a failure. -/
def decodeBase64 (encoded : Text) (context : Message) (line : Nat) : Except PyError Bytes :=
  match Base64.decode encoded with
  | some decoded => .ok decoded
  | none => fail (context ++ [.lit ".base64 is invalid"]) line

/-- `decoded.decode("utf-8", errors="strict")`, failing with `message`. -/
def decodeText (decoded : Bytes) (message : Message) (line : Nat) : Except PyError Text :=
  match Utf8.decode decoded with
  | some t => .ok t
  | none => fail message line

/-- The block `if "utf8" in value`. -/
def checkProjection (value : Dict) (decoded : Bytes) (context : Message) (line : Nat) :
    Except PyError Unit :=
  match dictGet value "utf8" with
  | none => .ok ()
  | some utf8 => do
    let projection ← requireString utf8 (context ++ [.lit ".utf8"]) line
    let decodedText ← decodeText decoded
      (context ++ [.lit ".utf8 is present for invalid UTF-8 bytes"]) line
    failIf (projection ≠ decodedText)
      (context ++ [.lit ".utf8 is not an exact projection of the bytes"]) line

def decodeByteValue (value : Json) (context : Message) (line : Nat) : Except PyError Bytes :=
  match value with
  | .obj d => do
    requireMembers d ["base64", "encoding", "sha256", "size"] context line
    let allowed := ["base64", "encoding", "sha256", "size", "utf8"].map text
    let unexpected := sortedNames ((d.map Prod.fst).dedup.filter fun name => name ∉ allowed)
    failIf (unexpected ≠ []) (context ++ [.lit " has unknown member(s): ", .join unexpected]) line
    failIf (¬ isText (dictGet d "encoding") "base64") (context ++ [.lit ".encoding must be 'base64'"]) line
    let encoded ← requireString (← dictItem d "base64") (context ++ [.lit ".base64"]) line
    let decoded ← decodeBase64 encoded context line
    failIf (Base64.encode decoded ≠ encoded)
      (context ++ [.lit ".base64 is not canonical RFC 4648 base64"]) line
    let declaredSize ← requireInteger (← dictItem d "size") (context ++ [.lit ".size"]) line 0 none
    failIf (declaredSize ≠ decoded.length)
      (context ++ [.lit ".size is ", .int declaredSize, .lit ", decoded size is ", .int decoded.length])
      line
    let declaredHash ← requireSha256 (← dictItem d "sha256") (context ++ [.lit ".sha256"]) line
    failIf (declaredHash ≠ Sha256.hexdigest decoded)
      (context ++ [.lit ".sha256 does not match its decoded bytes"]) line
    checkProjection d decoded context line
    return decoded
  | _ => fail (context ++ [.lit " must be a byte-value object"]) line

mutual

def validateEmbeddedByteValues (context : Message) (line : Nat) : Json → Except PyError Unit
  | .obj d =>
    if (d.lookup (text "base64")).isSome ∨ isText (d.lookup (text "encoding")) "base64" then
      (decodeByteValue (.obj d) context line).map fun _ => ()
    else embeddedMembers context line d
  | .arr xs => embeddedElements context line 0 xs
  | _ => .ok ()

/-- The loop over `value.items()`. -/
def embeddedMembers (context : Message) (line : Nat) : List (Text × Json) → Except PyError Unit
  | [] => .ok ()
  | (name, child) :: rest => do
    validateEmbeddedByteValues (context ++ [.lit ".", .text name]) line child
    embeddedMembers context line rest

/-- The loop over `enumerate(value)`. -/
def embeddedElements (context : Message) (line : Nat) : Nat → List Json → Except PyError Unit
  | _, [] => .ok ()
  | index, child :: rest => do
    validateEmbeddedByteValues (context ++ [.lit "[", .int index, .lit "]"]) line child
    embeddedElements context line (index + 1) rest

end

def validateEnum (value : Json) (context : Message) (line : Nat) : Except PyError Unit :=
  match value with
  | .obj d => do
    requireMembers d ["code", "name"] context line
    discard <| requireInteger (← dictItem d "code") (context ++ [.lit ".code"]) line 0 (some 255)
    discard <| requireString (← dictItem d "name") (context ++ [.lit ".name"]) line
  | _ => fail (context ++ [.lit " must be an object"]) line

/-! ## Paths -/

def nul : Byte := octet 0

def slash : Byte := octet 0x2f

def validateRelativePath (path : Bytes) (context : Message) (line : Nat)
    (allowTrailingSeparator : Bool) : Except PyError (List Bytes) := do
  failIf (path = [] ∨ path.contains nul = true ∨ path.head? = some slash)
    (context ++ [.lit " must be a non-empty root-relative byte path; got ", .reprBytes path]) line
  let normalized :=
    if allowTrailingSeparator = true ∧ path.getLast? = some slash then path.dropLast else path
  let components := normalized.splitOn slash
  failIf (∃ component ∈ components, component ∈ [[], ascii ".", ascii ".."])
    (context ++ [.lit " must be normalized and may not traverse directories; got ", .reprBytes path]) line
  return components

/-! ## When the checks return -/

section Checks
variable {context : Message} {line : Nat}

@[simp] theorem requireMembers_eq_ok {value : Dict} {names : List String} {u : Unit} :
    requireMembers value names context line = .ok u ↔
      ∀ name ∈ names, (dictGet value name).isSome = true := by
  rw [requireMembers, failIf_eq_ok]
  simp [List.filter_eq_nil_iff, Option.isSome_iff_ne_none]

@[simp] theorem requireInteger_eq_ok {value : Json} {minimum i : Int} {maximum : Option Int} :
    requireInteger value context line minimum maximum = .ok i ↔
      value = .int i ∧ minimum ≤ i ∧ ∀ m, maximum = some m → i ≤ m := by
  cases value with
  | int j =>
    simp only [requireInteger]
    split_ifs with h
    · rw [Json.int.injEq]
      constructor
      · nofun
      · rintro ⟨rfl, hmin, hmax⟩
        cases maximum with
        | none => simp at h; omega
        | some m =>
          have := hmax m rfl
          simp at h
          omega
    · rw [Except.ok.injEq, Json.int.injEq]
      constructor
      · rintro rfl
        cases maximum with
        | none => simp at h ⊢; omega
        | some m => simp at h ⊢; omega
      · exact And.left
  | _ => simp [requireInteger]

@[simp] theorem requireString_eq_ok {value : Json} {t : Text} :
    requireString value context line = .ok t ↔ value = .str t := by
  cases value <;> simp [requireString]

@[simp] theorem requireBoolean_eq_ok {value : Json} {b : Bool} :
    requireBoolean value context line = .ok b ↔ value = .bool b := by
  cases value <;> simp [requireBoolean]

/-- A lowercase hexadecimal digest. -/
def IsDigest (t : Text) : Prop := t.length = hexDigestLength ∧ ∀ c ∈ t, c ∈ text "0123456789abcdef"

theorem isDigest_hexdigest (b : Bytes) : IsDigest (Sha256.hexdigest b) := by
  refine ⟨Sha256.length_hexdigest b, fun c hc => ?_⟩
  have hall : ∀ c < 0x80, (0x30 ≤ c ∧ c ≤ 0x39) ∨ (0x61 ≤ c ∧ c ≤ 0x66) →
      c ∈ text "0123456789abcdef" := by decide +kernel
  have := Sha256.hex_digits _ c hc
  exact hall c (by omega) this

@[simp] theorem requireSha256_eq_ok {value : Json} {t : Text} :
    requireSha256 value context line = .ok t ↔ value = .str t ∧ IsDigest t := by
  simp only [requireSha256, bind_eq_ok, requireString_eq_ok, failIf_eq_ok, pure_eq_ok, IsDigest]
  simp only [ne_eq, not_or, not_not, not_exists, not_and]
  constructor
  · rintro ⟨_, rfl, -, h, rfl⟩
    exact ⟨rfl, h⟩
  · rintro ⟨rfl, h⟩
    exact ⟨t, rfl, (), h, rfl⟩

/-- The dictionaries that are the byte value of `b`. -/
structure IsByteValue (d : Dict) (b : Bytes) : Prop where
  base64 : dictGet d "base64" = some (.str (Base64.encode b))
  encoding : dictGet d "encoding" = some (.str (text "base64"))
  sha256 : dictGet d "sha256" = some (.str (Sha256.hexdigest b))
  size : dictGet d "size" = some (.int b.length)
  utf8 : ∀ v, dictGet d "utf8" = some v → ∃ t, v = .str t ∧ Utf8.decode b = some t
  known : ∀ name ∈ d.map Prod.fst, name ∈ ["base64", "encoding", "sha256", "size", "utf8"].map text

theorem sortedNames_eq_nil {names : List Text} : sortedNames names = [] ↔ names = [] := by
  rw [← List.length_eq_zero_iff, sortedNames, List.length_mergeSort, List.length_eq_zero_iff]

@[simp] theorem decodeBase64_eq_ok {encoded : Text} {b : Bytes} :
    decodeBase64 encoded context line = .ok b ↔ Base64.decode encoded = some b := by
  unfold decodeBase64
  split <;> simp_all

@[simp] theorem decodeText_eq_ok {b : Bytes} {message : Message} {t : Text} :
    decodeText b message line = .ok t ↔ Utf8.decode b = some t := by
  unfold decodeText
  split <;> simp_all

@[simp] theorem checkProjection_eq_ok {value : Dict} {b : Bytes} {u : Unit} :
    checkProjection value b context line = .ok u ↔
      ∀ v, dictGet value "utf8" = some v → ∃ t, v = .str t ∧ Utf8.decode b = some t := by
  unfold checkProjection
  split
  · rename_i h
    simp [h]
  · rename_i v h
    simp only [bind_eq_ok, requireString_eq_ok, decodeText_eq_ok, failIf_eq_ok, ne_eq, not_not, h,
      Option.some.injEq, forall_eq']
    constructor
    · rintro ⟨t, rfl, _, ht, rfl⟩
      exact ⟨t, rfl, ht⟩
    · rintro ⟨t, rfl, ht⟩
      exact ⟨t, rfl, t, ht, rfl⟩

/-- `decode_byte_value` returns `b` on its byte values and on nothing else. -/
theorem decodeByteValue_eq_ok {value : Json} {b : Bytes} :
    decodeByteValue value context line = .ok b ↔ ∃ d, value = .obj d ∧ IsByteValue d b := by
  cases value with
  | obj d =>
    simp only [decodeByteValue, bind_eq_ok, requireMembers_eq_ok, failIf_eq_ok, dictItem_eq_ok,
      requireString_eq_ok, sortedNames_eq_nil, isText_iff, not_not, ne_eq, decodeBase64_eq_ok,
      requireInteger_eq_ok, requireSha256_eq_ok, checkProjection_eq_ok, pure_eq_ok, Json.obj.injEq,
      exists_eq_left']
    constructor
    · rintro ⟨-, -, -, hknown, -, hencoding, _, hbase64, encoded, rfl, decoded, -, -, hcanonical, _,
        hsize, _, ⟨rfl, -, -⟩, -, hlength, _, hsha, digest, ⟨rfl, -⟩, -, hhash, -, hutf8, rfl⟩
      rw [← hcanonical] at hbase64
      rw [hlength] at hsize
      rw [hhash] at hsha
      refine ⟨hbase64, hencoding, hsha, hsize, hutf8, fun name hname => ?_⟩
      have := List.filter_eq_nil_iff.mp hknown name (List.mem_dedup.mpr hname)
      rwa [decide_eq_true_eq, not_not] at this
    · intro h
      have hpresent : ∀ name ∈ ["base64", "encoding", "sha256", "size"],
          (dictGet d name).isSome = true := by
        simp [h.base64, h.encoding, h.sha256, h.size]
      have hknown : (d.map Prod.fst).dedup.filter (fun name =>
          decide (name ∉ ["base64", "encoding", "sha256", "size", "utf8"].map text)) = [] := by
        rw [List.filter_eq_nil_iff]
        intro name hname
        rw [decide_eq_true_eq, not_not]
        exact h.known name (List.mem_dedup.mp hname)
      exact ⟨(), hpresent, (), hknown, (), h.encoding, _, h.base64, _, rfl, b,
        Base64.decode_encode b, (), rfl, _, h.size, _, ⟨rfl, by omega, by simp⟩, (), rfl, _, h.sha256, _,
        ⟨rfl, isDigest_hexdigest b⟩, (), rfl, (), h.utf8, rfl⟩
  | _ => simp [decodeByteValue]

end Checks

end GetBibleSword.Tool
