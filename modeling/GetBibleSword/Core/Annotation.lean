import GetBibleSword.Core.NdjsonWriter

/-!
# Annotation segments

`src/annotation.cpp`. A function that returns an end index in the source returns the distance from
`begin` here, from the octets behind `begin`.

* `markupEnd`, `entityEnd` : where a markup or an entity ends, or one octet on;
* `segmentAnnotations` : the loop; `segmentAnnotations_flatten` : the segments are the text;
* `annotationSegmentsJson` : the array of their objects.
-/

namespace GetBibleSword.Core
open GetBibleSword.Lib

inductive AnnotationSegmentKind where
  | text
  | markup
  | entity
deriving DecidableEq

structure AnnotationSegment where
  kind : AnnotationSegmentKind
  raw : Bytes
deriving DecidableEq

/-- `<`. -/
def lessThan : Byte := octet 0x3c

/-- `&`. -/
def ampersand : Byte := octet 0x26

/-- `'` and `"`. -/
def isQuote (value : Byte) : Bool := value.val = 0x27 || value.val = 0x22

/-- The loop of `markup_end`: how many octets there are up to the `>` outside quotes. -/
def markupScan : Option Byte → Bytes → Option Nat
  | _, [] => none
  | some quote, value :: rest =>
    (markupScan (if value = quote then none else some quote) rest).map (· + 1)
  | none, value :: rest =>
    if isQuote value then (markupScan (some value) rest).map (· + 1)
    else if value.val = 0x3e then some 1
    else (markupScan none rest).map (· + 1)

/-- `markup_end(raw, begin) - begin`. -/
def markupEnd (rest : Bytes) : Nat := 1 + (markupScan none rest).getD 0

/-- What ends an entity without closing it: `<`, `&`, a space, a tab, CR, LF. -/
def breaksEntity (value : Byte) : Bool :=
  value.val = 0x3c || value.val = 0x26 || value.val = 0x20 || value.val = 0x09 || value.val = 0x0d ||
    value.val = 0x0a

/-- The loop of `entity_end`: how many octets there are up to the `;`. -/
def entityScan : Bytes → Option Nat
  | [] => none
  | value :: rest =>
    if value.val = 0x3b then some 1
    else if breaksEntity value then none
    else (entityScan rest).map (· + 1)

/-- `entity_end(raw, begin) - begin`. -/
def entityEnd (rest : Bytes) : Nat := 1 + (entityScan rest).getD 0

/-- An octet a text goes on with. -/
def continuesText (value : Byte) : Bool := value ≠ lessThan && value ≠ ampersand

/-- The loop of `segment_annotations`; `fuel` bounds the number of segments. -/
def segmentsFrom : Nat → Bytes → List AnnotationSegment
  | _, [] => []
  | 0, _ :: _ => []
  | fuel + 1, first :: rest =>
    if first = lessThan then
      ⟨.markup, (first :: rest).take (markupEnd rest)⟩ ::
        segmentsFrom fuel ((first :: rest).drop (markupEnd rest))
    else if first = ampersand ∧ entityEnd rest > 1 then
      ⟨.entity, (first :: rest).take (entityEnd rest)⟩ ::
        segmentsFrom fuel ((first :: rest).drop (entityEnd rest))
    else
      ⟨.text, first :: rest.takeWhile continuesText⟩ :: segmentsFrom fuel (rest.dropWhile continuesText)

def segmentAnnotations (raw : Bytes) : List AnnotationSegment := segmentsFrom raw.length raw

theorem segmentsFrom_flatten (fuel : Nat) : ∀ raw : Bytes, raw.length ≤ fuel →
    (segmentsFrom fuel raw).flatMap AnnotationSegment.raw = raw := by
  induction fuel with
  | zero =>
    intro raw h
    obtain rfl := List.length_eq_zero_iff.mp (Nat.le_zero.mp h)
    rfl
  | succ fuel ih =>
    intro raw h
    cases raw with
    | nil => rfl
    | cons first rest =>
      -- a segment of `n + 1` octets in front of what is left
      have hcut : ∀ n : Nat, (first :: rest).take (1 + n) ++
          (segmentsFrom fuel ((first :: rest).drop (1 + n))).flatMap AnnotationSegment.raw =
            first :: rest := by
        intro n
        rw [ih, List.take_append_drop]
        rw [List.length_drop]
        omega
      rw [segmentsFrom]
      split_ifs
      · exact hcut _
      · exact hcut _
      · have hrest : (rest.dropWhile continuesText).length ≤ fuel := by
          have := (List.dropWhile_suffix (l := rest) continuesText).length_le
          rw [List.length_cons] at h
          omega
        rw [List.flatMap_cons, ih _ hrest, List.cons_append, List.takeWhile_append_dropWhile]

/-- The segments, one after the other, are the text. -/
theorem segmentAnnotations_flatten (raw : Bytes) :
    (segmentAnnotations raw).flatMap AnnotationSegment.raw = raw :=
  segmentsFrom_flatten _ _ (Nat.le_refl _)

/-! ## As JSON -/

def kindName : AnnotationSegmentKind → Bytes
  | .text => ascii "text"
  | .markup => ascii "markup"
  | .entity => ascii "entity"

def interpretation (kind : AnnotationSegmentKind) : Bytes :=
  if kind = .text then ascii "not_applicable" else ascii "uninterpreted"

def annotationSegmentJson (segment : AnnotationSegment) : Bytes :=
  ascii "\x7b\"interpretation\":" ++ jsonString (interpretation segment.kind) ++
    ascii ",\"kind\":" ++ jsonString (kindName segment.kind) ++
    ascii ",\"raw\":" ++ byteValueJson segment.raw ++ ascii "\x7d"

def annotationSegmentsJson (raw : Bytes) : Bytes :=
  arrayJson ((segmentAnnotations raw).map annotationSegmentJson)

theorem annotationSegmentJson_eq (segment : AnnotationSegment) : annotationSegmentJson segment =
    objectJson [(ascii "interpretation", jsonString (interpretation segment.kind)),
      (ascii "kind", jsonString (kindName segment.kind)), (ascii "raw", byteValueJson segment.raw)] := by
  simp [annotationSegmentJson, objectJson, memberJson, List.intercalate]
  rfl

end GetBibleSword.Core
