import Unqualify.Edit
import Unqualify.Value.Check

/-!
# Edits from unchecked records

The ends of an edit are integers that are not negative, and its text may be left out.
-/

set_option autoImplicit false

namespace Unqualify

/-- Checks a record of an edit. -/
def Edit.ofFields (fields : Check.Fields) : Checked Edit :=
  ((Check.required fields "start" (Check.atLeast 0)).and
    ((Check.required fields "end" (Check.atLeast 0)).and
      (Check.field fields "text" Check.text ""))).map
    fun (start, stop, text) => ⟨start.toNat, stop.toNat, text⟩

end Unqualify
