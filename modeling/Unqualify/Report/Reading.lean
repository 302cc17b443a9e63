import Unqualify.Report
import Unqualify.Value.Check

/-!
# Results from unchecked records

The result of a file as it is read back from a record with the names that reports use.
-/

set_option autoImplicit false

namespace Unqualify

/-- Checks a record of the change of a file. -/
def FileDiff.ofValue : Value → Checked FileDiff
  | .record fields =>
      ((Check.required fields "file_path" Check.text).and
        ((Check.required fields "original_content" Check.text).and
          ((Check.required fields "modified_content" Check.text).and
            (Check.required fields "diff_text" Check.text)))).map
        fun (file, before, after, text) => ⟨file, before, after, text⟩
  | other => .refuse (.notRecord "FileDiff") other

/-- The statuses by name. -/
def FileStatus.cases : List (String × FileStatus) :=
  FileStatus.all.map fun status => (status.name, status)

/-- Checks a record of the result of a file. -/
def FileResult.ofFields (fields : Check.Fields) : Checked FileResult :=
  ((Check.required fields "file_path" Check.text).and
    ((Check.required fields "status" (Check.oneOf .notCase FileStatus.cases)).and
      ((Check.field fields "error" (Check.optional Check.text) none).and
        ((Check.field fields "rewritten" Check.integer 0).and
          ((Check.field fields "value_members" (Check.list Check.text) []).and
            ((Check.field fields "type_members" (Check.list Check.text) []).and
              ((Check.field fields "output" (Check.optional Check.text) none).and
                (Check.field fields "diff" (Check.optional FileDiff.ofValue) none)))))))).map
    fun (file, status, error, replaced, values, types, output, diff) =>
      ⟨file, status, error, replaced, values, types, output, diff⟩

end Unqualify
