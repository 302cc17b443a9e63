import Unqualify.Syntax.Outline
import Unqualify.Text.Numeral

/-!
# Outlines as text

An outline is written with one row on a line: depth, marks, start, stop and field, each followed by
one space, and then the kind, which takes the rest of the line. A node that fills no field has
nothing between the two spaces. Lines end at line feeds.
-/

set_option autoImplicit false

namespace Unqualify

/-- Reads a number of a row. -/
def OutlineRow.number? (cs : List Char) : Option Nat :=
  (Text.digits? false cs).map Text.ofDigits

/-- Reads the row on a line. -/
def OutlineRow.ofLine? (line : List Char) : Option OutlineRow :=
  match Text.splitOn ' ' line with
  | depth :: marks :: start :: stop :: field :: kind => do
      let depth ← number? depth
      let marks ← number? marks
      let start ← number? start
      let stop ← number? stop
      return .ofMarks depth (String.ofList ([' '].intercalate kind)) (String.ofList field) start
        stop
        marks
  | _ => none

/-- Reads the tree whose outline a text is; empty lines say nothing. -/
def Outline.ofText? (text : String) : Option Node := do
  let lines := (Text.splitOn '\n' text.toList).filter fun line => !line.isEmpty
  Outline.tree? (← lines.mapM OutlineRow.ofLine?)

end Unqualify
