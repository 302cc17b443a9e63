import Unqualify.Options
import Unqualify.Text.Blank
import Unqualify.Text.Line

/-!
# Code style

How a unit is written, as far as new imports have to fit in: its quotes, whether statements end in
semicolons, and its line ends. Double quotes need a strict majority. A line that ends in a semicolon
speaks for semicolons. A line that ends otherwise speaks against them, unless it is blank, begins
like a comment, or ends in a character after which a statement goes on. A strict majority against is
needed.
-/

set_option autoImplicit false

namespace Unqualify

/-- The conventions that new imports follow. -/
structure CodeStyle where
  quote : Quote := .single
  semicolons : Bool := true
  newline : String := "\n"
  deriving DecidableEq, Repr

namespace CodeStyle

/-- Whether a carriage return is followed by a line feed somewhere. -/
def hasCarriageLineFeed : List Char → Bool
  | [] => false
  | '\r' :: '\n' :: _ => true
  | _ :: rest => hasCarriageLineFeed rest

/-- Whether trimmed characters are those of a line that says nothing about semicolons, whatever it
ends in. -/
def isSilent (line : List Char) : Bool :=
  line.isEmpty || ['/', '/'].isPrefixOf line || ['/', '*'].isPrefixOf line ||
    ['*'].isPrefixOf line

/-- The characters after which a statement goes on or a block stands. -/
def continuations : List Char :=
  ['{', '}', '(', '[', ',', '>', '=']

/-- Whether a trimmed line speaks for semicolons. -/
def isTerminated (line : List Char) : Bool :=
  !isSilent line && line.getLast? == some ';'

/-- Whether a trimmed line speaks against semicolons. -/
def isUnterminated (line : List Char) : Bool :=
  !isSilent line && line.getLast?.any fun last => last != ';' && !continuations.contains last

/-- The style of a text. -/
def detect (text : String) : CodeStyle :=
  let cs := text.toList
  let trimmed := (Text.splitLines cs).map (Text.dropEndsWhile Text.isBlank)
  { quote := if cs.count '\'' < cs.count '"' then .double else .single
    semicolons := !(trimmed.countP isTerminated < trimmed.countP isUnterminated)
    newline := if hasCarriageLineFeed cs then "\r\n" else "\n" }

end CodeStyle

end Unqualify
