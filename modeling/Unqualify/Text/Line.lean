/-!
# Lines of a text

A line ends at a line feed, a carriage return, a carriage return followed by a line feed, a
vertical tab, a form feed, one of the information separators above the unit separator, a next
line control, or a Unicode line or paragraph separator. Each line keeps its terminator, so that
the lines of a text concatenate to the text (`flatten_splitLines`).
-/

set_option autoImplicit false

namespace Unqualify.Text

/-- Whether a character ends a line. -/
def isLineBreak (c : Char) : Bool :=
  let code := c.toNat
  (0x0A ≤ code && code ≤ 0x0D) || (0x1C ≤ code && code ≤ 0x1E) || code == 0x85 ||
    code == 0x2028 || code == 0x2029

/-- The lines of a text of which `seen` has been read since the last terminator, in reverse. -/
def splitLinesFrom (seen : List Char) : List Char → List (List Char)
  | [] => if seen.isEmpty then [] else [seen.reverse]
  | '\r' :: '\n' :: rest => ('\n' :: '\r' :: seen).reverse :: splitLinesFrom [] rest
  | c :: rest =>
      if isLineBreak c then (c :: seen).reverse :: splitLinesFrom [] rest
      else splitLinesFrom (c :: seen) rest

/-- The lines of a text, each with its terminator. -/
def splitLines (cs : List Char) : List (List Char) :=
  splitLinesFrom [] cs

/-- The lines of a text, each with its terminator. -/
def lines (text : String) : List String :=
  (splitLines text.toList).map String.ofList

theorem flatten_splitLinesFrom (seen cs : List Char) :
    (splitLinesFrom seen cs).flatten = seen.reverse ++ cs := by
  fun_induction splitLinesFrom seen cs with
  | case1 seen h => simp_all
  | case2 seen h => simp
  | case3 seen rest ih => simp [ih]
  | case4 seen c rest _ _ ih => simp [ih]
  | case5 seen c rest _ _ ih => simp [ih]

/-- **Splitting into lines loses nothing.** -/
theorem flatten_splitLines (cs : List Char) : (splitLines cs).flatten = cs := by
  simp [splitLines, flatten_splitLinesFrom]

end Unqualify.Text
