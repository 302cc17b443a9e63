/-!
# Blank characters and trimming

Trimming removes blank characters in the sense of Unicode: the characters whose bidirectional
class is a separator or white space, which takes in the four information separators and the next
line control, and leaves out the zero width space and the byte order mark.
-/

set_option autoImplicit false

namespace Unqualify.Text

/-- Whether a character is blank. -/
def isBlank (c : Char) : Bool :=
  let code := c.toNat
  (0x09 ≤ code && code ≤ 0x0D) || (0x1C ≤ code && code ≤ 0x20) || code == 0x85 || code == 0xA0 ||
    code == 0x1680 || (0x2000 ≤ code && code ≤ 0x200A) || code == 0x2028 || code == 0x2029 ||
    code == 0x202F || code == 0x205F || code == 0x3000

/-- The characters without those at the end that satisfy `drop`. -/
def dropEndWhile (drop : Char → Bool) (cs : List Char) : List Char :=
  (cs.reverse.dropWhile drop).reverse

/-- The characters without those at either end that satisfy `drop`. -/
def dropEndsWhile (drop : Char → Bool) (cs : List Char) : List Char :=
  dropEndWhile drop (cs.dropWhile drop)

/-- A text without the blanks at its end. -/
def trimEnd (text : String) : String :=
  String.ofList (dropEndWhile isBlank text.toList)

/-- A text without the blanks at either end. -/
def trim (text : String) : String :=
  String.ofList (dropEndsWhile isBlank text.toList)

/-! ## Lists written in one text -/

/-- The parts of a text between the occurrences of `separator`; an empty text has one empty part. -/
def splitOn (separator : Char) : List Char → List (List Char)
  | [] => [[]]
  | c :: rest =>
      if c = separator then [] :: splitOn separator rest
      else
        match splitOn separator rest with
        | [] => [[c]]
        | part :: parts => (c :: part) :: parts

/-- The items of a comma-separated list, trimmed, without the blank ones. -/
def commaList (text : String) : List String :=
  ((splitOn ',' text.toList).map fun part => trim (String.ofList part)).filter (· ≠ "")

end Unqualify.Text
