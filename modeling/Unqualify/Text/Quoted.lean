import Unqualify.Text.Printable

/-!
# Quoted texts in messages

A message shows a text between single quotes, or between double quotes when the text has single
quotes and no double ones. Backslashes, the chosen quote and unprintable characters are escaped;
the shortest of the forms with two, four or eight hexadecimal digits is taken.
-/

set_option autoImplicit false

namespace Unqualify.Text

/-- `width` lower-case hexadecimal digits of `code`. -/
def hexDigits (width code : Nat) : List Char :=
  let digits := Nat.toDigits 16 code
  List.replicate (width - digits.length) '0' ++ digits

/-- A character inside a text that is quoted by `quote`. -/
def escapeChar (quote c : Char) : List Char :=
  if c = quote || c = '\\' then ['\\', c]
  else if c = '\n' then ['\\', 'n']
  else if c = '\r' then ['\\', 'r']
  else if c = '\t' then ['\\', 't']
  else if isPrintable c then [c]
  else if c.toNat < 0x100 then '\\' :: 'x' :: hexDigits 2 c.toNat
  else if c.toNat < 0x10000 then '\\' :: 'u' :: hexDigits 4 c.toNat
  else '\\' :: 'U' :: hexDigits 8 c.toNat

/-- The quote that a text is shown in. -/
def quoteFor (cs : List Char) : Char :=
  if cs.contains '\'' && !cs.contains '"' then '"' else '\''

/-- A text as messages show it. -/
def quoted (text : String) : String :=
  let quote := quoteFor text.toList
  String.ofList (quote :: text.toList.flatMap (escapeChar quote) ++ [quote])

end Unqualify.Text
