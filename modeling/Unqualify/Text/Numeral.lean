import Unqualify.Text.Blank

/-!
# Integers written in decimal

A numeral is an optional sign and decimal digits of any script, with single underscores allowed
between digits, and blanks allowed around the whole. The information separators count as blanks
elsewhere and not here. Numerals of more than `digitLimit` digits are not read, zeros in front
included.
-/

set_option autoImplicit false

namespace Unqualify.Text

/-- The zeros of the scripts that have decimal digits; each is followed by its other nine. -/
def digitZeros : List Nat :=
  [0x30, 0x660, 0x6F0, 0x7C0, 0x966, 0x9E6, 0xA66, 0xAE6, 0xB66, 0xBE6, 0xC66, 0xCE6, 0xD66, 0xDE6,
   0xE50, 0xED0, 0xF20, 0x1040, 0x1090, 0x17E0, 0x1810, 0x1946, 0x19D0, 0x1A80, 0x1A90, 0x1B50,
   0x1BB0, 0x1C40, 0x1C50, 0xA620, 0xA8D0, 0xA900, 0xA9D0, 0xA9F0, 0xAA50, 0xABF0, 0xFF10, 0x104A0,
   0x10D30, 0x11066, 0x110F0, 0x11136, 0x111D0, 0x112F0, 0x11450, 0x114D0, 0x11650, 0x116C0,
   0x11730, 0x118E0, 0x11950, 0x11C50, 0x11D50, 0x11DA0, 0x16A60, 0x16AC0, 0x16B50, 0x1D7CE,
   0x1D7D8, 0x1D7E2, 0x1D7EC, 0x1D7F6, 0x1E140, 0x1E2F0, 0x1E950, 0x1FBF0]

/-- The value of a decimal digit of any script. -/
def digitValue? (c : Char) : Option Nat :=
  digitZeros.findSome? fun base =>
    if base ≤ c.toNat && c.toNat < base + 10 then some (c.toNat - base) else none

/-- Whether a character is a decimal digit of some script. -/
def isDecimalDigit (c : Char) : Bool :=
  (digitValue? c).isSome

/-- Why a text is no integer. -/
inductive NumeralFault where
  | malformed
  /-- There are so many digits, which is more than are read. -/
  | tooManyDigits (count : Nat)
  deriving DecidableEq, Repr

/-- The most digits that are read. -/
def digitLimit : Nat := 4300

/-- The values of digits with single underscores between them, after a part whose last character
was a digit or not. -/
def digits? (afterDigit : Bool) : List Char → Option (List Nat)
  | [] => if afterDigit then some [] else none
  | c :: rest =>
      if c = '_' then
        if afterDigit then digits? false rest else none
      else
        match digitValue? c with
        | some digit => (digits? true rest).map (digit :: ·)
        | none => none

/-- The number that digits denote. -/
def ofDigits (digits : List Nat) : Nat :=
  digits.foldl (fun value digit => 10 * value + digit) 0

/-- Whether a character may stand around a numeral. -/
def isNumeralBlank (c : Char) : Bool :=
  isBlank c && !(0x1C ≤ c.toNat && c.toNat ≤ 0x1F)

/-- Whether a character may stand in a numeral, after its sign. -/
def isNumeralPart (c : Char) : Bool :=
  isDecimalDigit c || c == '_'

/-- A sign at the front, as a factor, and what follows it. -/
def splitSign : List Char → Int × List Char
  | '+' :: rest => (1, rest)
  | '-' :: rest => (-1, rest)
  | cs => (1, cs)

/-- The integer that a text denotes. The digits are counted before anything that follows them is
looked at. -/
def readInteger (text : String) : Except NumeralFault Int :=
  let (sign, unsigned) := splitSign (text.toList.dropWhile isNumeralBlank)
  match digits? false (unsigned.takeWhile isNumeralPart) with
  | none => .error .malformed
  | some digits =>
      if digitLimit < digits.length then .error (.tooManyDigits digits.length)
      else if (unsigned.dropWhile isNumeralPart).all isNumeralBlank then
        .ok (sign * ofDigits digits)
      else .error .malformed

end Unqualify.Text
