/-!
# Values without a schema

What a caller hands over before it is checked, and what a report is written from: nothing, a truth
value, a number, a text, a list, or a record of named fields in order. `Value.render` writes a value
in the JSON format on several lines, two spaces deeper at each level, with every character outside
of printable ASCII escaped in UTF-16 units.
-/

set_option autoImplicit false

namespace Unqualify

/-- A value whose shape is not known yet. -/
inductive Value where
  | null
  | bool (value : Bool)
  | int (value : Int)
  /-- The number `mantissa` divided by ten to the power `places`. -/
  | decimal (mantissa : Int) (places : Nat)
  | text (value : String)
  | list (items : List Value)
  | record (fields : List (String × Value))
  deriving Repr, Inhabited

namespace Value

/-! ## Texts -/

/-- Four lower-case hexadecimal digits of a UTF-16 unit. -/
def unitDigits (unit : Nat) : List Char :=
  [unit / 4096 % 16, unit / 256 % 16, unit / 16 % 16, unit % 16].map Nat.digitChar

/-- The UTF-16 units of a character. -/
def units (c : Char) : List Nat :=
  if c.toNat < 0x10000 then [c.toNat]
  else
    let rest := c.toNat - 0x10000
    [0xD800 + rest / 0x400, 0xDC00 + rest % 0x400]

/-- A character inside of a JSON text. -/
def escapeChar (c : Char) : List Char :=
  if c = '"' || c = '\\' then ['\\', c]
  else if c = '\n' then ['\\', 'n']
  else if c = '\r' then ['\\', 'r']
  else if c = '\t' then ['\\', 't']
  else if c.toNat = 0x08 then ['\\', 'b']
  else if c.toNat = 0x0C then ['\\', 'f']
  else if 0x20 ≤ c.toNat && c.toNat ≤ 0x7E then [c]
  else (units c).flatMap fun unit => '\\' :: 'u' :: unitDigits unit

/-- A JSON text with its quotes. -/
def renderText (text : String) : String :=
  String.ofList ('"' :: text.toList.flatMap escapeChar ++ ['"'])

/-! ## Values -/

/-- The break before an item at a depth. -/
def lineBreak (depth : Nat) : String :=
  "\n" ++ String.ofList (List.replicate (2 * depth) ' ')

/-- Items between brackets, each on its own line. -/
def enclose (opening closing : String) (depth : Nat) (items : List String) : String :=
  if items.isEmpty then opening ++ closing
  else
    opening ++ lineBreak (depth + 1) ++ ("," ++ lineBreak (depth + 1)).intercalate items ++
      lineBreak depth ++ closing

/-- A decimal as it is written without an exponent. -/
def renderDecimal (mantissa : Int) (places : Nat) : String :=
  let digits := Nat.toDigits 10 mantissa.natAbs
  let padded := List.replicate (places + 1 - digits.length) '0' ++ digits
  (if mantissa < 0 then "-" else "") ++
    String.ofList (padded.take (padded.length - places)) ++ "." ++
    String.ofList (padded.drop (padded.length - places))

mutual
/-- A value in the JSON format, where the line it starts on has the given depth. -/
def renderAt (depth : Nat) : Value → String
  | .null => "null"
  | .bool value => if value then "true" else "false"
  | .int value => toString value
  | .decimal mantissa places => renderDecimal mantissa places
  | .text value => renderText value
  | .list items => enclose "[" "]" depth (renderItems (depth + 1) items)
  | .record fields => enclose "\x7b" "\x7d" depth (renderFields (depth + 1) fields)

/-- The items of a list. -/
def renderItems (depth : Nat) : List Value → List String
  | [] => []
  | item :: rest => renderAt depth item :: renderItems depth rest

/-- The fields of a record. -/
def renderFields (depth : Nat) : List (String × Value) → List String
  | [] => []
  | (name, value) :: rest =>
      (renderText name ++ ": " ++ renderAt depth value) :: renderFields depth rest
end

/-- A value in the JSON format. -/
def render (value : Value) : String :=
  value.renderAt 0

/-- A text, or nothing. -/
def ofText? : Option String → Value
  | some value => .text value
  | none => .null

end Value

end Unqualify
