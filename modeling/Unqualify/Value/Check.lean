import Unqualify.Text.Numeral
import Unqualify.Text.Quoted
import Unqualify.Value

/-!
# Checking values

A check turns a value into one of a type or says what is wrong with it. Checks of the fields of a
record are combined so that every violation is reported, in the order of the fields
(`Checked.and`).

Checks are lenient where nothing is lost: a whole number may stand for a truth value when it is zero
or one, a truth value or a text for an integer, and a text for a truth value.
-/

set_option autoImplicit false

namespace Unqualify

/-- A step on the way from a record to a value inside of it. -/
inductive Step where
  | field (name : String)
  | index (position : Nat)
  deriving DecidableEq, Repr

/-- What is wrong with a value. -/
inductive Wrong where
  | missing
  | notText
  | notBoolean
  | unclearBoolean
  | notInteger
  | unclearInteger
  | hugeInteger
  | fractional
  | below (bound : Int)
  | notList
  | notRecord (model : String)
  /-- The value is none of the listed texts. -/
  | notAmong (choices : List String)
  /-- The value is the name of none of the listed cases. -/
  | notCase (cases : List String)
  deriving DecidableEq, Repr

namespace Wrong

/-- Alternatives in a sentence. -/
def alternatives (texts : List String) : String :=
  match texts.getLast? with
  | none => ""
  | some last =>
      let others := texts.dropLast
      if others.isEmpty then Text.quoted last
      else ", ".intercalate (others.map Text.quoted) ++ " or " ++ Text.quoted last

/-- The short name of a violation. -/
def code : Wrong → String
  | .missing => "missing"
  | .notText => "string_type"
  | .notBoolean => "bool_type"
  | .unclearBoolean => "bool_parsing"
  | .notInteger => "int_type"
  | .unclearInteger => "int_parsing"
  | .hugeInteger => "int_parsing_size"
  | .fractional => "int_from_float"
  | .below _ => "greater_than_equal"
  | .notList => "list_type"
  | .notRecord _ => "model_type"
  | .notAmong _ => "literal_error"
  | .notCase _ => "enum"

/-- The wording of a violation. -/
def message : Wrong → String
  | .missing => "Field required"
  | .notText => "Input should be a valid string"
  | .notBoolean => "Input should be a valid boolean"
  | .unclearBoolean => "Input should be a valid boolean, unable to interpret input"
  | .notInteger => "Input should be a valid integer"
  | .unclearInteger => "Input should be a valid integer, unable to parse string as an integer"
  | .hugeInteger => "Unable to parse input string as an integer, exceeded maximum size"
  | .fractional => "Input should be a valid integer, got a number with a fractional part"
  | .below bound => "Input should be greater than or equal to " ++ toString bound
  | .notList => "Input should be a valid list"
  | .notRecord model => "Input should be a valid dictionary or instance of " ++ model
  | .notAmong choices => "Input should be " ++ alternatives choices
  | .notCase cases => "Input should be " ++ alternatives cases

end Wrong

/-- Something wrong at a place in a record, with the value found there. -/
structure Violation where
  path : List Step
  wrong : Wrong
  found : Value
  deriving Repr

/-- A value of a type, or all that is wrong. -/
abbrev Checked (α : Type) := Except (List Violation) α

namespace Checked

variable {α β : Type}

/-- Both values, or the violations of both. -/
def and (first : Checked α) (second : Checked β) : Checked (α × β) :=
  match first, second with
  | .ok a, .ok b => .ok (a, b)
  | .ok _, .error found => .error found
  | .error found, .ok _ => .error found
  | .error found, .error more => .error (found ++ more)

/-- A check seen from one step further out. -/
def within (step : Step) (checked : Checked α) : Checked α :=
  checked.mapError fun found =>
    found.map fun violation => { violation with path := step :: violation.path }

/-- A violation at the value itself. -/
def refuse (wrong : Wrong) (found : Value) : Checked α :=
  .error [⟨[], wrong, found⟩]

end Checked

namespace Check

variable {α : Type}

/-! ## Texts and lists -/

/-- A text. -/
def text : Value → Checked String
  | .text value => .ok value
  | other => .refuse .notText other

/-- A value that may be absent. -/
def optional (check : Value → Checked α) : Value → Checked (Option α)
  | .null => .ok none
  | other => (check other).map some

/-- The items of a list from a position on. -/
def itemsFrom (check : Value → Checked α) : Nat → List Value → Checked (List α)
  | _, [] => .ok []
  | position, item :: rest =>
      ((Checked.within (.index position) (check item)).and
        (itemsFrom check (position + 1) rest)).map fun (first, others) => first :: others

/-- A list. -/
def list (check : Value → Checked α) : Value → Checked (List α)
  | .list items => itemsFrom check 0 items
  | other => .refuse .notList other

/-- One of the cases that go by the listed names. -/
def oneOf (wrong : List String → Wrong) (cases : List (String × α)) (value : Value) : Checked α :=
  let refused : Checked α := .refuse (wrong (cases.map (·.1))) value
  match value with
  | .text name =>
      match cases.find? fun case => case.1 == name with
      | some case => .ok case.2
      | none => refused
  | _ => refused

/-! ## Truth values -/

/-- A text with its ASCII letters in lower case. -/
def lowerAscii (value : String) : String :=
  String.ofList (value.toList.map Char.toLower)

/-- The words for truth values. -/
def truthWord? (word : String) : Option Bool :=
  if ["0", "off", "f", "false", "n", "no"].contains word then some false
  else if ["1", "on", "t", "true", "y", "yes"].contains word then some true
  else none

/-- The whole number that a decimal is, if it is one. -/
def whole? (mantissa : Int) (places : Nat) : Option Int :=
  let unit : Int := Nat.pow 10 places
  if mantissa % unit = 0 then some (mantissa / unit) else none

/-- Whether a number fits into a signed word of 64 bits. -/
def fitsWord (number : Int) : Bool :=
  -0x8000000000000000 ≤ number && number < 0x8000000000000000

/-- Whether a whole decimal counts as an integer: it has to lie inside the range of signed words. -/
def countsAsInteger (number : Int) : Bool :=
  -0x8000000000000000 < number && number < 0x8000000000000000

/-- A truth value. -/
def bool (value : Value) : Checked Bool :=
  let ofInt (number : Int) : Checked Bool :=
    if number = 0 then .ok false
    else if number = 1 then .ok true
    else .refuse .unclearBoolean value
  match value with
  | .bool given => .ok given
  | .int number => if fitsWord number then ofInt number else .refuse .notBoolean value
  | .decimal mantissa places =>
      match (whole? mantissa places).filter countsAsInteger with
      | some number => ofInt number
      | none => .refuse .notBoolean value
  | .text word =>
      match truthWord? (lowerAscii word) with
      | some given => .ok given
      | none => .refuse .unclearBoolean value
  | _ => .refuse .notBoolean value

/-! ## Integers in texts

A text is read strictly first, and once more after it has been tidied when that does not do. -/

/-- The integer that characters denote: digits of ASCII, with no zero in front and a minus sign at
most. With its sign it may be as long as the longest numeral, whatever comes after it. -/
def strictInteger (cs : List Char) : Except Wrong Int :=
  let (sign, unsigned) : Int × List Char :=
    match cs with
    | '-' :: rest => (-1, rest)
    | _ => (1, cs)
  let numeral := unsigned.takeWhile Char.isDigit
  let ended := (unsigned.dropWhile Char.isDigit).isEmpty
  match numeral with
  | [] => .error .unclearInteger
  | '0' :: more => if more.isEmpty && ended then .ok 0 else .error .unclearInteger
  | _ =>
      if Text.digitLimit < cs.length - unsigned.length + numeral.length then .error .hugeInteger
      else if ended then .ok (sign * Text.ofDigits (numeral.map fun c => c.toNat - '0'.toNat))
      else .error .unclearInteger

/-- Whether a number may go on with a character after zeros in front of it. -/
def startsNumber (c : Char) : Bool :=
  ('1' ≤ c && c ≤ '9') || c == '-'

/-- The characters after zeros and underscores, the last of which was `last`. It is kept when
nothing or a fraction follows. -/
def afterZeros (last : Char) : List Char → Option (List Char)
  | [] => some [last]
  | c :: rest =>
      if c == '0' || c == '_' then afterZeros c rest
      else if startsNumber c then some (c :: rest)
      else if c == '.' then some (last :: c :: rest)
      else none

/-- The characters of a number without zeros in front. -/
def withoutZeros : List Char → Option (List Char)
  | [] => none
  | c :: rest =>
      if c == '0' then afterZeros c rest
      else if startsNumber c then some (c :: rest)
      else none

/-- The characters without a fraction, if there is one and it is zero. -/
def withoutFraction (cs : List Char) : List Char :=
  match cs.dropWhile (· != '.') with
  | _ :: c :: rest => if (c :: rest).all (· == '0') then cs.takeWhile (· != '.') else cs
  | _ => cs

/-- Whether two underscores stand side by side. -/
def hasDoubleUnderscore : List Char → Bool
  | '_' :: '_' :: _ => true
  | _ :: rest => hasDoubleUnderscore rest
  | [] => false

/-- The characters without underscores, if each of these is inside and alone. -/
def withoutUnderscores (cs : List Char) : List Char :=
  if cs.head? == some '_' || cs.getLast? == some '_' || hasDoubleUnderscore cs then cs
  else cs.filter (· != '_')

/-- The characters of a number without what a strict reader does not take, its sign apart. -/
def tidiedNumber (cs : List Char) : Option (List Char) :=
  (withoutZeros cs).map fun rest => withoutUnderscores (withoutFraction rest)

/-- The characters of an integer without what a strict reader does not take. -/
def tidied (cs : List Char) : Option (List Char) :=
  match Text.dropEndsWhile Text.isNumeralBlank cs with
  | '+' :: rest => if rest.head? == some '-' then none else tidiedNumber rest
  | '-' :: rest => (tidiedNumber rest).map ('-' :: ·)
  | rest => tidiedNumber rest

/-- The integer that a text denotes. -/
def integerText (text : String) : Except Wrong Int :=
  match strictInteger text.toList with
  | .error .unclearInteger =>
      match tidied text.toList with
      | some cs => strictInteger cs
      | none => .error .unclearInteger
  | result => result

/-! ## Integers -/

/-- An integer. -/
def integer (value : Value) : Checked Int :=
  match value with
  | .bool given => .ok (if given then 1 else 0)
  | .int number => .ok number
  | .decimal mantissa places =>
      match whole? mantissa places with
      | some number =>
          if countsAsInteger number then .ok number else .refuse .hugeInteger value
      | none => .refuse .fractional value
  | .text numeral =>
      match integerText numeral with
      | .ok number => .ok number
      | .error wrong => .refuse wrong value
  | _ => .refuse .notInteger value

/-- An integer that is not below a bound. -/
def atLeast (bound : Int) (value : Value) : Checked Int := do
  let number ← integer value
  if number < bound then .refuse (.below bound) value else return number

/-! ## Records -/

/-- The fields of a record, by name. -/
abbrev Fields := List (String × Value)

/-- A field that has to be there. -/
def required (fields : Fields) (name : String) (check : Value → Checked α) : Checked α :=
  Checked.within (.field name)
    (match fields.lookup name with
    | some value => check value
    | none => .refuse .missing (.record fields))

/-- A field that is taken as `fallback` when it is not there. -/
def field (fields : Fields) (name : String) (check : Value → Checked α) (fallback : α) :
    Checked α :=
  match fields.lookup name with
  | some value => Checked.within (.field name) (check value)
  | none => .ok fallback

end Check

end Unqualify
