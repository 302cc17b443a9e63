import Unqualify.Options
import Unqualify.Value.Check

/-!
# Settings

What a run over files is told: the options of each transform, the number of workers, the suffixes to
pick up and the names to leave out. Settings come from defaults, from the environment and from
flags, each over the one before.

A variable of the environment that is empty counts as not set. The truth value and the integer are
read before anything is checked, so a variable that cannot be read wins over one that is refused.
-/

set_option autoImplicit false

namespace Unqualify

/-- Settings of a run over files. -/
structure Settings extends Options where
  workers : Nat := 1
  /-- The suffixes that are picked up, each with its dot. -/
  extensions : List String := [".js", ".jsx", ".ts", ".tsx"]
  /-- The names of files and directories that are left out. -/
  excluded : List String := ["node_modules", "dist", "build", ".git", "__pycache__", ".next"]
  deriving DecidableEq, Repr

/-- The quote styles by name. -/
def Quote.cases : List (String × Quote) :=
  Quote.all.map fun quote => (quote.name, quote)

namespace Options

/-- Checks a record of options. -/
def ofFields (fields : Check.Fields) : Checked Options :=
  let standard : Options := {}
  ((Check.field fields "namespace" Check.text standard.namespaceName).and
    ((Check.field fields "module" Check.text standard.moduleName).and
      ((Check.field fields "quote" (Check.optional (Check.oneOf .notAmong Quote.cases)) none).and
        (Check.field fields "semicolons" (Check.optional Check.bool) none)))).map
    fun (namespaceName, moduleName, quote, semicolons) =>
      ⟨namespaceName, moduleName, quote, semicolons⟩

end Options

namespace Settings

/-- A suffix with its dot. -/
def dotted (suffix : String) : String :=
  if ['.'].isPrefixOf suffix.toList then suffix else "." ++ suffix

/-- Suffixes with their dots, without the empty ones. -/
def dottedAll (suffixes : List String) : List String :=
  (suffixes.filter (· != "")).map dotted

/-- Checks a record of settings. -/
def ofFields (fields : Check.Fields) : Checked Settings :=
  let standard : Settings := {}
  ((Options.ofFields fields).and
    ((Check.field fields "workers" (Check.atLeast 1) standard.workers).and
      ((Check.field fields "extensions" (Check.list Check.text) standard.extensions).and
        (Check.field fields "exclude_patterns" (Check.list Check.text) standard.excluded)))).map
    fun (options, workers, extensions, excluded) =>
      { options with workers := workers.toNat, extensions := dottedAll extensions, excluded }

end Settings

/-! ## The environment -/

/-- The variables that are set. -/
abbrev Environment := String → Option String

/-- Why there are no settings. -/
inductive SettingsFailure where
  /-- A variable is to be a truth value and holds another text. -/
  | notBoolean (key raw : String)
  /-- The number of workers is no numeral. -/
  | notInteger (raw : String)
  /-- The number of workers has more digits than are read. -/
  | tooManyDigits (count : Nat)
  | refused (violations : List Violation)
  deriving Repr

namespace Environment

/-- What the names of all variables start with. -/
def namePrefix : String := "REACT_NAMED_IMPORTS_"

/-- The names of all variables, without what they start with. -/
def names : List String :=
  ["NAMESPACE", "MODULE", "QUOTE", "SEMICOLONS", "WORKERS", "EXTENSIONS", "EXCLUDE_PATTERNS"]

/-- A variable, if it is set to a text that is not empty. -/
def get? (environment : Environment) (name : String) : Option String :=
  (environment (namePrefix ++ name)).filter (· != "")

/-- The words for truth values in the environment. -/
def truthWord? (word : String) : Option Bool :=
  if ["1", "true", "yes", "on"].contains word then some true
  else if ["0", "false", "no", "off"].contains word then some false
  else none

/-- A truth value of the environment. -/
def bool (key raw : String) : Except SettingsFailure Bool :=
  match truthWord? (Check.lowerAscii (Text.trim raw)) with
  | some value => .ok value
  | none => .error (.notBoolean (namePrefix ++ key) raw)

/-- An integer of the environment. -/
def integer (raw : String) : Except SettingsFailure Int :=
  match Text.readInteger raw with
  | .ok value => .ok value
  | .error .malformed => .error (.notInteger raw)
  | .error (.tooManyDigits count) => .error (.tooManyDigits count)

/-- A field of a record, if there is a value for it. -/
def entry (name : String) (value : Option Value) : Check.Fields :=
  value.toList.map fun value => (name, value)

/-- The record of settings that an environment gives. -/
def fields (environment : Environment) : Except SettingsFailure Check.Fields := do
  let text (name : String) : Option Value :=
    (environment.get? name).map fun raw => .text (Text.trim raw)
  let list (name : String) : Option Value :=
    (environment.get? name).map fun raw => .list ((Text.commaList raw).map .text)
  let semicolons ← (environment.get? "SEMICOLONS").mapM (bool "SEMICOLONS")
  let workers ← (environment.get? "WORKERS").mapM integer
  return entry "namespace" (text "NAMESPACE") ++ entry "module" (text "MODULE") ++
    entry "quote" (text "QUOTE") ++ entry "semicolons" (semicolons.map .bool) ++
    entry "workers" (workers.map .int) ++ entry "extensions" (list "EXTENSIONS") ++
    entry "exclude_patterns" (list "EXCLUDE_PATTERNS")

end Environment

/-- The settings that an environment gives. -/
def Settings.load (environment : Environment) : Except SettingsFailure Settings := do
  (Settings.ofFields (← environment.fields)).mapError .refused

/-! ## Wording -/

namespace Violation

mutual
/-- A value as messages show it. -/
def shown : Value → String
  | .null => "None"
  | .bool value => if value then "True" else "False"
  | .int value => toString value
  | .decimal mantissa places => Value.renderDecimal mantissa places
  | .text value => Text.quoted value
  | .list items => "[" ++ ", ".intercalate (shownItems items) ++ "]"
  | .record fields => "\x7b" ++ ", ".intercalate (shownFields fields) ++ "\x7d"

/-- The items of a list as messages show them. -/
def shownItems : List Value → List String
  | [] => []
  | item :: rest => shown item :: shownItems rest

/-- The fields of a record as messages show them. -/
def shownFields : List (String × Value) → List String
  | [] => []
  | (name, value) :: rest => (Text.quoted name ++ ": " ++ shown value) :: shownFields rest
end

/-- How messages call the type of a value. -/
def typeName : Value → String
  | .null => "NoneType"
  | .bool _ => "bool"
  | .int _ => "int"
  | .decimal _ _ => "float"
  | .text _ => "str"
  | .list _ => "list"
  | .record _ => "dict"

/-- The longest start of a text with at most so many octets. -/
def startOf : Nat → List Char → List Char
  | _, [] => []
  | room, c :: rest => if c.utf8Size ≤ room then c :: startOf (room - c.utf8Size) rest else []

/-- A text of more than fifty octets is cut down to its first 25 and its last 24. -/
def shortened (text : String) : String :=
  if text.utf8ByteSize ≤ 50 then text
  else
    String.ofList (startOf 25 text.toList) ++ "..." ++
      String.ofList (startOf 24 text.toList.reverse).reverse

/-- A place in a record. -/
def place (violation : Violation) : String :=
  ".".intercalate (violation.path.map fun step =>
    match step with
    | .field name => name
    | .index position => toString position)

/-- The three lines on a violation. -/
def lines (violation : Violation) : List String :=
  [violation.place,
   "  " ++ violation.wrong.message ++ " [type=" ++ violation.wrong.code ++ ", input_value=" ++
     shortened (shown violation.found) ++ ", input_type=" ++ typeName violation.found ++ "]",
   "    For further information visit https://errors.pydantic.dev/2.14/v/" ++ violation.wrong.code]

/-- The wording of the violations of a record. -/
def messageOf (model : String) (violations : List Violation) : String :=
  let count := violations.length
  let title :=
    toString count ++
    (if count == 1 then " validation error for " else " validation errors for ") ++
      model
  "\n".intercalate (title :: violations.flatMap lines)

end Violation

/-- The length at which a text that is no numeral is cut off in messages. -/
def SettingsFailure.quotedLimit : Nat := 200

/-- The wording of a failure to get settings. -/
def SettingsFailure.message : SettingsFailure → String
  | .notBoolean key raw => key ++ " must be a boolean, got " ++ Text.quoted raw
  | .notInteger raw =>
      "invalid literal for int() with base 10: " ++
        String.ofList ((Text.quoted raw).toList.take quotedLimit)
  | .tooManyDigits count =>
      "Exceeds the limit (" ++ toString Text.digitLimit ++
        " digits) for integer string conversion: value has " ++ toString count ++
        " digits; use sys.set_int_max_str_digits() to increase the limit"
  | .refused violations => Violation.messageOf "CodemodSettings" violations

end Unqualify
