import Unqualify.Language
import Unqualify.Options
import Unqualify.Text.Numeral
import Unqualify.Text.Quoted

/-!
# Arguments of the command line

An argument is a switch when it starts with a dash and is none of the exceptions: a lone dash, a
negative number, a text with a space in it. A long switch may be shortened as long as it stays
unique, and a value may be attached to it by an equals sign. Letters attached to a short switch are
short switches themselves. The arguments after `--` are paths, whatever they look like. A `--` that
is attached to a switch is its value. Some readers of arguments take it away, which leaves the
switch with no value (`Given`); whether arguments are read by such a one is a parameter.

Arguments are classified first, all of them, so a shortened switch that is not unique is refused
before anything else is looked at. Then they are gone through in order. The first run of arguments
that are no switches holds the paths; those of later runs, and switches that are not known, are left
over, and nothing may be left over.
-/

set_option autoImplicit false

namespace Unqualify

/-- What a switch of the command line is about. -/
inductive Switch where
  | help
  | dryRun
  | print
  | diff
  | stdin
  | stdinLanguage
  | extensions
  | ignore
  | workers
  | namespaceName
  | moduleName
  | quote
  | semicolons (wanted : Bool)
  | outputJson
  | verbose
  deriving DecidableEq, Repr

namespace Switch

/-- The spellings of all switches, in the order in which choices are listed. -/
def spellings : List (String × Switch) :=
  [("-h", .help), ("--help", .help), ("--dry-run", .dryRun), ("--print", .print),
   ("--diff", .diff), ("--stdin", .stdin), ("--stdin-language", .stdinLanguage),
   ("--extensions", .extensions), ("--ignore", .ignore), ("--workers", .workers),
   ("--namespace", .namespaceName), ("--module", .moduleName), ("--quote", .quote),
   ("--semicolons", .semicolons true), ("--no-semicolons", .semicolons false),
   ("--output-json", .outputJson), ("--verbose", .verbose)]

/-- Whether two switches belong together in messages. -/
def sameTitle : Switch → Switch → Bool
  | .semicolons _, .semicolons _ => true
  | a, b => a == b

/-- How messages call a switch: by all of its spellings. -/
def title (switch : Switch) : String :=
  "/".intercalate ((spellings.filter fun spelling => spelling.2.sameTitle switch).map (·.1))

/-- Whether a switch needs a value. -/
def takesValue : Switch → Bool
  | .stdinLanguage | .extensions | .ignore | .workers | .namespaceName | .moduleName | .quote =>
      true
  | _ => false

end Switch

/-- Why arguments are refused. -/
inductive Misuse where
  | ambiguous (argument : String) (candidates : List String)
  | expectedValue (switch : Switch)
  | unwantedValue (switch : Switch) (value : String)
  | notInteger (switch : Switch) (value : String)
  | notAmong (switch : Switch) (value : String) (choices : List String)
  | leftOver (arguments : List String)
  deriving DecidableEq, Repr

/-- The wording of a misuse. -/
def Misuse.message : Misuse → String
  | .ambiguous argument candidates =>
      "ambiguous option: " ++ argument ++ " could match " ++ ", ".intercalate candidates
  | .expectedValue switch => "argument " ++ switch.title ++ ": expected one argument"
  | .unwantedValue switch value =>
      "argument " ++ switch.title ++ ": ignored explicit argument " ++ Text.quoted value
  | .notInteger switch value =>
      "argument " ++ switch.title ++ ": invalid int value: " ++ Text.quoted value
  | .notAmong switch value choices =>
      "argument " ++ switch.title ++ ": invalid choice: " ++ Text.quoted value ++
        " (choose from " ++ ", ".intercalate (choices.map Text.quoted) ++ ")"
  | .leftOver arguments => "unrecognized arguments: " ++ " ".intercalate arguments

/-! ## Classifying -/

/-- An argument as it is read. -/
inductive Token where
  | plain (text : String)
  | separator
  | named (switch : Switch) (attached : Option String)
  /-- A short switch with letters attached. -/
  | clustered (switch : Switch) (letters : String)
  | unknown (text : String)
  deriving DecidableEq, Repr

namespace Token

/-- Whether characters are a negative number, integral or with a point. -/
def isNegativeNumber (cs : List Char) : Bool :=
  match cs with
  | '-' :: rest =>
      let rest := if rest.getLast? == some '\n' then rest.dropLast else rest
      let integral := rest.takeWhile Text.isDecimalDigit
      match rest.dropWhile Text.isDecimalDigit with
      | [] => !integral.isEmpty
      | '.' :: fraction => !fraction.isEmpty && fraction.all Text.isDecimalDigit
      | _ => false
  | _ => false

/-- What is before the first equals sign and, if there is one, what is after it. -/
def splitAttached (cs : List Char) : String × Option String :=
  let head := String.ofList (cs.takeWhile (· != '='))
  match cs.dropWhile (· != '=') with
  | [] => (head, none)
  | _ :: value => (head, some (String.ofList value))

/-- The switches that an argument can stand for without being spelled out, each with its spelling
and the value attached to it. -/
def shortened (argument : String) : List (String × Switch × Option String) :=
  match argument.toList with
  | '-' :: '-' :: _ =>
      let (head, attached) := splitAttached argument.toList
      (Switch.spellings.filter fun spelling => head.toList.isPrefixOf spelling.1.toList).map
        fun (name, switch) => (name, switch, attached)
  | '-' :: letter :: rest =>
      (Switch.spellings.filter fun spelling => spelling.1.toList == ['-', letter]).map
        fun (name, switch) => (name, switch, some (String.ofList rest))
  | _ => []

/-- A switch that goes by a spelling, with what is attached to it. -/
def attach (spelling : String) (switch : Switch) (attached : String) : Token :=
  if spelling.length == 2 then .clustered switch attached else .named switch (some attached)

/-- Reads one argument before `--`. -/
def ofArgument (argument : String) : Except Misuse Token :=
  let cs := argument.toList
  if cs.head? != some '-' then .ok (.plain argument)
  else
    match Switch.spellings.lookup argument with
    | some switch => .ok (.named switch none)
    | none =>
        if cs.length == 1 then .ok (.plain argument)
        else
          let (head, attached) := splitAttached cs
          match attached, Switch.spellings.lookup head with
          | some value, some switch => .ok (attach head switch value)
          | _, _ =>
              match shortened argument with
              | [(_, switch, none)] => .ok (.named switch none)
              | [(name, switch, some value)] => .ok (attach name switch value)
              | [] =>
                  if isNegativeNumber cs || cs.contains ' ' then .ok (.plain argument)
                  else .ok (.unknown argument)
              | candidates => .error (.ambiguous argument (candidates.map (·.1)))

/-- Reads all arguments. -/
def ofArguments : List String → Except Misuse (List Token)
  | [] => .ok []
  | argument :: rest =>
      if argument == "--" then .ok (.separator :: rest.map .plain)
      else do
        let token ← ofArgument argument
        return token :: (← ofArguments rest)

end Token

/-! ## Going through -/

/-- What a switch that needs a value has got. -/
inductive Given (α : Type) where
  | value (value : α)
  /-- Only a `--` that was taken away. -/
  | nothing
  deriving DecidableEq, Repr

/-- The value, if there is one. -/
def Given.value? {α : Type} : Given α → Option α
  | .value got => some got
  | .nothing => none

/-- The same with another value. -/
def Given.map {α β : Type} (f : α → β) : Given α → Given β
  | .value got => .value (f got)
  | .nothing => .nothing

/-- What the command line asks for. -/
structure Arguments where
  paths : List String := []
  dryRun : Bool := false
  printOutput : Bool := false
  diff : Bool := false
  stdin : Bool := false
  stdinLanguage : Given Language := .value .tsx
  extensions : Option (Given String) := none
  ignored : List (Given String) := []
  workers : Option (Given Int) := none
  namespaceName : Option (Given String) := none
  moduleName : Option (Given String) := none
  quote : Option (Given Quote) := none
  semicolons : Option Bool := none
  outputJson : Bool := false
  verbose : Bool := false
  deriving DecidableEq, Repr

/-- Why there are no arguments to act on. -/
inductive Refusal where
  | helpWanted
  | misuse (found : Misuse)
  deriving DecidableEq, Repr

/-- How far the paths have been collected. -/
inductive PathRun where
  | ahead
  | inside
  | past
  deriving DecidableEq, Repr

/-- What has been read so far. -/
structure ArgumentState where
  arguments : Arguments := {}
  run : PathRun := .ahead
  leftOver : List String := []
  deriving DecidableEq, Repr

namespace ArgumentState

/-- The state after something that is no path: a run of paths has ended. -/
def endRun (state : ArgumentState) : ArgumentState :=
  { state with run := if state.run == .inside then .past else state.run }

/-- Takes an argument that is no switch. -/
def takePlain (state : ArgumentState) (text : String) : ArgumentState :=
  if state.run == .past then { state with leftOver := state.leftOver ++ [text] }
  else
    { state with
      run := .inside
      arguments := { state.arguments with paths := state.arguments.paths ++ [text] } }

/-- Takes the separator, which is no path itself. -/
def takeSeparator (state : ArgumentState) : ArgumentState :=
  if state.run == .past then { state with leftOver := state.leftOver ++ ["--"] }
  else { state with run := .inside }

/-- Leaves an argument over. -/
def leave (state : ArgumentState) (text : String) : ArgumentState :=
  { state.endRun with leftOver := state.leftOver ++ [text] }

end ArgumentState

namespace Arguments

/-- The texts that a switch takes: any. -/
def anyText (value : String) : Except Misuse String :=
  .ok value

/-- One of the cases that go by the listed names. -/
def choose {α : Type} (switch : Switch) (cases : List (String × α)) (value : String) :
    Except Misuse α :=
  match cases.lookup value with
  | some case => .ok case
  | none => .error (.notAmong switch value (cases.map (·.1)))

/-- An integer. -/
def integer (switch : Switch) (value : String) : Except Misuse Int :=
  match Text.readInteger value with
  | .ok number => .ok number
  | .error _ => .error (.notInteger switch value)

/-- What a switch has got, by what it takes. -/
def given {α : Type} (dropsSeparator : Bool) (take : String → Except Misuse α) (value : String) :
    Except Misuse (Given α) :=
  if dropsSeparator && value == "--" then .ok .nothing else (take value).map .value

/-- Sets what a switch without a value is about. -/
def turnOn (arguments : Arguments) : Switch → Arguments
  | .dryRun => { arguments with dryRun := true }
  | .print => { arguments with printOutput := true }
  | .diff => { arguments with diff := true }
  | .stdin => { arguments with stdin := true }
  | .semicolons wanted => { arguments with semicolons := some wanted }
  | .outputJson => { arguments with outputJson := true }
  | .verbose => { arguments with verbose := true }
  | _ => arguments

/-- Sets what a switch with a value is about. -/
def assign (arguments : Arguments) (dropsSeparator : Bool) (switch : Switch) (value : String) :
    Except Misuse Arguments := do
  match switch with
  | .stdinLanguage =>
      let cases := Language.all.map fun language => (language.name, language)
      return { arguments with
               stdinLanguage := ← given dropsSeparator (choose switch cases) value }
  | .extensions =>
      return { arguments with extensions := some (← given dropsSeparator anyText value) }
  | .ignore =>
      return { arguments with
               ignored := arguments.ignored ++ [← given dropsSeparator anyText value] }
  | .workers =>
      return { arguments with workers := some (← given dropsSeparator (integer switch) value) }
  | .namespaceName =>
      return { arguments with namespaceName := some (← given dropsSeparator anyText value) }
  | .moduleName =>
      return { arguments with moduleName := some (← given dropsSeparator anyText value) }
  | .quote =>
      let cases := Quote.all.map fun quote => (quote.name, quote)
      return { arguments with quote := some (← given dropsSeparator (choose switch cases) value) }
  | _ => return arguments

end Arguments

namespace ArgumentState

/-- What letters that are attached to a short switch without a value come to. The only such switch
asks for help, and so must the letters. -/
def cluster (switch : Switch) (letters : String) : Refusal :=
  match letters.toList.dropWhile (· == 'h') with
  | [] => if letters.isEmpty then .misuse (.unwantedValue switch letters) else .helpWanted
  | rest => .misuse (.unwantedValue switch (String.ofList rest))

/-- Goes through what is left of the arguments. -/
def through (state : ArgumentState) (dropsSeparator : Bool) :
    List Token → Except Refusal ArgumentState
  | [] => .ok state
  | .plain text :: rest => (state.takePlain text).through dropsSeparator rest
  | .separator :: rest => state.takeSeparator.through dropsSeparator rest
  | .unknown text :: rest => (state.leave text).through dropsSeparator rest
  | .clustered switch letters :: _ => .error (cluster switch letters)
  | .named switch attached :: rest =>
      let state := state.endRun
      if switch.takesValue then
        match attached, rest with
        | some value, rest =>
            match state.arguments.assign dropsSeparator switch value with
            | .ok arguments => { state with arguments }.through dropsSeparator rest
            | .error found => .error (.misuse found)
        | none, .plain value :: rest =>
            match state.arguments.assign dropsSeparator switch value with
            | .ok arguments => { state with arguments }.through dropsSeparator rest
            | .error found => .error (.misuse found)
        | none, _ => .error (.misuse (.expectedValue switch))
      else
        match attached with
        | some value => .error (.misuse (.unwantedValue switch value))
        | none =>
            if switch == .help then .error .helpWanted
            else
              { state with arguments := state.arguments.turnOn switch }.through dropsSeparator rest

end ArgumentState

/-- Reads the arguments of the command line. -/
def Arguments.parse (arguments : List String) (dropsSeparator : Bool := false) :
    Except Refusal Arguments := do
  let tokens ← (Token.ofArguments arguments).mapError .misuse
  let state ← ArgumentState.through {} dropsSeparator tokens
  if state.leftOver.isEmpty then return state.arguments
  else throw (.misuse (.leftOver state.leftOver))

end Unqualify
