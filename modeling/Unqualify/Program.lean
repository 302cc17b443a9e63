import Unqualify.Batch
import Unqualify.CommandLine.Arguments
import Unqualify.CommandLine.Usage

/-!
# The program

One call of the program, as a function from what the call is given to what it leaves behind: an exit
code, the two output texts and the file system.

The exit code is 0 after a call that did its work; 1 when the settings are refused, no path is given
or a path has nothing at it; 2 when some file or the unit on the standard input failed, or the
arguments are misused; 5 after anything else that went wrong, and 130 after an interruption.
-/

set_option autoImplicit false

namespace Unqualify

namespace Settings

/-- The value that a field gets from a switch, or else the one it has. A switch with no value leaves
the field without a value of its type. -/
def field {α : Type} (name : String) (wrong : Wrong) (given : Option (Given α)) (held : α) :
    Checked α :=
  match given with
  | none => .ok held
  | some (.value value) => .ok value
  | some .nothing => Checked.within (.field name) (.refuse wrong (.list []))

/-- The number of workers that a switch asks for, or else the one there is. -/
def workersField (given : Option (Given Int)) (held : Nat) : Checked Nat := do
  let workers ← field "workers" .notInteger given held
  if workers < 1 then Checked.within (.field "workers") (.refuse (.below 1) (.int workers))
  else return workers.toNat

/-- The names that are left out, from a position in their list on. -/
def excludedField (position : Nat) : List (Given String) → Checked (List String)
  | [] => .ok []
  | given :: rest =>
      let name : Checked String :=
        match given with
        | .value name => .ok name
        | .nothing =>
            Checked.within (.field "exclude_patterns")
              (Checked.within (.index position) (.refuse .notText (.list [])))
      (name.and (excludedField (position + 1) rest)).map fun (first, others) => first :: others

/-- Settings with the flags that are given put over them. -/
def overlay (settings : Settings) (arguments : Arguments) : Checked Settings :=
  let extensions :=
    match (arguments.extensions.bind Given.value?).filter (· != "") with
    | some text => dottedAll (Text.commaList text)
    | none => settings.extensions
  ((field "namespace" .notText arguments.namespaceName settings.namespaceName).and
    ((field "module" .notText arguments.moduleName settings.moduleName).and
      ((field "quote" (.notAmong (Quote.all.map Quote.name))
          (arguments.quote.map fun given => given.map some) settings.quote).and
        ((workersField arguments.workers settings.workers).and
          (excludedField settings.excluded.length arguments.ignored))))).map
    fun (namespaceName, moduleName, quote, workers, ignored) =>
      { namespaceName, moduleName, quote, workers, extensions
        semicolons := arguments.semicolons.or settings.semicolons
        excluded := settings.excluded ++ ignored }

/-- The settings of a call. -/
def resolve (environment : Environment) (arguments : Arguments) :
    Except SettingsFailure Settings := do
  ((← Settings.load environment).overlay arguments).mapError .refused

end Settings

/-- Something from outside that ends a run. -/
inductive Disruption where
  | interrupted
  /-- The run itself gives up. -/
  | stopped (message : String)
  /-- Something that a run does not expect. -/
  | unexpected (message : String)
  deriving DecidableEq, Repr

/-- What a call of the program is given. -/
structure Call where
  arguments : List String
  environment : Environment := fun _ => none
  standardInput : Bytes := []
  files : FileSystem := {}
  startedAt : String := ""
  finishedAt : String := ""
  disruption : Option Disruption := none
  /-- Whether the arguments are read by a reader that takes a `--` attached to a switch away. -/
  dropsSeparator : Bool := false

/-- What a call of the program leaves behind. -/
structure Outcome where
  exitCode : Nat
  output : String := ""
  /-- The text on the standard error output. -/
  errors : String := ""
  /-- Whether a trace of the calls that led to an error follows the errors. -/
  backtrace : Bool := false
  files : FileSystem
  events : List Event := []
  deriving DecidableEq, Repr

namespace Program

/-- The outcome of a call that ends with an error. -/
def fail (call : Call) (arguments : Arguments) (exitCode : Nat) (label message : String)
    (events : List Event := []) : Outcome where
  exitCode := exitCode
  errors := Event.log arguments.verbose events ++ label ++ ": " ++ message ++ "\n"
  backtrace := arguments.verbose
  files := call.files
  events := events

/-- The outcome of a call that ends with a plain line of complaint. -/
def complain (call : Call) (exitCode : Nat) (line : String) : Outcome where
  exitCode := exitCode
  errors := line ++ "\n"
  files := call.files

/-- The name by which the unit on the standard input is reported. -/
def standardInputName : String := "<stdin>"

/-- Transforms the unit on the standard input. Without a language there is no parser for it, which
comes to light when it has been read. -/
def transformInput (parser : Parser) (call : Call) (arguments : Arguments) (options : Options) :
    Outcome :=
  match Utf8.decode call.standardInput with
  | .error fault => fail call arguments 5 "Unexpected error" fault.message
  | .ok text =>
      match arguments.stdinLanguage with
      | .nothing => fail call arguments 5 "Unexpected error" "unhashable type: 'list'"
      | .value language =>
          let unit : SourceUnit := { file := standardInputName, language, text }
          let traced := unit.transformTraced parser options
          match traced.result with
          | .error (.undecodable fault) =>
              fail call arguments 5 "Unexpected error" fault.message traced.events
          | .error failure => fail call arguments 2 "Transform error" failure.message traced.events
          | .ok transformed =>
              { exitCode := 0
                output := transformed.output
                errors := Event.log arguments.verbose traced.events
                files := call.files
                events := traced.events }

/-- The outcome of a run that went through its files. -/
def conclude (call : Call) (arguments : Arguments) (batch : Batch)
    (traced : Traced Batch.Finished) :
    Outcome :=
  let report := batch.report traced.result
  let log := Event.log arguments.verbose traced.events
  { exitCode := report.exitCode
    output :=
      if arguments.outputJson then
        report.json call.startedAt (some call.finishedAt) ++ "\n"
      else
        String.join (report.files.map Report.shownText) ++ report.successText arguments.verbose ++
          report.countsText
    errors := if arguments.outputJson then log else log ++ report.failureText
    files := traced.result.files
    events := traced.events }

/-- Runs over the files at the given paths. -/
def runBatch (parser : Parser) (call : Call) (arguments : Arguments) (settings : Settings) :
    Outcome :=
  let batch :=
    Batch.make settings.toOptions settings.extensions settings.excluded arguments.dryRun
      arguments.printOutput arguments.diff
  match call.disruption with
  | some .interrupted => complain call 130 "\nInterrupted."
  | some (.stopped message) => fail call arguments 1 "Runner error" message
  | some (.unexpected message) => fail call arguments 5 "Unexpected error" message
  | none =>
      match batch.run parser call.files arguments.paths with
      | .error (.notFound path) =>
          fail call arguments 1 "Runner error" (Batch.DiscoveryFailure.notFound path).message
      | .error (.access failure) => fail call arguments 5 "Unexpected error" failure.message
      | .ok traced => conclude call arguments batch traced

/-- Acts on arguments. -/
def act (parser : Parser) (call : Call) (arguments : Arguments) : Outcome :=
  match Settings.resolve call.environment arguments with
  | .error failure => fail call arguments 1 "Invalid configuration" failure.message
  | .ok settings =>
      if arguments.stdin then transformInput parser call arguments settings.toOptions
      else if arguments.paths.isEmpty then
        complain call 1 "Error: no paths given (or use --stdin)."
      else
        match call.files.firstMissing? arguments.paths with
        | .error failure => fail call arguments 5 "Unexpected error" failure.message
        | .ok (some path) => complain call 1 ("Error: '" ++ path ++ "' does not exist.")
        | .ok none => runBatch parser call arguments settings

/-- One call of the program. -/
def run (parser : Parser) (call : Call) : Outcome :=
  match Arguments.parse call.arguments call.dropsSeparator with
  | .error .helpWanted => { exitCode := 0, output := Usage.help, files := call.files }
  | .error (.misuse found) =>
      { exitCode := 2
        errors := Usage.summary ++ Usage.complaint found.message ++ "\n"
        files := call.files }
  | .ok arguments => act parser call arguments

end Program

end Unqualify
