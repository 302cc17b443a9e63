import Unqualify.FileSystem
import Unqualify.Report
import Unqualify.Settings

/-!
# Runs over files

A run takes paths. A path to a file is taken as it is; a path to a directory stands for the files
below it, except those reached through links, with a suffix that is not picked up, or with a name
that is left out on the way to them. What lies in a directory that cannot be listed is not found,
and no files are found at all when a walk meets something that it cannot look up, be it because of
the directory it is in or because its path has grown too long. Nothing but the length of paths
limits how deep a walk goes. Each path text is taken once, and the files are processed in the order
in which they were found.

The files of a run do not depend on each other: each is read, transformed and, if that changed it,
written, and a failure of one is a matter of its result alone. How many workers share the work makes
no difference to the outcome, so there is no trace of them here.
-/

set_option autoImplicit false

namespace Unqualify

/-! ## Files as units -/

/-- Why a language is not known. -/
inductive UnknownLanguage where
  | name (name : String)
  | suffix (suffix : String)
  deriving DecidableEq, Repr

/-- The wording of a failure to know a language. -/
def UnknownLanguage.message : UnknownLanguage → String
  | .name unknown => "Unsupported language: " ++ unknown
  | .suffix unknown => "Unsupported file extension: " ++ unknown

namespace Language

/-- The language of a name, or why there is none. -/
def named (name : String) : Except UnknownLanguage Language :=
  match ofName? name with
  | some language => .ok language
  | none => .error (.name name)

/-- The language of a file, or why there is none. -/
def ofFile (file : String) : Except UnknownLanguage Language :=
  let suffix := (Path.ofText file).suffix
  match ofSuffix? suffix with
  | some language => .ok language
  | none => .error (.suffix suffix)

end Language

/-- Why a file is not transformed. -/
inductive FileFailure where
  | notFound (file : String)
  | unknownLanguage (unknown : UnknownLanguage)
  | access (failure : AccessFailure)
  | undecodable (fault : Utf8.Fault)
  | unit (failure : UnitFailure)
  deriving DecidableEq, Repr

/-- The wording of a failure to transform a file. -/
def FileFailure.message : FileFailure → String
  | .notFound file => "File not found: " ++ file
  | .unknownLanguage unknown => unknown.message
  | .access failure => failure.message
  | .undecodable fault => fault.message
  | .unit failure => failure.message

/-- The content of a file as text. -/
def FileSystem.readText (files : FileSystem) (path : Path) : Except FileFailure String := do
  let octets ← (files.read path).mapError .access
  (Utf8.decode octets).mapError .undecodable

/-- The unit that a file holds. Its language is that of its suffix unless one is named, and a name
that is not known comes to light when the file has been read. -/
def FileSystem.unit (files : FileSystem) (file : String) (languageName : Option String) :
    Except FileFailure SourceUnit := do
  let path := Path.ofText file
  if !(← (files.contains path).mapError .access) then throw (.notFound file)
  match languageName with
  | some name =>
      let text ← files.readText path
      let language ← (Language.named name).mapError .unknownLanguage
      return { file, language, text }
  | none =>
      let language ← (Language.ofFile file).mapError .unknownLanguage
      let text ← files.readText path
      return { file, language, text }

/-! ## What happens during a run -/

/-- Something that happens while files are processed. -/
inductive Event where
  /-- The text of a unit goes to the parser. -/
  | parsing (unit : SourceUnit)
  /-- A unit has been surveyed. -/
  | surveyed (file : String) (values types references : Nat)
  /-- A file is left out because its language is not known. -/
  | skipped (file reason : String)
  /-- A file has failed. -/
  | failed (file reason : String)
  /-- The outcome of a file cannot be written. -/
  | writeFailed (file reason : String)
  /-- A file has been processed. -/
  | processed (file : String) (status : FileStatus)
  deriving DecidableEq, Repr

namespace Event

/-- The line of the log on an event: warnings always, details when asked for. -/
def line? (verbose : Bool) : Event → Option String
  | .parsing _ => none
  | .surveyed file values types references =>
      if verbose then
        some ("DEBUG react_named_imports.transform.pipeline: " ++ file ++ ": " ++ toString values ++
          " value members, " ++ toString types ++ " type members from " ++ toString references ++
          " references")
      else none
  | .skipped file reason =>
      if verbose then
        some ("DEBUG react_named_imports.runner.batch_runner: " ++ file ++ ": skipped (" ++
          reason ++ ")")
      else none
  | .failed file reason =>
      some ("WARNING react_named_imports.runner.batch_runner: " ++ file ++ ": " ++ reason)
  | .writeFailed file reason =>
      some ("WARNING react_named_imports.runner.batch_runner: " ++ file ++ ": write failed: " ++
        reason)
  | .processed file status =>
      if verbose then
        some ("DEBUG react_named_imports.runner.batch_runner: " ++ file ++ ": " ++ status.name)
      else none

/-- The log of events. -/
def log (verbose : Bool) (events : List Event) : String :=
  String.join ((events.filterMap (line? verbose)).map (· ++ "\n"))

end Event

/-- A result together with what happened on the way to it. -/
structure Traced (α : Type) where
  events : List Event
  result : α

/-- Transforms a unit and says what happens. -/
def SourceUnit.transformTraced (unit : SourceUnit) (parser : Parser) (options : Options) :
    Traced (Except UnitFailure Transformed) :=
  match unit.survey parser options with
  | .error failure => ⟨[.parsing unit], .error failure⟩
  | .ok survey =>
      ⟨[.parsing unit,
        .surveyed unit.file survey.members.values.length survey.members.types.length
          survey.references.length],
       survey.transform options⟩

/-- Transforms the unit that a file holds and says what happens. The file is not written. -/
def FileSystem.transform (files : FileSystem) (parser : Parser) (options : Options) (file : String)
    (languageName : Option String := none) : Traced (Except FileFailure Transformed) :=
  match files.unit file languageName with
  | .error failure => ⟨[], .error failure⟩
  | .ok unit =>
      let traced := unit.transformTraced parser options
      ⟨traced.events, traced.result.mapError .unit⟩

/-! ## Runs -/

/-- How files are found and processed. -/
structure Batch where
  options : Options := {}
  /-- The suffixes that are picked up below directories. -/
  extensions : List String
  /-- The names that are left out below directories. -/
  excluded : List String
  dryRun : Bool := false
  printOutput : Bool := false
  showDiff : Bool := false
  deriving DecidableEq, Repr

namespace Batch

/-- The given list, or the standard one when it is empty. -/
def orStandard (given standard : List String) : List String :=
  if given.isEmpty then standard else given

/-- A run with the given suffixes and names; an empty list stands for the standard one. -/
def make (options : Options) (extensions excluded : List String)
    (dryRun printOutput showDiff : Bool) : Batch :=
  let standard : Settings := {}
  { options, dryRun, printOutput, showDiff
    extensions := orStandard extensions standard.extensions
    excluded := orStandard excluded standard.excluded }

/-! ### Finding files -/

/-- Whether a run picks up the entry that lies `rest` below a directory. -/
def picks (batch : Batch) (rest : Location) : Entry → Bool
  | .file _ =>
      !(rest.any fun name => batch.excluded.contains name) &&
        batch.extensions.contains (Path.mk "" rest).suffix
  | _ => false

/-- The ways from a directory to the files below it that a run picks up, in order. -/
def waysBelow (batch : Batch) (files : FileSystem) (directory : Location) : List Location :=
  let picked := (files.met directory).filter fun way =>
    (files.entry? (directory ++ way)).any (batch.picks way)
  picked.mergeSort Path.precedes

/-- Why the files that paths stand for are not known. -/
inductive DiscoveryFailure where
  /-- There is nothing at a path. -/
  | notFound (path : String)
  | access (failure : AccessFailure)
  deriving DecidableEq, Repr

/-- The wording of a failure to find files. -/
def DiscoveryFailure.message : DiscoveryFailure → String
  | .notFound path => "Path not found: " ++ path
  | .access failure => failure.message

/-- The files that a path stands for. A walk of a directory looks up all that it comes to, wanted or
not, and fails when it cannot. -/
def filesAt (batch : Batch) (files : FileSystem) (text : String) :
    Except DiscoveryFailure (List String) :=
  let path := Path.ofText text
  match files.locate path with
  | .error obstacle =>
      if obstacle.isAbsence then .error (.notFound text)
      else .error (.access (obstacle.failure path.text))
  | .ok location =>
      match files.entry? location with
      | some (.file _) => .ok [path.text]
      | _ =>
          match files.walkFailure? path location with
          | some failure => .error (.access failure)
          | none => .ok ((batch.waysBelow files location).map fun rest => (path.below rest).text)

/-- The texts in order of first occurrence. -/
def firstSeen (texts : List String) : List String :=
  texts.foldl (fun seen text => if seen.contains text then seen else seen ++ [text]) []

/-- The files that paths stand for, or why the first path that stands for none does not. -/
def discover (batch : Batch) (files : FileSystem) (paths : List String) :
    Except DiscoveryFailure (List String) := do
  let found ← paths.mapM (batch.filesAt files)
  return firstSeen found.flatten

/-! ### Processing files -/

/-- The result of a file that was transformed, before it is written. -/
def resultOf (batch : Batch) (file : String) (transformed : Transformed) : FileResult where
  file := file
  status := if transformed.changed then .ok else .unmodified
  replaced := transformed.replaced
  values := transformed.members.values
  types := transformed.members.types
  output := if batch.printOutput then some transformed.output else none
  diff :=
    if batch.showDiff && transformed.changed then
      some (FileDiff.between file transformed.source transformed.output)
    else none

/-- A file system after a file has been processed, with the result of the file. -/
structure Processed where
  files : FileSystem
  result : FileResult
  deriving DecidableEq, Repr

/-- Writes the outcome of a file, unless nothing changed or nothing is to be written. -/
def store (batch : Batch) (files : FileSystem) (file : String) (transformed : Transformed) :
    Traced Processed :=
  let result := batch.resultOf file transformed
  if transformed.changed && !batch.dryRun then
    match files.write (Path.ofText file) (Utf8.encode transformed.output) with
    | .ok files => ⟨[.processed file result.status], ⟨files, result⟩⟩
    | .error failure =>
        ⟨[.writeFailed file failure.message],
         ⟨files, { result with
                   status := .error, error := some ("Failed to write: " ++ failure.message) }⟩⟩
  else ⟨[.processed file result.status], ⟨files, result⟩⟩

/-- Transforms a file and writes it. -/
def process (batch : Batch) (parser : Parser) (files : FileSystem) (file : String) :
    Traced Processed :=
  let traced := files.transform parser batch.options file
  match traced.result with
  | .ok transformed =>
      let stored := batch.store files file transformed
      ⟨traced.events ++ stored.events, stored.result⟩
  | .error (.unknownLanguage unknown) =>
      ⟨traced.events ++ [.skipped file unknown.message],
       ⟨files, { file, status := .skipped, error := some unknown.message }⟩⟩
  | .error failure =>
      ⟨traced.events ++ [.failed file failure.message],
       ⟨files, { file, status := .error, error := some failure.message }⟩⟩

/-- A file system after files have been processed, with their results. -/
structure Finished where
  files : FileSystem
  results : List FileResult := []
  deriving DecidableEq, Repr

/-- Processes files one after the other. -/
def processAll (batch : Batch) (parser : Parser) (files : FileSystem) :
    List String → Traced Finished
  | [] => ⟨[], ⟨files, []⟩⟩
  | file :: rest =>
      let first := batch.process parser files file
      let others := batch.processAll parser first.result.files rest
      ⟨first.events ++ others.events,
       ⟨others.result.files, first.result.result :: others.result.results⟩⟩

/-- Finds the files that paths stand for and processes them. -/
def run (batch : Batch) (parser : Parser) (files : FileSystem) (paths : List String) :
    Except DiscoveryFailure (Traced Finished) := do
  let found ← batch.discover files paths
  return batch.processAll parser files found

/-- The report on files that have been processed. -/
def report (batch : Batch) (finished : Finished) : Report where
  files := finished.results
  dryRun := batch.dryRun

end Batch

end Unqualify
