import Unqualify.Diff.Unified
import Unqualify.SourceUnit
import Unqualify.Value

/-!
# Reports

What became of each file of a run, and the texts that say so. A run ends with exit code 0, or with 2
when some file failed.
-/

set_option autoImplicit false

namespace Unqualify

/-- What became of a file. -/
inductive FileStatus where
  /-- It was changed. -/
  | ok
  /-- There was nothing to change. -/
  | unmodified
  /-- Its suffix stands for no language. -/
  | skipped
  /-- It failed, and nothing was written. -/
  | error
  deriving DecidableEq, Repr

namespace FileStatus

/-- Every status, in the order in which choices and counts are listed. -/
def all : List FileStatus := [.ok, .unmodified, .skipped, .error]

/-- The name a status goes by. -/
def name : FileStatus → String
  | .ok => "ok"
  | .unmodified => "unmodified"
  | .skipped => "skipped"
  | .error => "error"

end FileStatus

/-- The change of a file. -/
structure FileDiff where
  file : String
  before : String
  after : String
  text : String
  deriving DecidableEq, Repr

/-- The change of a file from one text to another. -/
def FileDiff.between (file before after : String) : FileDiff :=
  ⟨file, before, after, Diff.unified file before after⟩

/-- What became of one file, with what is known of it. -/
structure FileResult where
  file : String
  status : FileStatus
  error : Option String := none
  /-- The number of references that were replaced. -/
  replaced : Int := 0
  values : List String := []
  types : List String := []
  /-- The outcome, when the run is to show it. -/
  output : Option String := none
  /-- The change, when the run is to show it. -/
  diff : Option FileDiff := none
  deriving DecidableEq, Repr

/-- What became of the files of a run, in the order in which they were found. -/
structure Report where
  files : List FileResult := []
  dryRun : Bool := false
  deriving DecidableEq, Repr

namespace Report

/-- The number of files with a status. -/
def count (report : Report) (status : FileStatus) : Nat :=
  report.files.countP fun result => result.status == status

/-- Whether some file failed. -/
def hasErrors (report : Report) : Bool :=
  0 < report.count .error

/-- The exit code of a run. -/
def exitCode (report : Report) : Nat :=
  if report.hasErrors then 2 else 0

/-- The number of files with each status. -/
def summary (report : Report) : List (FileStatus × Nat) :=
  FileStatus.all.map fun status => (status, report.count status)

/-! ## For programs -/

/-- A list of texts as a value. -/
def textsValue (texts : List String) : Value :=
  .list (texts.map .text)

/-- The change of a file as a value. -/
def diffValue (diff : FileDiff) : Value :=
  .record
    [("file_path", .text diff.file), ("original_content", .text diff.before),
     ("modified_content", .text diff.after), ("diff_text", .text diff.text)]

/-- What became of a file as a value. -/
def resultValue (result : FileResult) : Value :=
  .record
    [("file_path", .text result.file), ("status", .text result.status.name),
     ("error", .ofText? result.error), ("rewritten", .int result.replaced),
     ("value_members", textsValue result.values), ("type_members", textsValue result.types),
     ("output", .ofText? result.output), ("diff", (result.diff.map diffValue).getD .null)]

/-- The summary as a value. -/
def summaryValue (report : Report) : Value :=
  .record (report.summary.map fun (status, count) => (status.name, .int count))

/-- A report as JSON text, with the times of its start and its end. -/
def json (report : Report) (startedAt : String) (finishedAt : Option String) : String :=
  Value.render (.record
    [("summary", report.summaryValue), ("files", .list (report.files.map resultValue)),
     ("dry_run", .bool report.dryRun), ("started_at", .text startedAt),
     ("finished_at", .ofText? finishedAt)])

/-! ## For readers -/

/-- The mark in front of a file that did not fail. -/
def mark : FileStatus → String
  | .ok => "OK  "
  | .unmodified => "NOC "
  | .skipped => "SKIP"
  | .error => "ERR "

/-- The lines on files that failed. -/
def failureText (report : Report) : String :=
  String.join ((report.files.filter fun result => result.status == .error).map fun result =>
    mark .error ++ " " ++ result.file ++ ": " ++ result.error.getD "None" ++ "\n")

/-- The lines on files that did not fail; unless asked for all, only those that were changed. -/
def successText (report : Report) (verbose : Bool) : String :=
  String.join ((report.files.filter fun result =>
    result.status == .ok || (verbose && result.status != .error)).map fun result =>
      mark result.status ++ " " ++ result.file ++ "\n")

/-- The line with the counts. -/
def countsText (report : Report) : String :=
  "Results" ++ (if report.dryRun then " (dry run)" else "") ++ ": " ++
    toString (report.count .error) ++ " errors, " ++ toString (report.count .unmodified) ++
    " unmodified, " ++ toString (report.count .skipped) ++ " skipped, " ++
    toString (report.count .ok) ++ " ok\n"

/-- A text with a line feed at its end, put there if it has none. -/
def closed (text : String) : String :=
  if text.toList.getLast? == some '\n' then text else text ++ "\n"

/-- The change and the outcome of a file, as far as the run is to show them. -/
def shownText (result : FileResult) : String :=
  let diff :=
    match result.diff with
    | some diff => if diff.text == "" then "" else diff.text ++ "\n"
    | none => ""
  let output :=
    match result.output with
    | some output => closed output
    | none => ""
  diff ++ output

end Report

end Unqualify
