import Std.Time
import Unqualify.Program
import Unqualify.Syntax.Outline.Reading

/-!
# The command

Gathers what a call is given, runs the program on it, and carries out what it leaves behind.

What stands below directories is listed in the file `unqualify.files`, one path on a line; a file
that is named on the command line need not be listed.
Syntax trees come from outside: the tree of a file is read from the outline beside it, under the
name of the file with `.outline` after it, and the tree of the standard input from `stdin.outline`.
A unit without an outline counts as faulty from its start. Edited texts are taken on trust, because
nothing here can parse them again.
-/

set_option autoImplicit false

namespace Unqualify.Main

/-- The file that lists what stands below directories. -/
def listing : String := "unqualify.files"

/-- The file that holds the outline of a unit. -/
def outlineOf (file : String) : String :=
  (if file == Program.standardInputName then "stdin" else file) ++ ".outline"

/-- Puts the file at a path, if it can be read, into a file system. -/
def gather (files : FileSystem) (file : String) : IO FileSystem := do
  match ← (IO.FS.readBinFile file).toBaseIO with
  | .ok content => return files.put (Path.ofText file) (.file content.toList)
  | .error _ => return files

/-- The files that a call with the given paths may look at. -/
def gatherAll (paths : List String) : IO FileSystem := do
  let here := Path.ofText (← IO.currentDir).toString
  let listed ←
    match ← (IO.FS.readBinFile listing).toBaseIO with
    | .ok content => pure (Text.lines (Utf8.decodeOrEmpty content.toList))
    | .error _ => pure []
  let sources := paths ++ listed.map Text.trimEnd
  let outlines := (Program.standardInputName :: sources).map outlineOf
  (sources ++ outlines).foldlM gather (.startingAt here.parts)

/-- The variables of the environment that settings are read from. -/
def environment : IO Environment := do
  let values ← Environment.names.mapM fun name => do
    return (Environment.namePrefix ++ name, ← IO.getEnv (Environment.namePrefix ++ name))
  return fun name => (values.lookup name).join

/-- The tree of a unit without an outline. -/
def faultyTree : Node :=
  .mk { kind := "ERROR", start := 0, stop := 0, faulty := true } []

/-- The parser that finds the outlines of units among files. -/
def outlineParser (files : FileSystem) : Parser := fun file _ _ =>
  let octets := (files.read (Path.ofText (outlineOf file))).toOption
  let root := octets.bind fun octets => Outline.ofText? (Utf8.decodeOrEmpty octets)
  ⟨root.getD faultyTree, fun _ => true⟩

/-- The present time as reports write it. -/
def now : IO String := do
  return (← Std.Time.PlainDateTime.now).format "uuuu-MM-dd'T'HH:mm:ss.SSSSSS"

/-- The rest of a stream. -/
partial def readRest (stream : IO.FS.Stream) (read : ByteArray) : IO Bytes := do
  let part ← stream.read 65536
  if part.isEmpty then return read.toList else readRest stream (read ++ part)

/-- Runs the program with the given arguments. -/
def call (arguments : List String) : IO (Call × Outcome) := do
  let startedAt ← now
  let understood := (Arguments.parse arguments).toOption
  let files ← gatherAll ((understood.map (·.paths)).getD [])
  let standardInput ←
    if understood.any (·.stdin) then readRest (← IO.getStdin) .empty else pure []
  let given : Call :=
    { arguments, files, standardInput, startedAt
      environment := ← environment
      finishedAt := ← now }
  return (given, Program.run (outlineParser files) given)

/-- Writes the files that an outcome changed. -/
def writeChanges (before after : FileSystem) : IO Unit :=
  (before.changes after).forM fun (location, content) =>
    IO.FS.writeBinFile ("/" ++ "/".intercalate location) ⟨content.toArray⟩

end Unqualify.Main

/-- The command: the exit code is that of the outcome. -/
def main (arguments : List String) : IO UInt32 := do
  let (given, outcome) ← Unqualify.Main.call arguments
  Unqualify.Main.writeChanges given.files outcome.files
  IO.print outcome.output
  IO.eprint outcome.errors
  return UInt32.ofNat outcome.exitCode
