import Unqualify.Diff.Script
import Unqualify.Text.Line

/-!
# Unified diffs

A unified diff shows the changes of a script in hunks. Each hunk has up to three kept lines before,
between and after its changes, so a longer run of kept lines ends a hunk and a run of more than six
inside a script parts two of them.
-/

set_option autoImplicit false

namespace Unqualify.Diff

/-- The lines of the old list that a segment speaks of. -/
def Segment.oldLines : Segment → List String
  | .keep lines => lines
  | .change old _ => old

/-- The lines of the new list that a segment speaks of. -/
def Segment.newLines : Segment → List String
  | .keep lines => lines
  | .change _ new => new

/-- Segments that belong together, after so many lines of the old and of the new list. -/
structure Hunk where
  oldStart : Nat
  newStart : Nat
  body : List Segment := []
  deriving DecidableEq, Repr

namespace Hunk

/-- The number of lines of the old list in a hunk. -/
def oldCount (hunk : Hunk) : Nat :=
  (hunk.body.flatMap fun segment => segment.oldLines).length

/-- The number of lines of the new list in a hunk. -/
def newCount (hunk : Hunk) : Nat :=
  (hunk.body.flatMap fun segment => segment.newLines).length

/-- A hunk that goes on with a segment. -/
def push (hunk : Hunk) (segment : Segment) : Hunk :=
  { hunk with body := hunk.body ++ [segment] }

/-- An empty hunk that starts so many lines after the end of another. -/
def openAfter (hunk : Hunk) (skipped : Nat) : Hunk :=
  ⟨hunk.oldStart + hunk.oldCount + skipped, hunk.newStart + hunk.newCount + skipped, []⟩

end Hunk

/-- The kept lines that are shown on one side of a change. -/
def contextSize : Nat := 3

/-- Parts a script into hunks, where `current` is the hunk that is being filled. -/
def partFrom (current : Hunk) : List Segment → List Hunk
  | [] => if current.body.isEmpty then [] else [current]
  | .keep lines :: rest =>
      if 2 * contextSize < lines.length then
        let closed := current.push (.keep (lines.take contextSize))
        let next := closed.openAfter (lines.length - 2 * contextSize)
        closed :: partFrom (next.push (.keep (lines.drop (lines.length - contextSize)))) rest
      else partFrom (current.push (.keep lines)) rest
  | .change old new :: rest => partFrom (current.push (.change old new)) rest

/-- Shortens kept lines at the end of a script to the context of the last change. -/
def shortenEnd (script : List Segment) : List Segment :=
  match script.getLast? with
  | some (.keep lines) => script.dropLast ++ [.keep (lines.take contextSize)]
  | _ => script

/-- The hunks of a script. Kept lines at its start are shortened to the context of the first
change. -/
def hunks (script : List Segment) : List Hunk :=
  match script with
  | .keep lines :: rest =>
      let skipped := lines.length - contextSize
      partFrom ⟨skipped, skipped, []⟩ (shortenEnd (.keep (lines.drop skipped) :: rest))
  | _ => partFrom ⟨0, 0, []⟩ (shortenEnd script)

/-! ## As text -/

/-- A range of lines after `start` lines. A single line is given by its number alone, and no lines
by the number of the line before them. -/
def rangeText (start count : Nat) : String :=
  if count == 1 then toString (start + 1)
  else if count == 0 then toString start ++ ",0"
  else toString (start + 1) ++ "," ++ toString count

/-- The lines of a segment, each marked as kept, removed or added. -/
def Segment.marked : Segment → List String
  | .keep lines => lines.map (" " ++ ·)
  | .change old new => old.map ("-" ++ ·) ++ new.map ("+" ++ ·)

/-- The lines of a hunk, its ranges first. -/
def Hunk.marked (hunk : Hunk) : List String :=
  ("@@ -" ++ rangeText hunk.oldStart hunk.oldCount ++ " +" ++
    rangeText hunk.newStart hunk.newCount ++
    " @@") :: hunk.body.flatMap Segment.marked

/-- A line without a line feed at its end. -/
def closeLine (line : String) : String :=
  match line.toList.reverse with
  | '\n' :: rest => String.ofList rest.reverse
  | _ => line

/-- The unified diff of two texts of a file, and nothing when they are equal. -/
def unified (file before after : String) : String :=
  if before == after then ""
  else
    let header := ["--- a/" ++ file, "+++ b/" ++ file]
    let body := (hunks (script (Text.lines before) (Text.lines after))).flatMap Hunk.marked
    "\n".intercalate ((header ++ body).map closeLine)

end Unqualify.Diff
