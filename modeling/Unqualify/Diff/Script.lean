/-!
# Scripts from one list of lines to another

A script keeps runs of lines and changes what is between them. It is found by taking the longest run
of lines that both lists have, the earliest one when there are several, and going on with what is
before it and what is after it.

The run is looked for among anchor lines only, and then extended at both ends by whatever lines
agree. A line that a long list repeats often is no anchor: it says little about where it belongs.

The search only says where to look. What is kept is what `Run.around` finds to agree there, so a
script leads from the one list to the other wherever the search ends up.
-/

set_option autoImplicit false

namespace Unqualify.Diff

/-- A run of lines that two lists have at some distance from their starts. -/
structure Run where
  oldStart : Nat
  newStart : Nat
  size : Nat
  deriving DecidableEq, Repr

/-! ## The longest run of anchor lines -/

/-- A line of the old list with the places in the new list, from the first to the last, at which it
is an anchor. -/
structure Sighted where
  text : String
  places : List Nat
  deriving DecidableEq, Repr

/-- The runs that end at a line of the old list, each as the place of its end in the new list and
its length. The line is found at the given places, and `earlier` are the runs that end one line
before; both are in ascending order. -/
def runsEnding : List Nat → (earlier : List (Nat × Nat)) → List (Nat × Nat)
  | [], _ => []
  | place :: places, earlier =>
      let earlier := earlier.dropWhile fun run => run.1 + 1 < place
      let size :=
        match earlier with
        | (stop, size) :: _ => if stop + 1 == place then size + 1 else 1
        | [] => 1
      (place, size) :: runsEnding places earlier

/-- The longest of `best` and the runs that end at line `index` of the old list, the first when
there are several. -/
def longerRun (index : Nat) (best : Run) (runs : List (Nat × Nat)) : Run :=
  runs.foldl
    (fun best (place, size) =>
      if best.size < size then ⟨index + 1 - size, place + 1 - size, size⟩ else best)
    best

/-- The longest run of anchor lines that ends before place `stop` of the new list and starts at
place `start` or later, where `index` lines of the old list have been gone through. -/
def longestFrom (start stop index : Nat) (best : Run) (earlier : List (Nat × Nat)) :
    List Sighted → Run
  | [] => best
  | line :: rest =>
      let places := (line.places.dropWhile (· < start)).takeWhile (· < stop)
      let runs := runsEnding places earlier
      longestFrom start stop (index + 1) (longerRun index best runs) runs rest

/-! ## Runs of whatever lines agree -/

/-- How many lines two lists begin with in common. -/
def commonPrefix : List String → List String → Nat
  | a :: as, b :: bs => if a == b then commonPrefix as bs + 1 else 0
  | _, _ => 0

/-- The run of lines that agree around a place in the old list and a place in the new one: those
before the places, and those from the places on. -/
def Run.around (old new : List String) (oldPlace newPlace : Nat) : Run :=
  let before := commonPrefix (old.take oldPlace).reverse (new.take newPlace).reverse
  let after := commonPrefix (old.drop oldPlace) (new.drop newPlace)
  ⟨oldPlace - before, newPlace - before, before + after⟩

/-- The longest run of the lines of the old list and the lines of the new one that stand at `start`
and after; its size is zero when they do not even begin alike. -/
def longestRun (start : Nat) (old : List Sighted) (new : List String) : Run :=
  let found := longestFrom start (start + new.length) 0 ⟨0, start, 0⟩ [] old
  Run.around (old.map (·.text)) new found.oldStart (found.newStart - start)

/-! ## Scripts -/

/-- A part of a script. -/
inductive Segment where
  /-- Lines that both lists have. -/
  | keep (lines : List String)
  /-- Lines of the old list that give way to lines of the new one. -/
  | change (old new : List String)
  deriving DecidableEq, Repr

/-- The segments between the lines of the old list and the lines of the new one that stand at
`start` and after, with empty changes among them. -/
def segments (start : Nat) (old : List Sighted) (new : List String) : List Segment :=
  let run := longestRun start old new
  if _bounds : 0 < run.size ∧ run.oldStart + run.size ≤ old.length then
    segments start (old.take run.oldStart) (new.take run.newStart) ++
      .keep (((old.drop run.oldStart).take run.size).map (·.text)) ::
        segments (start + run.newStart + run.size) (old.drop (run.oldStart + run.size))
          (new.drop (run.newStart + run.size))
  else [.change (old.map (·.text)) new]
termination_by old.length
decreasing_by
  · simp only [run] at _bounds
    simp only [List.length_take]
    omega
  · simp only [run] at _bounds
    simp only [List.length_drop]
    omega

/-- Puts a segment in front of a script: an empty change is dropped, and kept lines that follow each
other are kept together. -/
def joinSegment (segment : Segment) (script : List Segment) : List Segment :=
  match segment, script with
  | .change [] [], _ => script
  | .keep lines, .keep more :: rest => .keep (lines ++ more) :: rest
  | _, _ => segment :: script

/-- Whether a line is an anchor in a list: in a list of two hundred lines or more, a line that makes
up more than one in a hundred of them is not. -/
def isAnchor (lines : List String) (line : String) : Bool :=
  lines.length < 200 || lines.count line ≤ lines.length / 100 + 1

/-- The places of a line in a list. -/
def placesOf (lines : List String) (line : String) : List Nat :=
  lines.zipIdx.filterMap fun (other, place) => if other == line then some place else none

/-- A line of the old list as it is seen in the new one. -/
def Sighted.of (new : List String) (line : String) : Sighted where
  text := line
  places := if isAnchor new line then placesOf new line else []

/-- The script from one list of lines to another, in which kept lines and changes alternate. -/
def script (old new : List String) : List Segment :=
  (segments 0 (old.map (Sighted.of new)) new).foldr joinSegment []

end Unqualify.Diff
