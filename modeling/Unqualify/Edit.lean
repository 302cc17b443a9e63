import Unqualify.Text.Utf8

/-!
# Edits

An edit replaces a range of octets of a text by another text; an empty range inserts. Edits of one
text are ordered by their ranges, where edits of the same range keep their order, and spliced in one
pass from the front. The pass fails at the first edit whose range does not lie in the text or starts
before the end of the edit spliced last.
-/

set_option autoImplicit false

namespace Unqualify

/-- A replacement of the octets from `start` up to `stop`. -/
structure Edit where
  start : Nat
  stop : Nat
  text : String
  deriving DecidableEq, Repr

/-- Why edits do not apply. -/
inductive EditConflict where
  /-- The range is not one of the text. -/
  | outOfBounds (start stop : Nat)
  /-- The range starts before the end of the edit before it. -/
  | overlap (start previousStop : Nat)
  deriving DecidableEq, Repr

/-- The wording of a conflict. -/
def EditConflict.message : EditConflict → String
  | .outOfBounds start stop =>
      "Edit out of bounds: " ++ toString start ++ ".." ++ toString stop
  | .overlap start previousStop =>
      "Overlapping edits at byte " ++ toString start ++ " (previous edit ends at " ++
        toString previousStop ++ ")"

namespace Edit

/-- Whether an edit comes no later than another: by start, then by stop. -/
def precedes (a b : Edit) : Bool :=
  a.start < b.start || (a.start == b.start && a.stop ≤ b.stop)

/-- The edits by range; edits of one range keep their order. -/
def ordered (edits : List Edit) : List Edit :=
  edits.mergeSort precedes

/-- Splices ordered edits into the octets `rest` that start at offset `cursor` of a text of `size`
octets. -/
def splice (size : Nat) : (cursor : Nat) → (rest : Bytes) → List Edit → Except EditConflict Bytes
  | _, rest, [] => .ok rest
  | cursor, rest, edit :: edits =>
      if edit.stop < edit.start || size < edit.stop then
        .error (.outOfBounds edit.start edit.stop)
      else if edit.start < cursor then
        .error (.overlap edit.start cursor)
      else
        (splice size edit.stop (rest.drop (edit.stop - cursor)) edits).map fun spliced =>
          rest.take (edit.start - cursor) ++ Utf8.encode edit.text ++ spliced

/-- The text with all edits applied. -/
def applyAll (source : Bytes) (edits : List Edit) : Except EditConflict Bytes :=
  splice source.length 0 source (ordered edits)

end Edit

end Unqualify
