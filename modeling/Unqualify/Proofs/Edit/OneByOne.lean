import Mathlib.Algebra.BigOperators.Group.List.Basic
import Mathlib.Algebra.Ring.Int.Defs
import Unqualify.Proofs.Edit

/-!
# Edits one at a time

An edit by itself replaces a slice of a text. Several edits can be made one after the other when the
last range goes first: a replacement moves only what lies behind it, so that the other ranges still
hold. One pass over the edits from the front gives the same text (`foldr_replaceIn_of_splice`), and
every edit makes the text longer by the octets it brings less those it takes (`length_of_splice`).

Together with the exact condition under which edits fit, this says what applying edits does
(`applyAll_exact`).
-/

set_option autoImplicit false

namespace Unqualify.Edit

/-! ## Listings of the same edits -/

/-- Whether an edit has a range. -/
def hasRange (start stop : Nat) (edit : Edit) : Bool :=
  edit.start == start && edit.stop == stop

/-- The same edits, listed so that edits of one range keep their order. -/
structure Rearranges (edits listed : List Edit) : Prop where
  perm : listed.Perm edits
  ties : ∀ start stop, listed.filter (hasRange start stop) = edits.filter (hasRange start stop)

/-- The same edits by start and then by stop, where edits of one range keep their order. -/
structure Sorts (edits sorted : List Edit) : Prop extends Rearranges edits sorted where
  ascending : sorted.Pairwise fun before after =>
    before.start < after.start ∨ before.start = after.start ∧ before.stop ≤ after.stop

theorem sorts_ordered (edits : List Edit) : Sorts edits (ordered edits) where
  perm := ordered_perm edits
  ties start stop := by
    apply filter_ordered
    intro a b hA hB
    simp only [hasRange, Bool.and_eq_true, beq_iff_eq] at hA hB
    exact precedes_iff.mpr (.inr (by omega))
  ascending := by
    have sorted : (ordered edits).Pairwise fun a b => precedes a b = true :=
      List.pairwise_mergeSort precedes_trans precedes_total edits
    exact sorted.imp precedes_iff.mp

/-! ## Replacing slices -/

/-- A text whose octets in the range of an edit are replaced, whatever else there is. -/
def replaceIn (edit : Edit) (text : Bytes) : Bytes :=
  text.take edit.start ++ Utf8.encode edit.text ++ text.drop edit.stop

/-- By how much an edit makes a text longer. -/
def growth (edit : Edit) : Int :=
  (Utf8.encode edit.text).length - ((edit.stop : Int) - edit.start)

section Pass

variable {source : Bytes} {cursor : Nat} {edits : List Edit} {out : Bytes}

/-- **A pass gives what the replacements give one at a time, the last one first.** They leave the
octets before the cursor as they are. -/
theorem foldr_replaceIn_of_splice
    (success : splice source.length cursor (source.drop cursor) edits = .ok out) :
    edits.foldr replaceIn source = source.take cursor ++ out := by
  induction edits generalizing cursor out with
  | nil =>
      have rest : source.drop cursor = out := Except.ok.inj success
      rw [← rest, List.take_append_drop]
      rfl
  | cons edit edits ih =>
      obtain ⟨inBounds, behind, after, rest, rfl⟩ := exists_splice_of_splice_cons success
      have ends : (source.take edit.stop).length = edit.stop := List.length_take_of_le inBounds.2
      have front : (source.take edit.stop ++ after).take edit.start = source.take edit.start := by
        rw [List.take_append_of_le_length (by rw [ends]; exact inBounds.1), List.take_take,
          Nat.min_eq_left inBounds.1]
      have back : (source.take edit.stop ++ after).drop edit.stop = after := List.drop_left' ends
      -- The octets before the cursor and those from there up to the edit come before it together.
      have joined : source.take cursor ++ (source.drop cursor).take (edit.start - cursor) =
          source.take edit.start := by
        rw [← List.take_add, Nat.add_sub_cancel' behind]
      rw [List.foldr_cons, ih rest, replaceIn, front, back, ← joined]
      simp only [List.append_assoc]

/-- The length of the octets that a pass gives. -/
theorem length_of_splice (inside : cursor ≤ source.length)
    (success : splice source.length cursor (source.drop cursor) edits = .ok out) :
    (out.length : Int) = source.length - cursor + (edits.map growth).sum := by
  induction edits generalizing cursor out with
  | nil =>
      have rest : source.drop cursor = out := Except.ok.inj success
      rw [← rest, List.length_drop, List.map_nil, List.sum_nil]
      omega
  | cons edit edits ih =>
      obtain ⟨inBounds, behind, after, rest, rfl⟩ := exists_splice_of_splice_cons success
      have copied :
          ((source.drop cursor).take (edit.start - cursor)).length = edit.start - cursor := by
        rw [List.length_take, List.length_drop]
        omega
      have later := ih inBounds.2 rest
      rw [List.length_append, List.length_append, copied, List.map_cons, List.sum_cons, growth]
      omega

end Pass

/-! ## Applying edits -/

/-- What a text is when edits have been applied to it. -/
structure Applied (source : Bytes) (edits : List Edit) (out : Bytes) : Prop where
  /-- It is made by replacing slices one at a time, the last range first. -/
  oneByOne : ∃ sorted, Sorts edits sorted ∧ out = sorted.foldr replaceIn source
  /-- Every edit makes it longer by what it brings less what it takes. -/
  length_eq : (out.length : Int) = source.length + (edits.map growth).sum
  /-- At every offset come the insertions in their order and then the text for the range that begins
  there. -/
  insertedFirst : ∀ offset ≤ source.length,
    out = madeOf source edits 0 offset ++
      (texts (edits.filter (insertsAt offset)) ++ texts (edits.filter (replacesFrom offset))) ++
      (keptAt source edits offset ++ madeOf source edits (offset + 1) (source.length + 1))

theorem applied_of_applyAll {source out : Bytes} {edits : List Edit}
    (success : applyAll source edits = .ok out) : Applied source edits out where
  oneByOne := by
    have whole : (ordered edits).foldr replaceIn source = source.take 0 ++ out :=
      foldr_replaceIn_of_splice success
    exact ⟨ordered edits, sorts_ordered edits, whole.symm⟩
  length_eq := by
    have grown := length_of_splice (Nat.zero_le _) success
    have same := ((ordered_perm edits).map growth).sum_eq
    omega
  insertedFirst offset inside := by
    have made : out = madeOf source edits 0 (source.length + 1) := by
      have whole := applyAll_eq_ok_of_fits (fits_of_applyAll success)
      exact Except.ok.inj (success.symm.trans whole)
    rw [made, madeOf_split (Nat.zero_le offset) (by omega),
      madeOf_split (Nat.le_succ offset) (by omega), madeOf_succ, outcomeAt, newAt]
    simp only [List.append_assoc]

/-- **What applying edits does.** It succeeds exactly when every range lies in the text and no two
of them overlap, and otherwise it reports a conflict. On success the text is made by replacing
slices one at a time from the last to the first, its length follows from the edits, and insertions
at an offset come in their order before the text for a range that begins there. -/
theorem applyAll_exact (source : Bytes) (edits : List Edit) :
    ((∃ out, applyAll source edits = .ok out) ↔ Fits source edits) ∧
      ((∃ conflict, applyAll source edits = .error conflict) ↔ ¬ Fits source edits) ∧
      ∀ out, applyAll source edits = .ok out → Applied source edits out :=
  ⟨exists_applyAll_eq_ok_iff, exists_applyAll_eq_error_iff, fun _ => applied_of_applyAll⟩

end Unqualify.Edit

namespace Unqualify

namespace Sample

def lineText : String :=
  "old line\nrest\n"

/-- Edits of a text of two lines, not in order: a deletion, a range in front of it, and two
insertions in front of that. -/
def lineEdits : List Edit :=
  [⟨9, 13, ""⟩, ⟨0, 9, "x"⟩, ⟨0, 0, "a"⟩, ⟨0, 0, "b"⟩]

theorem fits_lineEdits : Edit.Fits (Utf8.encode lineText) lineEdits where
  inBounds := by decide +kernel
  apart := by
    unfold Edit.Apart
    decide +kernel

theorem applyAll_lineEdits :
    Edit.applyAll (Utf8.encode lineText) lineEdits = .ok (Utf8.encode "abx\n") := by
  rw [Edit.applyAll_eq_ok_of_fits fits_lineEdits]
  exact congrArg Except.ok (by decide +kernel)

end Sample

/-- The insertions come first, in their order, and then the text for the range that begins there. -/
theorem Edit.applyAll_exact_lines :
    applyAll (Utf8.encode Sample.lineText) Sample.lineEdits = .ok (Utf8.encode "abx\n") ∧
      Applied (Utf8.encode Sample.lineText) Sample.lineEdits (Utf8.encode "abx\n") :=
  ⟨Sample.applyAll_lineEdits, (applyAll_exact _ _).2.2 _ Sample.applyAll_lineEdits⟩

end Unqualify
