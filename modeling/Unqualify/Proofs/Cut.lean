import Unqualify.Proofs.Import.Position
import Unqualify.Proofs.SourceUnit

/-!
# Where the text of a unit is cut

Edits cut a text: the pieces in front of their ranges, between them and behind them stay, and the
new texts are put between the pieces. A property that two texts hand on to their concatenation holds
for the outcome as soon as it holds for the pieces and for the new texts (`of_applyAll`).

The text of a unit is cut where nodes of its tree start and end. The one exception is the end of a
deletion, which moves over the rest of a line. So a property of offsets holds wherever an edit
starts or ends when it holds for the nodes and is not lost on the rest of a line
(`cuts_of_mem_editsFor`).
-/

set_option autoImplicit false

namespace Unqualify

namespace Edit

/-! ## Pieces and new texts -/

section

variable {source : Bytes} {Begins Ends : Nat → Prop} (Holds : Bytes → Prop)

theorem slice_to_end (source : Bytes) (start : Nat) :
    source.slice start source.length = source.drop start := by
  rw [Bytes.slice, List.take_of_length_le]
  rw [List.length_drop]

/-- A pass over edits keeps a property of octets that holds for the new texts and for every piece
that begins where an edit ends and ends where an edit begins. -/
theorem of_splice (joins : ∀ first second, Holds first → Holds second → Holds (first ++ second))
    (pieces : ∀ start stop, Begins start → Ends stop → Holds (source.slice start stop))
    (ends : Ends source.length) {edits : List Edit}
    (each : ∀ edit ∈ edits,
      Ends edit.start ∧ Holds (Utf8.encode edit.text) ∧ Begins edit.stop)
    {cursor : Nat} (begins : Begins cursor) {out : Bytes}
    (success : splice source.length cursor (source.drop cursor) edits = .ok out) : Holds out := by
  induction edits generalizing cursor out with
  | nil =>
      have rest : source.drop cursor = out := Except.ok.inj success
      rw [← rest, ← slice_to_end]
      exact pieces cursor source.length begins ends
  | cons edit edits ih =>
      obtain ⟨_, _, after, rest, rfl⟩ := exists_splice_of_splice_cons success
      obtain ⟨endsHere, written, beginsAgain⟩ := each edit List.mem_cons_self
      have later : Holds after :=
        ih (fun other member => each other (List.mem_cons_of_mem _ member)) beginsAgain rest
      exact joins _ _ (joins _ _ (pieces cursor edit.start begins endsHere) written) later

/-- **What holds for the pieces of a text and for the new texts holds for the outcome of edits.** -/
theorem of_applyAll (joins : ∀ first second, Holds first → Holds second → Holds (first ++ second))
    (pieces : ∀ start stop, Begins start → Ends stop → Holds (source.slice start stop))
    (begins : Begins 0) (ends : Ends source.length) {edits : List Edit}
    (each : ∀ edit ∈ edits,
      Ends edit.start ∧ Holds (Utf8.encode edit.text) ∧ Begins edit.stop)
    {out : Bytes} (success : applyAll source edits = .ok out) : Holds out := by
  refine of_splice Holds joins pieces ends ?_ begins success
  intro edit member
  exact each edit ((ordered_perm edits).mem_iff.mp member)

end

end Edit

/-! ## The cuts of a unit -/

/-- Every node of a tree starts and ends at an offset of which `Cut` holds. -/
def Node.CutsAt (Cut : Nat → Prop) (root : Node) : Prop :=
  ∀ occurrence ∈ root.occurrences, Cut occurrence.node.start ∧ Cut occurrence.node.stop

section

variable {Cut : Nat → Prop} {root : Node} (cuts : root.CutsAt Cut)

include cuts

theorem Node.CutsAt.child {child : Node} (isChild : child ∈ root.children) :
    Cut child.start ∧ Cut child.stop :=
  cuts _ (child_mem_occurrences (root_mem_occurrences root) isChild)

/-- New imports are put at the end of the tree or where a child of the root starts. -/
theorem ImportPosition.cut_find (source : Bytes) : Cut (find source root) := by
  rcases search_eq source root.stop none none root.children with ended | ⟨node, seen, ended⟩
  · rw [find, ended]
    exact (cuts _ (Node.root_mem_occurrences root)).2
  · have isChild : node ∈ root.children := seen.resolve_left (Option.some_ne_none node).symm
    rw [find, ended]
    exact (cuts.child isChild).1

/-- **The edits of the imports start and end where nodes do**, up to the rest of a line. -/
theorem ImportChange.cuts_of_mem_editsOf {source : Bytes} {options : Options}
    {planned : List PlannedImport}
    (extended : ∀ stop, Cut stop → Cut (removalStop stop (source.drop stop)))
    {edit : Edit} (member : edit ∈ editsOf source root options planned) :
    Cut edit.start ∧ Cut edit.stop := by
  rcases mem_editsOf_cases member with ⟨starts, stops⟩ | ⟨declaration, removed, rfl⟩
  · have place := ImportPosition.cut_find cuts source
    rw [starts, stops]
    exact ⟨place, place⟩
  · obtain ⟨statement, isChild, _, rfl⟩ :=
      ImportDeclaration.exists_statement_of_mem_removedIn removed
    obtain ⟨starts, stops⟩ := cuts.child isChild
    exact ⟨starts, extended statement.stop stops⟩

/-- **References start and end where nodes do.** -/
theorem Reference.cuts_of_mem_find {source : Bytes} {language : Language} {namespaceName : String}
    {reference : Reference} (found : reference ∈ find source language namespaceName root) :
    Cut reference.bare.start ∧ Cut reference.bare.stop := by
  obtain ⟨occurrence, occurs, stands⟩ := exists_stands_of_mem_find found
  have here := cuts occurrence occurs
  rwa [← stands.node_eq] at here

end

/-- All edits of a unit start and end where nodes do, up to the rest of a line. -/
theorem SourceUnit.cuts_of_mem_editsFor {Cut : Nat → Prop} {unit : SourceUnit} {parser : Parser}
    (cuts : (unit.root parser).CutsAt Cut)
    (extended : ∀ stop, Cut stop → Cut (ImportChange.removalStop stop (unit.source.drop stop)))
    {options : Options} {planned : List PlannedImport} {edit : Edit}
    (member : edit ∈ unit.editsFor parser options planned) : Cut edit.start ∧ Cut edit.stop := by
  rcases List.mem_append.mp member with ofImports | replaced
  · exact ImportChange.cuts_of_mem_editsOf cuts extended ofImports
  · obtain ⟨reference, found, rfl⟩ := List.mem_map.mp replaced
    exact Reference.cuts_of_mem_find cuts found

end Unqualify
