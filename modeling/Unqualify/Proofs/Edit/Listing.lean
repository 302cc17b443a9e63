import Unqualify.Proofs.Discovery
import Unqualify.Proofs.Edit.OneByOne
import Unqualify.Proofs.Frame

/-!
# The order in which edits are listed

Which conflict a pass meets is decided by the ranges of the edits alone
(`splice_eq_error_of_ranges`), and the ranges of the same edits are in order the same list
(`ranges_ordered_of_perm`). What the edits make of a text depends besides on the texts that are
inserted at one offset, one after the other. So edits can be listed in any order that keeps those
texts, and the result is the same, conflicts included (`applyAll_congr`).

The edits of a unit come from two sources, the imports and the references. A reference of an empty
range would be replaced by an empty text, so nothing that references insert can change places with
anything, and the two sources can be listed either way.
-/

set_option autoImplicit false

namespace Unqualify

namespace Edit

/-! ## Conflicts -/

/-- The offsets at which an edit starts and stops. -/
def range (edit : Edit) : Nat × Nat :=
  (edit.start, edit.stop)

/-- A pass fails at its first edit, because of the bounds or else of the cursor, or behind it. -/
theorem splice_cons_eq_error_iff {size cursor : Nat} {rest : Bytes} {edit : Edit}
    {edits : List Edit}
    {conflict : EditConflict} :
    splice size cursor rest (edit :: edits) = .error conflict ↔
      (edit.stop < edit.start ∨ size < edit.stop) ∧ conflict = .outOfBounds edit.start edit.stop ∨
        ¬ (edit.stop < edit.start ∨ size < edit.stop) ∧
          (edit.start < cursor ∧ conflict = .overlap edit.start cursor ∨
            ¬ edit.start < cursor ∧
              splice size edit.stop (rest.drop (edit.stop - cursor)) edits = .error conflict) := by
  rw [splice]
  by_cases outside : edit.stop < edit.start ∨ size < edit.stop
  · rw [if_pos (by simpa using outside)]
    simp only [outside, true_and, not_true_eq_false, false_and, or_false, Except.error.injEq]
    exact eq_comm
  rw [if_neg (by simpa using outside)]
  by_cases early : edit.start < cursor
  · rw [if_pos early]
    simp only [outside, early, false_and, false_or, not_false_eq_true, true_and, not_true_eq_false,
      or_false, Except.error.injEq]
    exact eq_comm
  rw [if_neg early]
  simp only [outside, early, false_and, false_or, not_false_eq_true, true_and]
  cases splice size edit.stop (rest.drop (edit.stop - cursor)) edits with
  | error found => exact Iff.rfl
  | ok after => constructor <;> (intro impossible; cases impossible)

/-- **Whether a pass fails, and with which conflict, is decided by the ranges of its edits.** -/
theorem splice_eq_error_of_ranges {size cursor : Nat} {edits others : List Edit}
    {rest rest' : Bytes}
    {conflict : EditConflict} (same : edits.map range = others.map range)
    (failed : splice size cursor rest edits = .error conflict) :
    splice size cursor rest' others = .error conflict := by
  induction edits generalizing others cursor rest rest' with
  | nil => exact nomatch failed
  | cons edit edits ih =>
      cases others with
      | nil => exact nomatch same
      | cons other others =>
          rw [List.map_cons, List.map_cons, List.cons.injEq, range, range, Prod.mk.injEq] at same
          obtain ⟨⟨starts, stops⟩, same⟩ := same
          rw [splice_cons_eq_error_iff] at failed ⊢
          rw [← starts, ← stops]
          rcases failed with outside | ⟨inside, overlaps | ⟨late, failed⟩⟩
          · exact .inl outside
          · exact .inr ⟨inside, .inl overlaps⟩
          · exact .inr ⟨inside, .inr ⟨late, ih same failed⟩⟩

/-- The ranges of the same edits are in order the same list. -/
theorem ranges_ordered_of_perm {edits listed : List Edit} (perm : listed.Perm edits) :
    (ordered listed).map range = (ordered edits).map range := by
  have ascending (edits : List Edit) : ((ordered edits).map range).Pairwise fun before after =>
      before.1 < after.1 ∨ before.1 = after.1 ∧ before.2 ≤ after.2 :=
    List.pairwise_map.mpr (sorts_ordered edits).ascending
  have listedToo := (ordered_perm listed).trans (perm.trans (ordered_perm edits).symm)
  refine List.Perm.eq_of_pairwise ?_ (ascending listed) (ascending edits) (listedToo.map range)
  intro a b _ _ before after
  exact Prod.ext (by omega) (by omega)

/-! ## Any order -/

/-- **Edits give the same result in every order in which the texts inserted at one offset are the
same.** -/
theorem applyAll_congr {edits listed : List Edit} (perm : listed.Perm edits)
    (inserted : ∀ offset, texts (listed.filter (insertsAt offset)) =
      texts (edits.filter (insertsAt offset)))
    (source : Bytes) : applyAll source listed = applyAll source edits := by
  cases result : applyAll source listed with
  | error conflict => exact (splice_eq_error_of_ranges (ranges_ordered_of_perm perm) result).symm
  | ok out =>
      have fits := fits_of_applyAll result
      have fitsToo : Fits source edits :=
        ⟨fun edit member => fits.inBounds edit (perm.mem_iff.mpr member),
          (perm.pairwise_iff Apart.symm).mp fits.apart⟩
      obtain ⟨out', success⟩ := exists_applyAll_eq_ok_iff.mpr fitsToo
      rw [success, eq_outcome_of_applyAll result, eq_outcome_of_applyAll success,
        outcome_congr perm fits.apart inserted]

/-- Two lists of edits can be applied either way round when one of them inserts nothing. -/
theorem applyAll_append_comm {edits others : List Edit}
    (nothing : ∀ edit ∈ others, edit.start = edit.stop → edit.text = "") (source : Bytes) :
    applyAll source (others ++ edits) = applyAll source (edits ++ others) := by
  refine applyAll_congr List.perm_append_comm (fun offset => ?_) source
  have none : texts (others.filter (insertsAt offset)) = [] := by
    apply List.flatMap_eq_nil_iff.mpr
    intro edit member
    obtain ⟨among, inserts⟩ := List.mem_filter.mp member
    rw [insertsAt, Bool.and_eq_true, beq_iff_eq, beq_iff_eq] at inserts
    rw [nothing edit among (inserts.1.trans inserts.2.symm)]
    rfl
  have apart (first second : List Edit) : texts ((first ++ second).filter (insertsAt offset)) =
      texts (first.filter (insertsAt offset)) ++ texts (second.filter (insertsAt offset)) := by
    rw [texts, List.filter_append, List.flatMap_append]
    rfl
  rw [apart, apart, none, List.nil_append, List.append_nil]

end Edit

/-- A reference that covers nothing names nothing: in a well-formed tree its member lies inside
it. -/
theorem Reference.member_eq_of_empty {source : Bytes} {root : Node}
    (wellFormed : root.WellFormed source) {language : Language} {namespaceName : String}
    {reference : Reference} (found : reference ∈ find source language namespaceName root)
    (empty : reference.node.start = reference.node.stop) : reference.member = "" := by
  obtain ⟨place, occurs, stands⟩ := exists_stands_of_mem_find found
  obtain ⟨_, back, parts, _, named⟩ := stands.exists_hasParts
  have inside := wellFormed.inParent _ occurs back parts.mem.2.1
  rw [stands.node_eq] at empty
  have none : back.bytes source = [] := by
    rw [Node.bytes, Bytes.slice, show back.stop - back.start = 0 by omega, List.take_zero]
  rw [← named, Node.text, none]
  rfl

/-- **Edits can be listed in any order.** Two listings of the same edits give the same text or the
same conflict when edits of one range come in the same order in both. In particular the edits of the
imports of a unit and those of its references can be listed either way round. -/
theorem Edit.applyAll_listed_anyhow :
    (∀ (source : Bytes) (edits listed : List Edit), Rearranges edits listed →
      applyAll source listed = applyAll source edits) ∧
    ∀ (source : Bytes) (root : Node) (language : Language) (options : Options) (members : MemberSet)
      (change : ImportChange), root.WellFormed source →
      ImportChange.plan source root members options = .ok change →
      let bare :=
        Reference.edits (Reference.find source language options.namespaceName root) members
      applyAll source (bare ++ change.edits) = applyAll source (change.edits ++ bare) := by
  constructor
  · intro source edits listed rearranges
    exact applyAll_congr rearranges.perm
      (fun offset => congrArg texts (rearranges.ties offset offset)) source
  · intro source root language options members change wellFormed _ bare
    refine applyAll_append_comm ?_ source
    intro edit member empty
    obtain ⟨reference, listed, rfl⟩ := List.mem_map.mp member
    exact Reference.member_eq_of_empty wellFormed (List.mem_filter.mp listed).1 empty

namespace Sample

/-- The edits of two lines in another order, in which the two insertions still follow each other. -/
def lineListing : List Edit :=
  [⟨0, 0, "a"⟩, ⟨0, 9, "x"⟩, ⟨0, 0, "b"⟩, ⟨9, 13, ""⟩]

theorem rearranges_lineListing : Edit.Rearranges lineEdits lineListing where
  perm := by decide
  ties start stop := by
    simp only [lineEdits, lineListing, List.filter_cons, List.filter_nil, Edit.hasRange]
    grind

end Sample

/-- Two listings of the same edits give the same text, and a unit becomes the same whether its
references or its imports are listed first. -/
theorem Edit.applyAll_listed_anyhow_lines :
    applyAll (Utf8.encode Sample.lineText) Sample.lineListing = .ok (Utf8.encode "abx\n") ∧
    ∃ change,
      ImportChange.plan Sample.hooksUnit.source Sample.hooksRoot
        (.ofReferences (Reference.find Sample.hooksUnit.source .tsx "React" Sample.hooksRoot)) {} =
          .ok change ∧
      applyAll Sample.hooksUnit.source
        (Reference.edits (Reference.find Sample.hooksUnit.source .tsx "React" Sample.hooksRoot)
            (.ofReferences
              (Reference.find Sample.hooksUnit.source .tsx "React" Sample.hooksRoot)) ++
          change.edits) = .ok (Utf8.encode Sample.hooksOutput) := by
  have listed :=
    applyAll_listed_anyhow.1 (Utf8.encode Sample.lineText) _ _ Sample.rearranges_lineListing
  refine ⟨listed.trans Sample.applyAll_lineEdits, ?_⟩
  refine ⟨_, ImportChange.plan_eq_ok_iff.mpr ⟨_, Sample.plan_hooks, rfl⟩, ?_⟩
  refine (applyAll_listed_anyhow.2 Sample.hooksUnit.source Sample.hooksRoot .tsx {} _ _
    Sample.wellFormed_hooks (ImportChange.plan_eq_ok_iff.mpr ⟨_, Sample.plan_hooks, rfl⟩)).trans ?_
  have bare := Reference.edits_ofReferences Sample.hooksUnit.source .tsx "React" Sample.hooksRoot
  exact (congrArg (fun replaced => applyAll Sample.hooksUnit.source (_ ++ replaced)) bare).trans
    Sample.applyAll_hooks

end Unqualify
