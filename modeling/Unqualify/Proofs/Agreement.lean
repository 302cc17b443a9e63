import Unqualify.Proofs.Frame

/-!
# Collecting and replacing agree

References are classified when they are found, and each kind is checked once more when its edits are
made. The two never disagree: every reference that is found is replaced, in order, where it stands
and by the name of its member.

So a unit has no edits exactly when it has no references and no import of the namespace, and it is
then left as it is. In every other case the counts that a transform reports are those of the
references and of the removed statements (`references_replaced_and_counted`).
-/

set_option autoImplicit false

namespace Unqualify.SourceUnit

variable {unit : SourceUnit} {parser : Parser} {options : Options}

/-- Without references and without imports of the namespace nothing is planned. -/
theorem plan_eq_ok_nil (noReferences : unit.references parser options = [])
    (noneRemoved : unit.removed parser options = []) :
    PlannedImport.plan (.ofReferences (unit.references parser options))
      (unit.removed parser options) options.moduleName = .ok [] := by
  rw [noReferences, noneRemoved]
  rfl

/-- The edits for a plan are none exactly when the plan is empty and there is nothing to delete and
nothing to replace. -/
theorem editsFor_eq_nil_iff {planned : List PlannedImport} :
    unit.editsFor parser options planned = [] ↔
      planned = [] ∧ unit.removed parser options = [] ∧ unit.references parser options = [] := by
  rw [editsFor_eq_changes, changes, List.append_eq_nil_iff, List.append_eq_nil_iff,
    List.map_eq_nil_iff, List.map_eq_nil_iff, and_assoc]
  refine and_congr_left fun _ => ?_
  split
  next empty => exact iff_of_true rfl empty
  next nonempty => exact iff_of_false (List.cons_ne_nil _ _) nonempty

/-- **A unit has a plan without edits exactly when it has no references and no import of the
namespace.** -/
theorem exists_plan_editsFor_eq_nil_iff :
    (∃ planned,
      PlannedImport.plan (.ofReferences (unit.references parser options))
        (unit.removed parser options) options.moduleName = .ok planned ∧
      unit.editsFor parser options planned = []) ↔
    unit.references parser options = [] ∧ unit.removed parser options = [] := by
  constructor
  · rintro ⟨planned, _, none⟩
    obtain ⟨_, noneRemoved, noReferences⟩ := editsFor_eq_nil_iff.mp none
    exact ⟨noReferences, noneRemoved⟩
  · rintro ⟨noReferences, noneRemoved⟩
    exact ⟨[], plan_eq_ok_nil noReferences noneRemoved,
      editsFor_eq_nil_iff.mpr ⟨rfl, noneRemoved, noReferences⟩⟩

/-- The counts of a transform are those of the references and of the removed statements, also when
there are none. -/
theorem counts_of_transform {transformed : Transformed}
    (success : unit.transform parser options = .ok transformed) :
    transformed.replaced = (unit.references parser options).length ∧
      transformed.removedImports = (unit.removed parser options).length := by
  obtain ⟨_, planned, _, ⟨none, rfl⟩ | ⟨_, _, _, _, rfl⟩⟩ := transform_eq_ok_iff.mp success
  · obtain ⟨_, noneRemoved, noReferences⟩ := editsFor_eq_nil_iff.mp none
    rw [noneRemoved, noReferences]
    exact ⟨rfl, rfl⟩
  · exact ⟨rfl, rfl⟩

/-- A unit without references and without imports of the namespace is left as it is. -/
theorem transform_eq_self (sound : (unit.root parser).label.faulty = false)
    (noReferences : unit.references parser options = [])
    (noneRemoved : unit.removed parser options = []) :
    unit.transform parser options = .ok ⟨unit.text, unit.text, {}, 0, 0⟩ := by
  have nothing : unit.editsFor parser options [] = [] :=
    editsFor_eq_nil_iff.mpr ⟨rfl, noneRemoved, noReferences⟩
  refine transform_eq_ok_iff.mpr
    ⟨sound, [], plan_eq_ok_nil noReferences noneRemoved, .inl ⟨nothing, ?_⟩⟩
  rw [noReferences]
  rfl

/-- **Every reference that is found is replaced, and a transform reports what it did.** Each edit of
a reference covers its node and leaves the name of its member. A unit whose tree is sound has no
edits exactly when it has no references and no import of the namespace; it is then left as it is,
and otherwise the counts are those of the references and of the removed statements. -/
theorem references_replaced_and_counted :
    (∀ (source : Bytes) (language : Language) (namespaceName : String) (root : Node),
      let references := Reference.find source language namespaceName root
      let members := MemberSet.ofReferences references
      (∀ reference ∈ references,
          reference.inPlace = true ∧ reference.isMember members = true) ∧
        Reference.edits references members = references.map fun reference =>
          ⟨reference.node.start, reference.node.stop, reference.member⟩) ∧
    ∀ (unit : SourceUnit) (parser : Parser) (options : Options),
      (unit.root parser).label.faulty = false →
      let references := unit.references parser options
      let members := MemberSet.ofReferences references
      let removed := unit.removed parser options
      ((∃ change, ImportChange.plan unit.source (unit.root parser) members options = .ok change ∧
          change.edits ++ Reference.edits references members = []) ↔
        references = [] ∧ removed = []) ∧
      (unit.transform parser options = .ok ⟨unit.text, unit.text, {}, 0, 0⟩ ↔
        references = [] ∧ removed = []) ∧
      ∀ transformed, unit.transform parser options = .ok transformed →
        transformed.replaced = references.length ∧
          transformed.removedImports = removed.length := by
  refine ⟨?_, ?_⟩
  · intro source language namespaceName root references members
    refine ⟨fun reference found => Reference.inPlace_and_isMember_of_mem_find found, ?_⟩
    exact Reference.edits_ofReferences source language namespaceName root
  · intro unit parser options sound references members removed
    refine ⟨?_, ?_, fun transformed success => counts_of_transform success⟩
    · have bare : Reference.edits references members = references.map Reference.bare :=
        Reference.edits_ofReferences _ _ _ _
      rw [bare, ← exists_plan_editsFor_eq_nil_iff]
      simp only [ImportChange.plan_eq_ok_iff]
      constructor
      · rintro ⟨_, ⟨planned, plan, rfl⟩, none⟩
        exact ⟨planned, plan, none⟩
      · rintro ⟨planned, plan, none⟩
        exact ⟨_, ⟨planned, plan, rfl⟩, none⟩
    · constructor
      · intro unchanged
        obtain ⟨replaced, removedImports⟩ := counts_of_transform unchanged
        exact ⟨List.eq_nil_of_length_eq_zero replaced.symm,
          List.eq_nil_of_length_eq_zero removedImports.symm⟩
      · rintro ⟨noReferences, noneRemoved⟩
        exact transform_eq_self sound noReferences noneRemoved

theorem references_replaced_and_counted_hooks :
    (Sample.hooksUnit.root Sample.hooksParser).label.faulty = false ∧
      (Sample.hooksUnit.references Sample.hooksParser {}).length = 1 ∧
      (Sample.hooksUnit.removed Sample.hooksParser {}).length = 1 := by
  obtain ⟨_, _, counts⟩ :=
    references_replaced_and_counted.2 Sample.hooksUnit Sample.hooksParser {} rfl
  obtain ⟨replaced, removed⟩ := counts _ Sample.transform_hooks
  exact ⟨rfl, replaced.symm, removed.symm⟩

end Unqualify.SourceUnit
