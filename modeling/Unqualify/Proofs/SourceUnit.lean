import Unqualify.Proofs.Edit
import Unqualify.Proofs.Import.Change
import Unqualify.Proofs.Reference
import Unqualify.Proofs.Text.Utf8
import Unqualify.SourceUnit

/-!
# When a transform succeeds

A unit is transformed exactly when its tree is free of faults, there is a plan for its imports, and
its edits give the octets of a text that the parser accepts (`transform_eq_ok_iff`). The edits are
those of the plan followed by one for every reference.
-/

set_option autoImplicit false

namespace Unqualify

/-! ## Steps that can fail -/

theorem bind_eq_ok_iff {ε α β : Type} {first : Except ε α} {next : α → Except ε β} {result : β} :
    first >>= next = .ok result ↔ ∃ value, first = .ok value ∧ next value = .ok result := by
  cases first with
  | error fault =>
      exact iff_of_false (fun impossible => nomatch impossible)
        fun ⟨_, impossible, _⟩ => nomatch impossible
  | ok value =>
      constructor
      · intro success
        exact ⟨value, rfl, success⟩
      · rintro ⟨_, same, success⟩
        cases same
        exact success

theorem bind_eq_error_iff {ε α β : Type} {first : Except ε α} {next : α → Except ε β} {fault : ε} :
    first >>= next = .error fault ↔
      first = .error fault ∨ ∃ value, first = .ok value ∧ next value = .error fault := by
  cases first with
  | error other =>
      constructor
      · rintro ⟨⟩
        exact .inl rfl
      · rintro (⟨⟨⟩⟩ | ⟨_, impossible, _⟩)
        · rfl
        · exact nomatch impossible
  | ok value =>
      constructor
      · intro failed
        exact .inr ⟨value, rfl, failed⟩
      · rintro (impossible | ⟨_, ⟨⟩, failed⟩)
        · exact nomatch impossible
        · exact failed

theorem mapError_eq_ok_iff {ε ε' α : Type} {step : Except ε α} {wrap : ε → ε'} {value : α} :
    step.mapError wrap = .ok value ↔ step = .ok value := by
  cases step with
  | error fault =>
      exact iff_of_false (fun impossible => nomatch impossible) fun impossible => nomatch impossible
  | ok result =>
      constructor
      · rintro ⟨⟩
        rfl
      · rintro ⟨⟩
        rfl

theorem mapError_eq_error_iff {ε ε' α : Type} {step : Except ε α} {wrap : ε → ε'} {fault : ε'} :
    step.mapError wrap = .error fault ↔ ∃ cause, step = .error cause ∧ wrap cause = fault := by
  cases step with
  | error cause =>
      constructor
      · rintro ⟨⟩
        exact ⟨cause, rfl, rfl⟩
      · rintro ⟨_, ⟨⟩, rfl⟩
        rfl
  | ok value =>
      exact iff_of_false (fun impossible => nomatch impossible)
        fun ⟨_, impossible, _⟩ => nomatch impossible

/-! ## The transform of a survey -/

/-- **A survey is transformed exactly when its imports have a plan and its edits give a text that
parses.** Without edits the unit is left as it is. -/
theorem Survey.transform_eq_ok_iff {survey : Survey} {options : Options}
    {transformed : Transformed} :
    survey.transform options = .ok transformed ↔
      ∃ change,
        ImportChange.plan survey.source survey.parsed.root survey.members options = .ok change ∧
        let bare := Reference.edits survey.references survey.members
        (change.edits ++ bare = [] ∧
            transformed = ⟨survey.unit.text, survey.unit.text, survey.members, 0, 0⟩ ∨
          change.edits ++ bare ≠ [] ∧
            ∃ output,
              Edit.applyAll survey.source (change.edits ++ bare) = .ok (Utf8.encode output) ∧
              survey.parsed.accepts output = true ∧
              transformed = ⟨survey.unit.text, output, survey.members, change.removed,
                bare.length⟩) := by
  rw [transform, bind_eq_ok_iff]
  refine exists_congr fun change => and_congr mapError_eq_ok_iff ?_
  generalize Reference.edits survey.references survey.members = bare
  dsimp only
  by_cases none : change.edits ++ bare = []
  · rw [if_pos (by rw [none]; rfl)]
    constructor
    · intro success
      exact .inl ⟨none, (Except.ok.inj success).symm⟩
    · rintro (⟨_, rfl⟩ | ⟨some, _⟩)
      · rfl
      · exact absurd none some
  · rw [if_neg (by rwa [List.isEmpty_iff])]
    constructor
    · intro success
      obtain ⟨octets, applied, success⟩ := bind_eq_ok_iff.mp success
      obtain ⟨output, read, success⟩ := bind_eq_ok_iff.mp success
      rw [Utf8.decode_eq_ok_iff.mp (mapError_eq_ok_iff.mp read)] at applied
      split at success
      next accepted =>
        exact .inr ⟨none, output, mapError_eq_ok_iff.mp applied, accepted,
          (Except.ok.inj success).symm⟩
      next => exact nomatch success
    · rintro (⟨empty, _⟩ | ⟨_, output, applied, accepted, rfl⟩)
      · exact absurd empty none
      · refine bind_eq_ok_iff.mpr ⟨_, mapError_eq_ok_iff.mpr applied, ?_⟩
        refine bind_eq_ok_iff.mpr ⟨output, mapError_eq_ok_iff.mpr (Utf8.decode_encode output), ?_⟩
        rw [if_pos accepted]
        rfl

namespace SourceUnit

/-! ## The transform of a unit -/

variable (unit : SourceUnit) (parser : Parser) (options : Options)

/-- The octets of a unit. -/
def source : Bytes :=
  Utf8.encode unit.text

/-- The tree of a unit. -/
def root : Node :=
  (parser unit.file unit.language unit.text).root

/-- The references of a unit. -/
def references : List Reference :=
  Reference.find unit.source unit.language options.namespaceName (unit.root parser)

/-- The import statements of a unit that are removed. -/
def removed : List ImportDeclaration :=
  ImportDeclaration.removedIn unit.source (unit.root parser) options.moduleName
    options.namespaceName

/-- The edits of a unit for a plan of its imports. -/
def editsFor (planned : List PlannedImport) : List Edit :=
  ImportChange.editsOf unit.source (unit.root parser) options planned ++
    (unit.references parser options).map Reference.bare

variable {unit parser options}

theorem survey_eq_ok_iff {survey : Survey} :
    unit.survey parser options = .ok survey ↔
      (unit.root parser).label.faulty = false ∧
        survey = ⟨unit, parser unit.file unit.language unit.text, unit.references parser options,
          .ofReferences (unit.references parser options)⟩ := by
  rw [SourceUnit.survey]
  dsimp only
  split
  next faulty =>
    refine iff_of_false (fun impossible => nomatch impossible) ?_
    rintro ⟨sound, _⟩
    exact absurd (faulty.symm.trans sound) (by decide)
  next sound =>
    constructor
    · intro success
      exact ⟨Bool.eq_false_iff.mpr sound, (Except.ok.inj success).symm⟩
    · rintro ⟨_, rfl⟩
      rfl

theorem edits_references :
    Reference.edits (unit.references parser options)
        (.ofReferences (unit.references parser options)) =
      (unit.references parser options).map Reference.bare :=
  Reference.edits_ofReferences _ _ _ _

/-- **A unit is transformed exactly when its tree is sound, its imports have a plan, and its edits
give a text that parses.** Without edits the unit is left as it is. -/
theorem transform_eq_ok_iff {transformed : Transformed} :
    unit.transform parser options = .ok transformed ↔
      (unit.root parser).label.faulty = false ∧
        ∃ planned,
          PlannedImport.plan (.ofReferences (unit.references parser options))
            (unit.removed parser options) options.moduleName = .ok planned ∧
          (unit.editsFor parser options planned = [] ∧
              transformed = ⟨unit.text, unit.text, .ofReferences (unit.references parser options),
                0, 0⟩ ∨
            unit.editsFor parser options planned ≠ [] ∧
              ∃ output,
                Edit.applyAll unit.source (unit.editsFor parser options planned) =
                  .ok (Utf8.encode output) ∧
                (parser unit.file unit.language unit.text).accepts output = true ∧
                transformed = ⟨unit.text, output,
                  .ofReferences (unit.references parser options),
                  (unit.removed parser options).length,
                  (unit.references parser options).length⟩) := by
  rw [transform, bind_eq_ok_iff]
  simp only [survey_eq_ok_iff, and_assoc, exists_and_left, exists_eq_left,
    Survey.transform_eq_ok_iff, edits_references, List.length_map]
  refine and_congr_right fun _ => ?_
  constructor
  · rintro ⟨change, success, outcome⟩
    obtain ⟨planned, plan, rfl⟩ := ImportChange.plan_eq_ok_iff.mp success
    exact ⟨planned, plan, outcome⟩
  · rintro ⟨planned, plan, outcome⟩
    exact ⟨_, ImportChange.plan_eq_ok_iff.mpr ⟨planned, plan, rfl⟩, outcome⟩

/-- The edits of a unit that is transformed give its output, also when there are none. -/
theorem applyAll_of_transform {transformed : Transformed}
    (success : unit.transform parser options = .ok transformed) :
    ∃ planned,
      PlannedImport.plan (.ofReferences (unit.references parser options))
        (unit.removed parser options) options.moduleName = .ok planned ∧
      Edit.applyAll unit.source (unit.editsFor parser options planned) =
        .ok (Utf8.encode transformed.output) := by
  obtain ⟨_, planned, plan, ⟨none, rfl⟩ | ⟨_, output, applied, _, rfl⟩⟩ :=
    transform_eq_ok_iff.mp success
  · refine ⟨planned, plan, ?_⟩
    rw [none, Edit.applyAll, Edit.ordered, List.mergeSort_nil]
    rfl
  · exact ⟨planned, plan, applied⟩

/-- A transform that fails for octets that cannot be read has applied its edits. -/
theorem exists_applyAll_of_undecodable {fault : Utf8.Fault}
    (failed : unit.transform parser options = .error (.undecodable fault)) :
    ∃ planned octets,
      Edit.applyAll unit.source (unit.editsFor parser options planned) = .ok octets ∧
        Utf8.decode octets = .error fault := by
  rcases bind_eq_error_iff.mp failed with unsurveyed | ⟨survey, surveyed, failed⟩
  · rw [SourceUnit.survey] at unsurveyed
    dsimp only at unsurveyed
    split at unsurveyed <;> exact nomatch unsurveyed
  obtain ⟨_, rfl⟩ := survey_eq_ok_iff.mp surveyed
  rcases bind_eq_error_iff.mp failed with clashed | ⟨change, planning, failed⟩
  · obtain ⟨_, _, impossible⟩ := mapError_eq_error_iff.mp clashed
    exact nomatch impossible
  obtain ⟨planned, _, rfl⟩ := ImportChange.plan_eq_ok_iff.mp (mapError_eq_ok_iff.mp planning)
  dsimp only at failed
  rw [edits_references] at failed
  split at failed
  · exact nomatch failed
  rcases bind_eq_error_iff.mp failed with conflict | ⟨octets, applied, failed⟩
  · obtain ⟨_, _, impossible⟩ := mapError_eq_error_iff.mp conflict
    exact nomatch impossible
  refine ⟨planned, octets, mapError_eq_ok_iff.mp applied, ?_⟩
  rcases bind_eq_error_iff.mp failed with unreadable | ⟨output, _, failed⟩
  · obtain ⟨_, unreadable, ⟨⟩⟩ := mapError_eq_error_iff.mp unreadable
    exact unreadable
  · split at failed <;> exact nomatch failed

end SourceUnit

end Unqualify
