import Unqualify.Import.Plan
import Unqualify.Proofs.MemberSet

/-!
# What a plan consists of

A plan exists exactly when no carried specifier clashes with a member (`plan_eq_error_iff`), and
then it consists of the imports of both sides that have a specifier, types first (`plan_eq_ok_iff`).
The names that a plan binds are those of the carried specifiers and those of the members, and no
others (`exists_mem_boundNames`).
-/

set_option autoImplicit false

namespace Unqualify.PlannedImport

def boundNames (planned : PlannedImport) : List String :=
  planned.specifiers.map (·.bound)

/-- The import of one side. It is written only when it has a specifier. -/
def ofSide (members : MemberSet) (removed : List ImportDeclaration) (moduleName : String)
    (typeOnly : Bool) : PlannedImport :=
  ⟨complete (carried typeOnly removed) (members.side typeOnly), moduleName, typeOnly⟩

/-! ## Carried specifiers and added members -/

theorem mem_carried {typeOnly : Bool} {removed : List ImportDeclaration} {specifier : Specifier} :
    specifier ∈ carried typeOnly removed ↔
      ∃ declaration ∈ removed, declaration.typeOnly = typeOnly ∧
        specifier ∈ declaration.specifiers := by
  simp only [carried, List.mem_flatMap, List.mem_filter, beq_iff_eq, and_assoc]

theorem exists_mem_carried {removed : List ImportDeclaration} {specifier : Specifier} :
    (∃ typeOnly, specifier ∈ carried typeOnly removed) ↔
      ∃ declaration ∈ removed, specifier ∈ declaration.specifiers := by
  constructor
  · rintro ⟨typeOnly, found⟩
    obtain ⟨declaration, member, _, listed⟩ := mem_carried.mp found
    exact ⟨declaration, member, listed⟩
  · rintro ⟨declaration, member, listed⟩
    exact ⟨declaration.typeOnly, mem_carried.mpr ⟨declaration, member, rfl, listed⟩⟩

/-- The members that no carried specifier binds. -/
def added (carried : List Specifier) (members : List String) : List String :=
  members.filter fun name => !carried.any fun specifier => specifier.bound == name

theorem complete_eq (carried : List Specifier) (members : List String) :
    complete carried members = carried ++ (added carried members).map Specifier.plain := rfl

theorem mem_added {carried : List Specifier} {members : List String} {name : String} :
    name ∈ added carried members ↔
      name ∈ members ∧ ∀ specifier ∈ carried, specifier.bound ≠ name := by
  simp [added]

theorem map_bound_complete (carried : List Specifier) (members : List String) :
    (complete carried members).map (·.bound) =
      carried.map (·.bound) ++ added carried members := by
  rw [complete_eq, List.map_append, List.map_map]
  congr 1
  exact List.map_id _

theorem mem_map_bound_complete {carried : List Specifier} {members : List String} {name : String} :
    name ∈ (complete carried members).map (·.bound) ↔
      (∃ specifier ∈ carried, specifier.bound = name) ∨ name ∈ members := by
  rw [map_bound_complete, List.mem_append, List.mem_map, mem_added]
  by_cases bound : ∃ specifier ∈ carried, specifier.bound = name
  · exact iff_of_true (.inl bound) (.inl bound)
  · have free : ∀ specifier ∈ carried, specifier.bound ≠ name :=
      fun specifier member same => bound ⟨specifier, member, same⟩
    exact or_congr_right ⟨And.left, fun member => ⟨member, free⟩⟩

theorem mem_complete {carried : List Specifier} {members : List String} {specifier : Specifier}
    (found : specifier ∈ complete carried members) :
    specifier ∈ carried ∨ ∃ name ∈ members, specifier = Specifier.plain name := by
  rw [complete_eq, List.mem_append, List.mem_map] at found
  rcases found with inCarried | ⟨name, hAdded, same⟩
  · exact .inl inCarried
  · exact .inr ⟨name, (mem_added.mp hAdded).1, same.symm⟩

/-! ## Clashes -/

variable {members : MemberSet} {removed : List ImportDeclaration} {moduleName : String}

/-- The outcome of planning, with all that is known in either case. A clash names a carried
alias. -/
theorem plan_cases (members : MemberSet) (removed : List ImportDeclaration) (moduleName : String) :
    (∃ declaration ∈ removed, ∃ specifier ∈ declaration.specifiers,
      clashes members specifier = true ∧
        plan members removed moduleName =
          .error ⟨specifier.bound, specifier.imported, moduleName⟩) ∨
    (∀ declaration ∈ removed, ∀ specifier ∈ declaration.specifiers,
      ¬ clashes members specifier = true) ∧
        plan members removed moduleName =
          .ok (([true, false].map (ofSide members removed moduleName)).filter
            fun statement => !statement.specifiers.isEmpty) := by
  cases search : (carried false removed ++ carried true removed).find? (clashes members) with
  | some specifier =>
      have found : ∃ typeOnly, specifier ∈ carried typeOnly removed :=
        (List.mem_append.mp (List.mem_of_find?_eq_some search)).elim
          (fun here => ⟨false, here⟩) fun here => ⟨true, here⟩
      obtain ⟨declaration, member, listed⟩ := exists_mem_carried.mp found
      refine .inl ⟨declaration, member, specifier, listed, List.find?_some search, ?_⟩
      simp only [plan, search]
  | none =>
      refine .inr ⟨?_, ?_⟩
      · intro declaration member specifier listed
        obtain ⟨typeOnly, found⟩ := exists_mem_carried.mpr ⟨declaration, member, listed⟩
        refine List.find?_eq_none.mp search specifier (List.mem_append.mpr ?_)
        cases typeOnly with
        | false => exact .inl found
        | true => exact .inr found
      · simp only [plan, search]
        rfl

/-- **A plan consists of the imports of both sides, types first, without the empty ones.** -/
theorem plan_eq_ok_iff {planned : List PlannedImport} :
    plan members removed moduleName = .ok planned ↔
      (∀ declaration ∈ removed, ∀ specifier ∈ declaration.specifiers,
        ¬ clashes members specifier = true) ∧
      planned = ([true, false].map (ofSide members removed moduleName)).filter
        fun statement => !statement.specifiers.isEmpty := by
  rcases plan_cases members removed moduleName with
    ⟨declaration, member, specifier, listed, clash, outcome⟩ | ⟨free, outcome⟩
  · rw [outcome]
    exact iff_of_false (fun impossible => nomatch impossible)
      fun possible => possible.1 declaration member specifier listed clash
  · rw [outcome]
    exact ⟨fun same => ⟨free, (Except.ok.inj same).symm⟩, fun same => congrArg _ same.2.symm⟩

section Success

variable {planned : List PlannedImport}
  (success : plan members removed moduleName = .ok planned)
include success

/-- The statements of a plan are the imports of the sides that are not empty. -/
theorem mem_plan {statement : PlannedImport} :
    statement ∈ planned ↔
      statement.specifiers ≠ [] ∧
        ∃ typeOnly, statement = ofSide members removed moduleName typeOnly := by
  rw [(plan_eq_ok_iff.mp success).2, List.mem_filter, Bool.not_eq_true', List.isEmpty_eq_false_iff,
    and_comm]
  simp only [List.map_cons, List.map_nil, List.mem_cons, List.not_mem_nil, or_false,
    Bool.exists_bool]
  rw [or_comm]

theorem ofSide_mem_plan {typeOnly : Bool} {specifier : Specifier}
    (found : specifier ∈ (ofSide members removed moduleName typeOnly).specifiers) :
    ofSide members removed moduleName typeOnly ∈ planned :=
  (mem_plan success).mpr ⟨List.ne_nil_of_mem found, typeOnly, rfl⟩

/-- **A plan binds the carried names and the members, and nothing else.** -/
theorem exists_mem_boundNames {name : String} :
    (∃ statement ∈ planned, name ∈ statement.boundNames) ↔
      (∃ declaration ∈ removed, ∃ specifier ∈ declaration.specifiers, specifier.bound = name) ∨
        ∃ typeSide, name ∈ members.side typeSide := by
  constructor
  · rintro ⟨statement, member, bound⟩
    obtain ⟨_, typeOnly, rfl⟩ := (mem_plan success).mp member
    rcases mem_map_bound_complete.mp bound with ⟨specifier, found, same⟩ | onSide
    · obtain ⟨declaration, inRemoved, listed⟩ := exists_mem_carried.mp ⟨typeOnly, found⟩
      exact .inl ⟨declaration, inRemoved, specifier, listed, same⟩
    · exact .inr ⟨typeOnly, onSide⟩
  · intro known
    have onSide : ∃ typeOnly, name ∈ (ofSide members removed moduleName typeOnly).boundNames := by
      rcases known with ⟨declaration, inRemoved, specifier, listed, same⟩ | ⟨typeSide, onSide⟩
      · obtain ⟨typeOnly, found⟩ := exists_mem_carried.mpr ⟨declaration, inRemoved, listed⟩
        exact ⟨typeOnly, mem_map_bound_complete.mpr (.inl ⟨specifier, found, same⟩)⟩
      · exact ⟨typeSide, mem_map_bound_complete.mpr (.inr onSide)⟩
    obtain ⟨typeOnly, bound⟩ := onSide
    obtain ⟨specifier, found, _⟩ := List.mem_map.mp bound
    exact ⟨_, ofSide_mem_plan success found, bound⟩

end Success

end Unqualify.PlannedImport
