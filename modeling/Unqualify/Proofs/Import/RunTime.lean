import Unqualify.Proofs.Import.Binding

/-!
# Which members are there at run time

An import of types leaves nothing behind at run time, and neither does a name in braces that has a
`type` or `typeof` of its own. A member that is read as a value therefore needs a name without such
a modifier in the import of values.

It has one unless the removed value imports name the member and do so with a modifier every time
(`value_member_bound_at_run_time_iff`). Planning looks at the name that a carried specifier binds
and not at its modifier, so the carried type stands in for the value, and the value is not imported
(`carried_type_stands_in_for_value`).
-/

set_option autoImplicit false

namespace Unqualify

namespace Sample

/-- A unit that imports `useState` as a type and calls it through the namespace. -/
def typedHookText : String :=
  "import React, \x7b type useState \x7d from 'react';\nReact.useState(0);\n"

def typedHookRoot : Node :=
  branch "program" 0 65 [
    branch "import_statement" 0 45 [
      token "import" 0 6,
      branch "import_clause" 7 31 [
        branch "identifier" 7 12 [],
        token "," 12 13,
        branch "named_imports" 14 31 [
          token "\x7b" 14 15,
          branch "import_specifier" 16 29 [
            token "type" 16 20, filling "name" "identifier" 21 29 []],
          token "\x7d" 30 31]],
      token "from" 32 36, reactLiteral 37, token ";" 44 45],
    branch "expression_statement" 46 64 [
      branch "call_expression" 46 63 [
        filling "function" "member_expression" 46 60 [
          filling "object" "identifier" 46 51 [],
          token "." 51 52,
          filling "property" "property_identifier" 52 60 []],
        filling "arguments" "arguments" 60 63 [
          token "(" 60 61, branch "number" 61 62 [], token ")" 62 63]],
      token ";" 63 64]]

/-- What is planned for it: the carried type, and nothing else. -/
def typedHookPlan : List PlannedImport :=
  [⟨[⟨"type useState", "useState", "useState", true⟩], "react", false⟩]

end Sample

namespace PlannedImport

/-- A name is bound at run time: an import of values binds it, and without a modifier. -/
def BoundAtRunTime (planned : List PlannedImport) (name : String) : Prop :=
  ∃ statement ∈ planned, statement.typeOnly = false ∧
    ∃ specifier ∈ statement.specifiers, specifier.bound = name ∧ specifier.typeModifier = false

/-- Removed imports of values bind a name in braces, and every time with a modifier. -/
def CarriedAsType (removed : List ImportDeclaration) (name : String) : Prop :=
  (∃ specifier ∈ carried false removed, specifier.bound = name) ∧
    ∀ specifier ∈ carried false removed, specifier.bound = name → specifier.typeModifier = true

/-- A plan binds a name at run time exactly when the import of values does so without a modifier,
whether that import is written or left out as empty. -/
theorem boundAtRunTime_iff {members : MemberSet} {removed : List ImportDeclaration}
    {moduleName : String} {planned : List PlannedImport}
    (success : plan members removed moduleName = .ok planned) {name : String} :
    BoundAtRunTime planned name ↔
      ∃ specifier ∈ complete (carried false removed) members.values,
        specifier.bound = name ∧ specifier.typeModifier = false := by
  constructor
  · rintro ⟨statement, member, ofValues, found⟩
    obtain ⟨_, typeOnly, rfl⟩ := (mem_plan success).mp member
    cases ofValues
    exact found
  · rintro ⟨specifier, listed, binds⟩
    exact ⟨ofSide members removed moduleName false, ofSide_mem_plan success listed, rfl, specifier,
      listed, binds⟩

/-- A completed list binds a member without a modifier unless the carried specifiers bind it, and
only with one. -/
theorem exists_unmodified_complete_iff {carried : List Specifier} {members : List String}
    {name : String} (member : name ∈ members) :
    (∃ specifier ∈ complete carried members,
        specifier.bound = name ∧ specifier.typeModifier = false) ↔
      ¬ ((∃ specifier ∈ carried, specifier.bound = name) ∧
        ∀ specifier ∈ carried, specifier.bound = name → specifier.typeModifier = true) := by
  constructor
  · rintro ⟨specifier, listed, binds, unmodified⟩ ⟨⟨other, inCarried, same⟩, modified⟩
    rw [complete_eq, List.mem_append, List.mem_map] at listed
    rcases listed with here | ⟨added, isAdded, rfl⟩
    · exact absurd ((modified specifier here binds).symm.trans unmodified) (by decide)
    · -- A member is added only when no carried specifier binds it.
      exact (mem_added.mp isAdded).2 other inCarried (same.trans binds.symm)
  · intro notOnlyAsType
    by_cases inCarried : ∃ specifier ∈ carried, specifier.bound = name
    · have unmodified : ∃ specifier ∈ carried,
          specifier.bound = name ∧ specifier.typeModifier = false := by
        by_contra none
        refine notOnlyAsType ⟨inCarried, fun specifier here binds => ?_⟩
        by_contra plain
        exact none ⟨specifier, here, binds, Bool.eq_false_iff.mpr plain⟩
      obtain ⟨specifier, here, binds⟩ := unmodified
      exact ⟨specifier, List.mem_append_left _ here, binds⟩
    · have isAdded : name ∈ added carried members :=
        mem_added.mpr ⟨member, fun specifier here binds => inCarried ⟨specifier, here, binds⟩⟩
      refine ⟨.plain name, ?_, rfl, rfl⟩
      rw [complete_eq]
      exact List.mem_append_right _ (List.mem_map_of_mem isAdded)

/-- **A member that is read as a value is bound at run time exactly when the removed value imports
do not carry it as a type.** -/
theorem value_member_bound_at_run_time_iff (source : Bytes) (language : Language)
    (options : Options)
    (root : Node) (planned : List PlannedImport)
    (success : plan
      (.ofReferences (Reference.find source language options.namespaceName root))
      (ImportDeclaration.removedIn source root options.moduleName options.namespaceName)
      options.moduleName = .ok planned) :
    ∀ name ∈ (MemberSet.ofReferences
        (Reference.find source language options.namespaceName root)).values,
      BoundAtRunTime planned name ↔
        ¬ CarriedAsType
            (ImportDeclaration.removedIn source root options.moduleName options.namespaceName)
            name := by
  intro name member
  rw [boundAtRunTime_iff success]
  exact exists_unmodified_complete_iff member

theorem value_member_bound_at_run_time_hooks : BoundAtRunTime Sample.hooksPlan "useState" := by
  have member : "useState" ∈ (MemberSet.ofReferences
      (Reference.find (Utf8.encode Sample.hooksText) .tsx "React" Sample.hooksRoot)).values := by
    decide +kernel
  refine (value_member_bound_at_run_time_iff (Utf8.encode Sample.hooksText) .tsx {}
    Sample.hooksRoot Sample.hooksPlan Sample.plan_hooks "useState" member).mpr ?_
  unfold CarriedAsType
  decide +kernel

/-- A value that is imported as a type next to the namespace is not imported at run time: its call
stays in the unit, and the plan has the type only. -/
theorem carried_type_stands_in_for_value :
    plan
        (.ofReferences (Reference.find (Utf8.encode Sample.typedHookText) .typescript "React"
          Sample.typedHookRoot))
        (ImportDeclaration.removedIn (Utf8.encode Sample.typedHookText) Sample.typedHookRoot "react"
          "React") "react" = .ok Sample.typedHookPlan ∧
      "useState" ∈ (MemberSet.ofReferences (Reference.find (Utf8.encode Sample.typedHookText)
        .typescript "React" Sample.typedHookRoot)).values ∧
      ¬ BoundAtRunTime Sample.typedHookPlan "useState" := by
  refine ⟨?_, by decide +kernel, ?_⟩
  · rw [plan_eq_ok_iff]
    decide +kernel
  · unfold BoundAtRunTime
    decide

end PlannedImport

end Unqualify
