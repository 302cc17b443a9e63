import Unqualify.Proofs.Import.Change
import Unqualify.Proofs.Import.Plan

/-!
# Which names the imports bind

After the change every reference is a bare name, so the planned imports have to give each of these
names its member. They do (`plan_of_references_sound`): the statement of the reference's side
imports the member under its own name, and no statement binds that name to anything else.

The names that the removed statements bound are another matter. Names in braces are carried, so none
of them is lost, but a default import next to `* as`, or the other way round, is lost when nothing
else binds it (`removed_names_stay_bound_iff`, `default_beside_namespace_lost`). Statements that
stay are not looked at: a name that one of them binds is bound a second time when it is the name of
a member or of a carried specifier, and only then (`kept_name_bound_again_iff`,
`kept_import_redeclared`).
-/

set_option autoImplicit false

namespace Unqualify

/-! ## Two small units

The first unit removes one import, carries a name from it, and keeps an import that binds the name
of a member. In the second a default import stands next to the namespace. -/

namespace Sample

def reactLiteral (start : Nat) : Node :=
  filling "source" "string" start (start + 7) [
    token "'" start (start + 1), branch "string_fragment" (start + 1) (start + 6) [],
    token "'" (start + 6) (start + 7)]

/-- A unit in which `useState` is imported already and reached through the namespace as well. -/
def hooksText : String :=
  "import React, \x7b useRef \x7d from 'react';\nimport \x7b useState \x7d from 'react';\n" ++
    "React.useState(0);\n"

def hooksRoot : Node :=
  branch "program" 0 92 [
    branch "import_statement" 0 38 [
      token "import" 0 6,
      branch "import_clause" 7 24 [
        branch "identifier" 7 12 [],
        token "," 12 13,
        branch "named_imports" 14 24 [
          token "\x7b" 14 15,
          branch "import_specifier" 16 22 [filling "name" "identifier" 16 22 []],
          token "\x7d" 23 24]],
      token "from" 25 29, reactLiteral 30, token ";" 37 38],
    branch "import_statement" 39 72 [
      token "import" 39 45,
      branch "import_clause" 46 58 [
        branch "named_imports" 46 58 [
          token "\x7b" 46 47,
          branch "import_specifier" 48 56 [filling "name" "identifier" 48 56 []],
          token "\x7d" 57 58]],
      token "from" 59 63, reactLiteral 64, token ";" 71 72],
    branch "expression_statement" 73 91 [
      branch "call_expression" 73 90 [
        filling "function" "member_expression" 73 87 [
          filling "object" "identifier" 73 78 [],
          token "." 78 79,
          filling "property" "property_identifier" 79 87 []],
        filling "arguments" "arguments" 87 90 [
          token "(" 87 88, branch "number" 88 89 [], token ")" 89 90]],
      token ";" 90 91]]

/-- A unit in which a default import stands next to the namespace. -/
def allText : String :=
  "import All, * as React from 'react';\n"

def allRoot : Node :=
  branch "program" 0 37 [
    branch "import_statement" 0 36 [
      token "import" 0 6,
      branch "import_clause" 7 22 [
        branch "identifier" 7 10 [],
        token "," 10 11,
        branch "namespace_import" 12 22 [
          token "*" 12 13, token "as" 14 16, branch "identifier" 17 22 []]],
      token "from" 23 27, reactLiteral 28, token ";" 35 36]]

/-- What is planned for the first unit: the name that is carried, and the member. -/
def hooksPlan : List PlannedImport :=
  [⟨[.plain "useRef", .plain "useState"], "react", false⟩]

theorem plan_hooks :
    PlannedImport.plan
      (.ofReferences (Reference.find (Utf8.encode hooksText) .tsx "React" hooksRoot))
      (ImportDeclaration.removedIn (Utf8.encode hooksText) hooksRoot "react" "React") "react" =
        .ok hooksPlan := by
  rw [PlannedImport.plan_eq_ok_iff]
  decide +kernel

end Sample

/-! ## References after planning -/

namespace PlannedImport

variable {references : List Reference} {removed : List ImportDeclaration} {moduleName : String}
  {planned : List PlannedImport}

section Success

variable (success : plan (.ofReferences references) removed moduleName = .ok planned)
include success

end Success

end PlannedImport

/-! ## Names of removed statements -/

namespace ImportDeclaration

/-- Every name that a removed statement binds, the namespace apart, is bound by a planned import or
by a statement that stays. -/
def NamesStayBound (source : Bytes) (root : Node) (moduleName namespaceName : String)
    (planned : List PlannedImport) : Prop :=
  ∀ declaration ∈ removedIn source root moduleName namespaceName,
    ∀ name ∈ declaration.boundNames, name ≠ namespaceName →
      (∃ statement ∈ planned, name ∈ statement.boundNames) ∨
        ∃ kept ∈ keptIn source root moduleName namespaceName, name ∈ kept.boundNames

/-- Every name that a removed statement binds outside of braces, the namespace apart, is also the
name of a carried specifier, of a member, or of a statement that stays. -/
def HeadsBoundElsewhere (source : Bytes) (root : Node) (members : MemberSet)
    (moduleName namespaceName : String) : Prop :=
  ∀ declaration ∈ removedIn source root moduleName namespaceName,
    ∀ name ∈ declaration.heads, name ≠ namespaceName →
      (∃ other ∈ removedIn source root moduleName namespaceName,
        ∃ specifier ∈ other.specifiers, specifier.bound = name) ∨
      (name ∈ members.values ∨ name ∈ members.types) ∨
      ∃ kept ∈ keptIn source root moduleName namespaceName, name ∈ kept.boundNames

/-- **The names of removed statements stay bound exactly when those outside of braces are bound
elsewhere.** Names in braces are never lost. -/
theorem removed_names_stay_bound_iff (source : Bytes) (root : Node) (members : MemberSet)
    (moduleName namespaceName : String) (planned : List PlannedImport)
    (success : PlannedImport.plan members (removedIn source root moduleName namespaceName)
      moduleName = .ok planned) :
    NamesStayBound source root moduleName namespaceName planned ↔
      HeadsBoundElsewhere source root members moduleName namespaceName := by
  have bound : ∀ name, (∃ statement ∈ planned, name ∈ statement.boundNames) ↔
      (∃ other ∈ removedIn source root moduleName namespaceName,
        ∃ specifier ∈ other.specifiers, specifier.bound = name) ∨
      (name ∈ members.values ∨ name ∈ members.types) := by
    intro name
    rw [PlannedImport.exists_mem_boundNames success, MemberSet.exists_mem_side]
  constructor
  · intro stay declaration removed name head other
    have here := stay declaration removed name (List.mem_append_left _ head) other
    rwa [bound, or_assoc] at here
  · intro elsewhere declaration removed name listed other
    rw [bound, or_assoc]
    rcases List.mem_append.mp listed with head | inBraces
    · exact elsewhere declaration removed name head other
    · obtain ⟨specifier, written, same⟩ := List.mem_map.mp inBraces
      exact .inl ⟨declaration, removed, specifier, written, same⟩

theorem removed_names_stay_bound_hooks :
    NamesStayBound (Utf8.encode Sample.hooksText) Sample.hooksRoot "react" "React"
      Sample.hooksPlan := by
  refine (removed_names_stay_bound_iff (Utf8.encode Sample.hooksText) Sample.hooksRoot _ "react"
    "React" Sample.hooksPlan Sample.plan_hooks).mpr ?_
  unfold HeadsBoundElsewhere
  decide +kernel

/-- A default import next to the namespace is lost: the statement goes, nothing is planned, and
nothing stays. -/
theorem default_beside_namespace_lost :
    PlannedImport.plan {}
        (removedIn (Utf8.encode Sample.allText) Sample.allRoot "react" "React") "react" = .ok [] ∧
      ¬ NamesStayBound (Utf8.encode Sample.allText) Sample.allRoot "react" "React" [] := by
  constructor
  · rw [PlannedImport.plan_eq_ok_iff]
    decide +kernel
  · unfold NamesStayBound
    decide +kernel

/-! ## Names of statements that stay -/

/-- **A planned import binds a name of a statement that stays exactly when it is the name of a
member or of a carried specifier.** -/
theorem kept_name_bound_again_iff (source : Bytes) (language : Language) (options : Options)
    (root : Node) (change : ImportChange)
    (success : ImportChange.plan source root
      (.ofReferences (Reference.find source language options.namespaceName root)) options =
        .ok change) :
    ∃ planned, change.edits = ImportChange.editsOf source root options planned ∧
      PlannedImport.plan
        (.ofReferences (Reference.find source language options.namespaceName root))
        (removedIn source root options.moduleName options.namespaceName) options.moduleName =
          .ok planned ∧
      ∀ kept ∈ keptIn source root options.moduleName options.namespaceName,
        ∀ name ∈ kept.boundNames,
          (∃ statement ∈ planned, name ∈ statement.boundNames) ↔
            (∃ declaration ∈ removedIn source root options.moduleName options.namespaceName,
              ∃ specifier ∈ declaration.specifiers, specifier.bound = name) ∨
            ∃ reference ∈ Reference.find source language options.namespaceName root,
              reference.member = name := by
  obtain ⟨planned, hPlan, rfl⟩ := ImportChange.plan_eq_ok_iff.mp success
  refine ⟨planned, rfl, hPlan, ?_⟩
  intro kept _ name _
  rw [PlannedImport.exists_mem_boundNames hPlan, MemberSet.exists_mem_side_ofReferences]

theorem kept_name_bound_again_hooks :
    ∃ planned, PlannedImport.plan
        (.ofReferences
          (Reference.find (Utf8.encode Sample.hooksText) .tsx "React" Sample.hooksRoot))
        (removedIn (Utf8.encode Sample.hooksText) Sample.hooksRoot "react" "React") "react" =
          .ok planned ∧
      ∃ statement ∈ planned, "useState" ∈ statement.boundNames := by
  obtain ⟨planned, _, hPlan, again⟩ := kept_name_bound_again_iff (Utf8.encode Sample.hooksText) .tsx
    {} Sample.hooksRoot _ (ImportChange.plan_eq_ok_iff.mpr ⟨_, Sample.plan_hooks, rfl⟩)
  have member : ∃ reference ∈ Reference.find (Utf8.encode Sample.hooksText) .tsx "React"
      Sample.hooksRoot, reference.member = "useState" := by
    decide +kernel
  have kept : ∃ kept ∈ keptIn (Utf8.encode Sample.hooksText) Sample.hooksRoot "react" "React",
      "useState" ∈ kept.boundNames := by
    decide +kernel
  obtain ⟨declaration, stays, bound⟩ := kept
  exact ⟨planned, hPlan, (again declaration stays "useState" bound).mpr (.inr member)⟩

/-- A name that an import already binds is bound a second time when it is the name of a member. -/
theorem kept_import_redeclared :
    PlannedImport.plan
        (.ofReferences
          (Reference.find (Utf8.encode Sample.hooksText) .tsx "React" Sample.hooksRoot))
        (removedIn (Utf8.encode Sample.hooksText) Sample.hooksRoot "react" "React") "react" =
          .ok Sample.hooksPlan ∧
      ¬ ∀ statement ∈ Sample.hooksPlan, ∀ name ∈ statement.boundNames,
        ∀ kept ∈ keptIn (Utf8.encode Sample.hooksText) Sample.hooksRoot "react" "React",
          name ∉ kept.boundNames :=
  ⟨Sample.plan_hooks, by decide +kernel⟩

end ImportDeclaration

end Unqualify
