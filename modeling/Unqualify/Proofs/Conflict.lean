import Unqualify.Proofs.Frame
import Unqualify.Proofs.Qualified

/-!
# When the edits of a unit conflict

The edits of a unit are made apart from each other: one inserts the planned imports, some delete
statements together with the rest of their lines, and some replace references. They are applied
together, and this fails when two of them overlap.

New imports are inserted between the statements of a unit, so the insertion overlaps nothing. A
deletion reaches beyond its statement only over blanks and a line end, and the next statement begins
with neither, so no two deletions overlap. References lie apart from each other, and a reference in
another statement lies apart from a deletion. What is left is a reference inside a statement that is
removed, and there the edits do conflict (`edits_conflict_iff`).
-/

set_option autoImplicit false

namespace Unqualify

/-- A node covers some octets, and the first of them is no blank and no line end. -/
def Node.Visible (source : Bytes) (node : Node) : Prop :=
  node.start < node.stop ∧ source[node.start]?.any ImportChange.isSpaceOctet = false

/-- A tree of a text as parsers give it, as far as the ranges of its edits depend on it. -/
structure Node.Orderly (source : Bytes) (language : Language) (namespaceName : String)
    (root : Node) : Prop where
  wellFormed : root.WellFormed source
  /-- The root is no reference. -/
  notRoot : ∀ reference, ¬ Reference.Stands source language namespaceName ⟨root, []⟩ reference
  /-- Two-part names contain no further qualified name. -/
  plain : root.TwoPartsPlain
  /-- Top-level nodes begin with an octet that can be seen. -/
  visible : ∀ child ∈ root.children, child.Visible source
  /-- References are not empty. -/
  nonempty : ∀ reference ∈ Reference.find source language namespaceName root,
    reference.node.start < reference.node.stop

/-- A reference lies inside an import statement. -/
def Reference.LiesIn (reference : Reference) (declaration : ImportDeclaration) : Prop :=
  declaration.start ≤ reference.node.start ∧ reference.node.stop ≤ declaration.stop

/-! ## Top-level nodes -/

section TopLevel

variable {source : Bytes} {root : Node}

/-- The deletion of a statement ends before the next top-level node that can be seen. -/
theorem ImportChange.removal_stop_le_start {statement child : Node}
    (later : statement.stop ≤ child.start)
    (inside : child.stop ≤ source.length) (visible : child.Visible source) :
    (removal source (.ofNode source statement)).stop ≤ child.start := by
  obtain ⟨nonempty, begins⟩ := visible
  have exists_octet : source[child.start]? = some (source.get ⟨child.start, by omega⟩) :=
    List.getElem?_eq_getElem (by omega)
  rw [exists_octet, Option.any_some] at begins
  exact removalStop_le later exists_octet begins

/-- The deletion of a statement lies apart from every other top-level node. -/
theorem ImportChange.removal_apart (wellFormed : root.WellFormed source)
    (visible : ∀ child ∈ root.children, child.Visible source) {statement child : Node}
    (isStatement : statement ∈ root.children) (isChild : child ∈ root.children)
    (different : statement ≠ child) :
    (removal source (.ofNode source statement)).stop ≤ child.start ∨
      child.stop ≤ statement.start := by
  have here := Node.root_mem_occurrences root
  have inside := (wellFormed.inBounds (Node.child_mem_occurrences here isChild)).2
  rcases wellFormed.siblings_apart here isStatement isChild different with before | after
  · exact .inl (removal_stop_le_start before inside (visible child isChild))
  · exact .inr after

/-- **No two deletions overlap.** -/
theorem ImportChange.removals_pairwise_apart (wellFormed : root.WellFormed source)
    (visible : ∀ child ∈ root.children, child.Visible source) (moduleName namespaceName : String) :
    ((ImportDeclaration.removedIn source root moduleName namespaceName).map
      (removal source)).Pairwise Edit.Apart := by
  obtain ⟨statements, sublist, _, same⟩ := ImportDeclaration.exists_filter_ofRoot_eq_map source root
    fun declaration => declaration.isOf moduleName && declaration.binds namespaceName
  rw [ImportDeclaration.removedIn, ImportDeclaration.binding, same, List.map_map, List.pairwise_map]
  have here := Node.root_mem_occurrences root
  apply (List.Pairwise.sublist sublist (wellFormed.ordered _ here)).imp_of_mem
  intro before after _ isAfter ordered
  have member := sublist.subset isAfter
  have inside := (wellFormed.inBounds (Node.child_mem_occurrences here member)).2
  exact .inl (removal_stop_le_start ordered inside (visible after member))

/-- The edits of the imports do not overlap. -/
theorem ImportChange.editsOf_pairwise_apart (wellFormed : root.WellFormed source)
    (visible : ∀ child ∈ root.children, child.Visible source) (options : Options)
    (planned : List PlannedImport) : (editsOf source root options planned).Pairwise Edit.Apart := by
  refine List.pairwise_append.mpr ⟨?_, removals_pairwise_apart wellFormed visible _ _, ?_⟩
  · split
    · exact .nil
    · exact List.pairwise_singleton _ _
  · intro inserted isInsertion deleted isDeletion
    obtain ⟨declaration, removed, rfl⟩ := List.mem_map.mp isDeletion
    split at isInsertion
    · exact nomatch isInsertion
    · rw [List.mem_singleton.mp isInsertion]
      exact .inl (ImportDeclaration.find_le_start wellFormed removed)

end TopLevel

/-! ## References and the other edits -/

namespace Node.Orderly

variable {source : Bytes} {language : Language} {root : Node} {options : Options}
  (orderly : root.Orderly source language options.namespaceName)

include orderly

/-- A reference lies in a top-level node. -/
theorem exists_child_covers {reference : Reference}
    (found : reference ∈ Reference.find source language options.namespaceName root) :
    ∃ child ∈ root.children,
      child.start ≤ reference.node.start ∧ reference.node.stop ≤ child.stop := by
  obtain ⟨occurrence, occurs, stands⟩ := Reference.exists_stands_of_mem_find found
  rw [stands.node_eq]
  rcases Node.mem_occurrencesBelow.mp occurs with rfl | ⟨child, isChild, below⟩
  · exact absurd stands (orderly.notRoot reference)
  · have here := Node.child_mem_occurrences (Node.root_mem_occurrences root) isChild
    exact ⟨child, isChild, orderly.wellFormed.within here below⟩

/-- New imports are not inserted inside a reference. -/
theorem find_apart_reference {reference : Reference}
    (found : reference ∈ Reference.find source language options.namespaceName root) :
    ImportPosition.find source root ≤ reference.node.start ∨
      reference.node.stop ≤ ImportPosition.find source root := by
  obtain ⟨child, isChild, covers⟩ := orderly.exists_child_covers found
  rcases ImportPosition.find_le_start_or_stop_le_find orderly.wellFormed isChild with before | after
  · exact .inl (Nat.le_trans before covers.1)
  · exact .inr (Nat.le_trans covers.2 after)

/-- **A deletion and the replacement of a reference lie apart exactly when the reference is not
inside the deleted statement.** -/
theorem removal_apart_bare_iff {declaration : ImportDeclaration}
    (removed : declaration ∈
      ImportDeclaration.removedIn source root options.moduleName options.namespaceName)
    {reference : Reference}
    (found : reference ∈ Reference.find source language options.namespaceName root) :
    Edit.Apart (ImportChange.removal source declaration) reference.bare ↔
      ¬ reference.LiesIn declaration := by
  obtain ⟨statement, isStatement, _, rfl⟩ :=
    ImportDeclaration.exists_statement_of_mem_removedIn removed
  constructor
  · -- The deletion covers the statement, and the reference is not empty.
    rintro (before | after) ⟨starts, stops⟩
    · have reaches := ImportChange.le_removalStop statement.stop (source.drop statement.stop)
      have nonempty := orderly.nonempty reference found
      have ends : statement.stop ≤ reference.node.start := Nat.le_trans reaches before
      have within : reference.node.stop ≤ statement.stop := stops
      omega
    · have nonempty := orderly.nonempty reference found
      have early : reference.node.stop ≤ statement.start := after
      have within : statement.start ≤ reference.node.start := starts
      omega
  · intro outside
    obtain ⟨child, isChild, covers⟩ := orderly.exists_child_covers found
    have different : statement ≠ child := by
      rintro rfl
      exact outside covers
    rcases ImportChange.removal_apart orderly.wellFormed orderly.visible isStatement isChild
      different with before | after
    · exact .inl (Nat.le_trans before covers.1)
    · exact .inr (Nat.le_trans covers.2 after)

/-- No edit reaches out of the text. -/
theorem edits_inBounds {planned : List PlannedImport} {edit : Edit}
    (member : edit ∈ ImportChange.editsOf source root options planned ++
      (Reference.find source language options.namespaceName root).map Reference.bare) :
    edit.start ≤ edit.stop ∧ edit.stop ≤ source.length := by
  rcases List.mem_append.mp member with ofImports | replaced
  · rcases ImportChange.mem_editsOf_cases ofImports with
      ⟨starts, stops⟩ | ⟨declaration, removed, rfl⟩
    · rw [starts, stops]
      exact ⟨Nat.le_refl _, ImportPosition.find_le_length orderly.wellFormed⟩
    · obtain ⟨statement, isStatement, _, rfl⟩ :=
        ImportDeclaration.exists_statement_of_mem_removedIn removed
      have bounds := orderly.wellFormed.inBounds
        (Node.child_mem_occurrences (Node.root_mem_occurrences root) isStatement)
      exact ⟨Nat.le_trans bounds.1 (ImportChange.le_removalStop _ _),
        ImportChange.removalStop_le_length bounds.2⟩
  · obtain ⟨reference, found, rfl⟩ := List.mem_map.mp replaced
    obtain ⟨occurrence, occurs, stands⟩ := Reference.exists_stands_of_mem_find found
    have bounds := orderly.wellFormed.inBounds occurs
    rwa [← stands.node_eq] at bounds

/-- New imports are inserted in front of an edit or behind it. -/
theorem find_apart_edits {planned : List PlannedImport} {edit : Edit}
    (member : edit ∈ ImportChange.editsOf source root options planned ++
      (Reference.find source language options.namespaceName root).map Reference.bare) :
    ImportPosition.find source root ≤ edit.start ∨
      edit.stop ≤ ImportPosition.find source root := by
  rcases List.mem_append.mp member with ofImports | replaced
  · rcases ImportChange.mem_editsOf_cases ofImports with ⟨starts, _⟩ | ⟨declaration, removed, rfl⟩
    · exact .inl (Nat.le_of_eq starts.symm)
    · exact .inl (ImportDeclaration.find_le_start orderly.wellFormed removed)
  · obtain ⟨reference, found, rfl⟩ := List.mem_map.mp replaced
    exact orderly.find_apart_reference found

/-- **The edits of a unit fit together exactly when no reference lies inside a removed
statement.** -/
theorem edits_fit_iff (planned : List PlannedImport) :
    Edit.Fits source (ImportChange.editsOf source root options planned ++
        (Reference.find source language options.namespaceName root).map Reference.bare) ↔
      ∀ reference ∈ Reference.find source language options.namespaceName root,
        ∀ declaration ∈
          ImportDeclaration.removedIn source root options.moduleName options.namespaceName,
          ¬ reference.LiesIn declaration := by
  constructor
  · intro fits reference found declaration removed
    obtain ⟨_, _, apart⟩ := List.pairwise_append.mp fits.apart
    refine (orderly.removal_apart_bare_iff removed found).mp (apart _ ?_ _ ?_)
    · exact List.mem_append_right _ (List.mem_map_of_mem removed)
    · exact List.mem_map_of_mem found
  · intro outside
    refine ⟨fun edit member => orderly.edits_inBounds member, List.pairwise_append.mpr ⟨?_, ?_, ?_⟩⟩
    · exact ImportChange.editsOf_pairwise_apart orderly.wellFormed orderly.visible options planned
    · rw [List.pairwise_map]
      exact Reference.find_pairwise_apart orderly.wellFormed orderly.plain _ _
    · intro edit ofImports replaced isReplacement
      obtain ⟨reference, found, rfl⟩ := List.mem_map.mp isReplacement
      rcases ImportChange.mem_editsOf_cases ofImports with
        ⟨starts, stops⟩ | ⟨declaration, removed, rfl⟩
      · rw [Edit.Apart, starts, stops]
        exact orderly.find_apart_reference found
      · exact (orderly.removal_apart_bare_iff removed found).mpr (outside reference found _ removed)

end Node.Orderly

namespace SourceUnit

/-- **The edits of a unit conflict exactly when a reference lies inside a removed statement.**
Whether they do or not, every edit lies in the text, new imports are not inserted inside the range
of another edit, and no two deletions overlap. -/
theorem edits_conflict_iff (source : Bytes) (language : Language) (options : Options) (root : Node)
    (change : ImportChange) (orderly : root.Orderly source language options.namespaceName)
    (success : ImportChange.plan source root
      (.ofReferences (Reference.find source language options.namespaceName root)) options =
        .ok change) :
    let references := Reference.find source language options.namespaceName root
    let removed :=
      ImportDeclaration.removedIn source root options.moduleName options.namespaceName
    let edits := change.edits ++ Reference.edits references (.ofReferences references)
    ((∃ conflict, Edit.applyAll source edits = .error conflict) ↔
        ∃ reference ∈ references, ∃ declaration ∈ removed, reference.LiesIn declaration) ∧
      (∀ edit ∈ edits, edit.start ≤ edit.stop ∧ edit.stop ≤ source.length) ∧
      (∀ edit ∈ edits, ¬ (edit.start < ImportPosition.find source root ∧
        ImportPosition.find source root < edit.stop)) ∧
      (removed.map (ImportChange.removal source)).Pairwise Edit.Apart := by
  intro references removed edits
  obtain ⟨planned, _, rfl⟩ := ImportChange.plan_eq_ok_iff.mp success
  have listed : edits = ImportChange.editsOf source root options planned ++
      references.map Reference.bare :=
    congrArg (ImportChange.editsOf source root options planned ++ ·)
      (Reference.edits_ofReferences source language options.namespaceName root)
  rw [listed]
  refine ⟨?_, fun edit member => orderly.edits_inBounds member, ?_, ?_⟩
  · rw [Edit.exists_applyAll_eq_error_iff, orderly.edits_fit_iff planned]
    simp only [not_forall, not_not, exists_prop]
    rfl
  · rintro edit member ⟨starts, stops⟩
    rcases orderly.find_apart_edits member with before | after <;> omega
  · exact ImportChange.removals_pairwise_apart orderly.wellFormed orderly.visible _ _

end SourceUnit

namespace Sample

/-- A unit whose only import of the namespace has a reference in its attributes. -/
def attributeText : String :=
  "import React from 'react' with \x7b type: React.x \x7d;\n"

def attributeRoot : Node :=
  branch "program" 0 50 [
    branch "import_statement" 0 49 [
      token "import" 0 6,
      branch "import_clause" 7 12 [branch "identifier" 7 12 []],
      token "from" 13 17, reactLiteral 18,
      branch "import_attribute" 26 48 [
        token "with" 26 30,
        branch "object" 31 48 [
          token "\x7b" 31 32,
          branch "pair" 33 46 [
            filling "key" "property_identifier" 33 37 [],
            token ":" 37 38,
            filling "value" "member_expression" 39 46 [
              filling "object" "identifier" 39 44 [],
              token "." 44 45,
              filling "property" "property_identifier" 45 46 []]],
          token "\x7d" 47 48]],
      token ";" 48 49]]

theorem plan_attribute :
    PlannedImport.plan
      (.ofReferences (Reference.find (Utf8.encode attributeText) .tsx "React" attributeRoot))
      (ImportDeclaration.removedIn (Utf8.encode attributeText) attributeRoot "react" "React")
      "react" = .ok [⟨[.plain "x"], "react", false⟩] := by
  rw [PlannedImport.plan_eq_ok_iff]
  decide +kernel

theorem orderly_attribute :
    attributeRoot.Orderly (Utf8.encode attributeText) .tsx ({} : Options).namespaceName where
  wellFormed := by constructor <;> decide +kernel
  notRoot reference stands := absurd stands.kind_mem (by decide)
  plain := by unfold Node.TwoPartsPlain; decide +kernel
  visible := by unfold Node.Visible; decide +kernel
  nonempty := by decide +kernel

end Sample

/-- A reference in the attributes of the import that is removed makes the edits conflict. -/
theorem SourceUnit.edits_conflict_attribute :
    ∃ change,
      ImportChange.plan (Utf8.encode Sample.attributeText) Sample.attributeRoot
        (.ofReferences (Reference.find (Utf8.encode Sample.attributeText) .tsx "React"
          Sample.attributeRoot)) {} = .ok change ∧
      ∃ conflict, Edit.applyAll (Utf8.encode Sample.attributeText)
        (change.edits ++ Reference.edits
          (Reference.find (Utf8.encode Sample.attributeText) .tsx "React" Sample.attributeRoot)
          (.ofReferences (Reference.find (Utf8.encode Sample.attributeText) .tsx "React"
            Sample.attributeRoot))) = .error conflict := by
  refine ⟨_, ImportChange.plan_eq_ok_iff.mpr ⟨_, Sample.plan_attribute, rfl⟩, ?_⟩
  refine (edits_conflict_iff (Utf8.encode Sample.attributeText) .tsx {} Sample.attributeRoot _
    Sample.orderly_attribute
    (ImportChange.plan_eq_ok_iff.mpr ⟨_, Sample.plan_attribute, rfl⟩)).1.mpr ?_
  unfold Reference.LiesIn
  decide +kernel

end Unqualify
