import Mathlib.Data.List.Forall2
import Unqualify.Proofs.Import.Binding
import Unqualify.Proofs.Import.Position
import Unqualify.Proofs.SourceUnit

/-!
# What a transform changes

A transform makes three sorts of changes. It inserts one block of imports, it deletes the statements
that bind the namespace, and it replaces references by bare names. The output is the text with these
changes and no others (`transform_changes_only`): the changes lie in the text and do not overlap,
every octet that none of them covers is kept in its order, and the text up to the block is as it
was.

That nothing changes before the block rests on where references can stand. Only a part of the header
comes before the block, and references do not stand in tokens, comments, hashbang lines and strings.
-/

set_option autoImplicit false

namespace Unqualify

/-! ## Where references can stand -/

/-- References stand in code: not at the root, and not at or below tokens, comments, hashbang lines
and strings. -/
structure Reference.OnlyInCode (source : Bytes) (language : Language) (namespaceName : String)
    (root : Node) : Prop where
  notRoot : ∀ reference, ¬ Stands source language namespaceName ⟨root, []⟩ reference
  notInside : ∀ outer ∈ root.occurrences,
    outer.node.named = false ∨ outer.node.kind ∈ ["comment", "hash_bang_line", "string"] →
      ∀ inner ∈ outer.node.occurrencesBelow outer.ancestors, ∀ reference,
        ¬ Stands source language namespaceName inner reference

section Header

variable {source : Bytes} {language : Language} {namespaceName : String} {root : Node}

theorem Reference.OnlyInCode.not_stands_of_mem_header
    (onlyInCode : OnlyInCode source language namespaceName root) {child : Node}
    (member : child ∈ ImportPosition.header root) {inner : Occurrence}
    (below : inner ∈ child.occurrencesBelow [root]) (reference : Reference) :
    ¬ Stands source language namespaceName inner reference := by
  intro stands
  have isChild : child ∈ root.children := List.takeWhile_subset _ member
  have occurs : ⟨child, [root]⟩ ∈ root.occurrences :=
    Node.child_mem_occurrences (Node.root_mem_occurrences root) isChild
  rcases ImportPosition.isHeader_cases (List.mem_takeWhile_imp member) with
    comment | hashbang | ⟨statement, parts⟩
  · exact onlyInCode.notInside _ occurs (.inr (by simp [comment])) inner below reference stands
  · exact onlyInCode.notInside _ occurs (.inr (by simp [hashbang])) inner below reference stands
  · -- A directive is no reference itself, and it has nothing in it but tokens and the string.
    rcases Node.mem_occurrencesBelow.mp below with rfl | ⟨part, isPart, inPart⟩
    · have kind := stands.kind_mem
      rw [statement] at kind
      exact absurd kind (by decide)
    · have partOccurs := Node.child_mem_occurrences occurs isPart
      have plain : part.named = false ∨ part.kind ∈ ["comment", "hash_bang_line", "string"] := by
        rcases parts part isPart with token | string
        · exact .inl token
        · exact .inr (by simp [string])
      exact onlyInCode.notInside _ partOccurs plain inner inPart reference stands

/-- **New imports come in front of every reference.** -/
theorem Reference.OnlyInCode.find_le_start
    (onlyInCode : OnlyInCode source language namespaceName root)
    (wellFormed : root.WellFormed source) {reference : Reference}
    (found : reference ∈ Reference.find source language namespaceName root) :
    ImportPosition.find source root ≤ reference.node.start := by
  obtain ⟨occurrence, occurs, stands⟩ := Reference.exists_stands_of_mem_find found
  rw [stands.node_eq]
  rcases Node.mem_occurrencesBelow.mp occurs with rfl | ⟨child, isChild, below⟩
  · exact absurd stands (onlyInCode.notRoot reference)
  rcases ImportPosition.mem_children_iff.mp isChild with inHeader | isStatement
  · exact absurd stands (onlyInCode.not_stands_of_mem_header inHeader below reference)
  · have childOccurs := Node.child_mem_occurrences (Node.root_mem_occurrences root) isChild
    exact Nat.le_trans (ImportPosition.find_le_start wellFormed isStatement)
      (wellFormed.within childOccurs below).1

/-- New imports come in front of every import statement. -/
theorem ImportDeclaration.find_le_start (wellFormed : root.WellFormed source)
    {moduleName : String} {declaration : ImportDeclaration}
    (member : declaration ∈ removedIn source root moduleName namespaceName) :
    ImportPosition.find source root ≤ declaration.start := by
  obtain ⟨statement, isChild, kind, rfl⟩ := exists_statement_of_mem_removedIn member
  rcases ImportPosition.mem_children_iff.mp isChild with inHeader | isStatement
  · rcases ImportPosition.isHeader_cases (List.mem_takeWhile_imp inHeader) with
      other | other | ⟨other, _⟩ <;> exact absurd (kind.symm.trans other) (by decide)
  · exact ImportPosition.find_le_start wellFormed isStatement

end Header

/-! ## The changes -/

/-- An output that is a text with the given changes and no others, where `inserted` is what new
imports put at the offset `position`. -/
structure Frame (source : Bytes) (position : Nat) (inserted : String) (changes : List Edit)
    (output : Bytes) : Prop where
  /-- The changes lie in the text and do not overlap. -/
  fits : Edit.Fits source changes
  /-- Offset by offset, the output has what is new there and what is kept. -/
  exact : output = Edit.outcome source changes
  /-- Every octet that no change covers is there, in its order. -/
  keeps : (Edit.kept source changes).Sublist output
  /-- Up to the block of imports the text is as it was, and the block follows. -/
  begins : source.take position ++ Utf8.encode inserted <+: output

/-- Changes that fit give a frame when none of them begins before the block and the block comes
first. -/
theorem frame_of_applyAll {source output : Bytes} {position : Nat}
    (inside : position ≤ source.length)
    {inserted : String} {changes : List Edit}
    (later : ∀ change ∈ changes, position ≤ change.start)
    (first : Utf8.encode inserted <+: Edit.texts (changes.filter (Edit.insertsAt position)))
    (applied : Edit.applyAll source changes = .ok output) :
    Frame source position inserted changes output := by
  have exact := Edit.eq_outcome_of_applyAll applied
  refine ⟨Edit.fits_of_applyAll applied, exact, ?_, ?_⟩
  · rw [exact]
    exact Edit.kept_sublist_outcome source changes
  · rw [exact]
    exact ((List.prefix_append_right_inj _).mpr first).trans
      (Edit.take_append_prefix_outcome inside later)

namespace SourceUnit

variable (unit : SourceUnit) (parser : Parser) (options : Options)

def position : Nat :=
  ImportPosition.find unit.source (unit.root parser)

/-- The block of planned imports, each followed by the line end of the unit. A line end comes first
when the block stands at the end of a text whose last line is open. -/
def blockText (planned : List PlannedImport) : String :=
  let style := CodeStyle.detect unit.text
  let declarations := ImportDeclaration.ofRoot unit.source (unit.root parser)
  let quote := ImportChange.quoteMark declarations options style
  let semicolon := ImportChange.semicolon declarations options style
  (if unit.position parser = unit.source.length ∧ unit.source ≠ [] ∧
      unit.source.getLast? ≠ some lineFeed then style.newline else "") ++
    String.join (planned.map fun statement => statement.render quote semicolon ++ style.newline)

/-- What is inserted: one block, or nothing when nothing is planned. -/
def insertedText (planned : List PlannedImport) : String :=
  if planned = [] then "" else unit.blockText parser options planned

/-- The changes of a unit for a plan of its imports and the deletions of the removed statements. -/
def changes (planned : List PlannedImport) (deletions : List Edit) : List Edit :=
  (if planned = [] then []
    else [⟨unit.position parser, unit.position parser, unit.blockText parser options planned⟩]) ++
    deletions ++ (unit.references parser options).map Reference.bare

variable {unit parser options}

theorem insertion_eq (planned : List PlannedImport) :
    ImportChange.insertion unit.source (unit.root parser)
        (ImportDeclaration.ofRoot unit.source (unit.root parser)) options planned =
      ⟨unit.position parser, unit.position parser, unit.blockText parser options planned⟩ := by
  have text : Utf8.decodeOrEmpty unit.source = unit.text := Utf8.decodeOrEmpty_encode unit.text
  have openEnd : (unit.source.getLast?.any fun octet => octet != lineFeed) = true ↔
      unit.source ≠ [] ∧ unit.source.getLast? ≠ some lineFeed := by
    cases last : unit.source.getLast? with
    | none => simp [List.getLast?_eq_none_iff.mp last]
    | some octet =>
        have nonempty : unit.source ≠ [] := by
          intro empty
          rw [empty] at last
          exact nomatch last
        simp [nonempty]
  have placed : ImportPosition.find unit.source (unit.root parser) = unit.position parser := rfl
  rw [ImportChange.insertion, text, placed, blockText, ImportChange.block]
  simp only [Bool.and_eq_true, beq_iff_eq, openEnd]
  split
  · rfl
  · rw [String.empty_append]

theorem editsFor_eq_changes (planned : List PlannedImport) :
    unit.editsFor parser options planned =
      unit.changes parser options planned
        ((unit.removed parser options).map (ImportChange.removal unit.source)) := by
  rw [editsFor, changes, ImportChange.editsOf, insertion_eq]
  simp only [List.isEmpty_iff]
  rfl

/-- No change of a unit begins before its block of imports. -/
theorem position_le_start (wellFormed : (unit.root parser).WellFormed unit.source)
    (onlyInCode : Reference.OnlyInCode unit.source unit.language options.namespaceName
      (unit.root parser)) {planned : List PlannedImport} {change : Edit}
    (member : change ∈ unit.changes parser options planned
      ((unit.removed parser options).map (ImportChange.removal unit.source))) :
    unit.position parser ≤ change.start := by
  rw [changes, List.mem_append, List.mem_append] at member
  rcases member with (inserted | deleted) | replaced
  · split at inserted
    · exact nomatch inserted
    · rw [List.mem_singleton.mp inserted]
  · obtain ⟨declaration, among, rfl⟩ := List.mem_map.mp deleted
    exact ImportDeclaration.find_le_start wellFormed among
  · obtain ⟨reference, found, rfl⟩ := List.mem_map.mp replaced
    exact onlyInCode.find_le_start wellFormed found

/-- The block of a unit comes first among what is inserted at its offset. -/
theorem insertedText_prefix_texts (planned : List PlannedImport) (deletions : List Edit) :
    Utf8.encode (unit.insertedText parser options planned) <+:
      Edit.texts ((unit.changes parser options planned deletions).filter
        (Edit.insertsAt (unit.position parser))) := by
  rw [insertedText, changes]
  split
  · exact List.nil_prefix
  · rw [List.append_assoc, List.singleton_append,
      List.filter_cons_of_pos (by simp [Edit.insertsAt]), Edit.texts, List.flatMap_cons]
    exact List.prefix_append _ _

/-- **A transform changes nothing but the imports and the references.** The output is the text with
one block of planned imports at the insertion point, with the removed statements deleted, each with
the rest of its line when that is blank, and with every reference replaced by the name of its
member. -/
theorem transform_changes_only {transformed : Transformed}
    (wellFormed : (unit.root parser).WellFormed unit.source)
    (onlyInCode : Reference.OnlyInCode unit.source unit.language options.namespaceName
      (unit.root parser))
    (success : unit.transform parser options = .ok transformed) :
    ∃ planned deletions,
      PlannedImport.plan (.ofReferences (unit.references parser options))
          (unit.removed parser options) options.moduleName = .ok planned ∧
        List.Forall₂ (ImportChange.Deletes unit.source) (unit.removed parser options) deletions ∧
        Frame unit.source (unit.position parser) (unit.insertedText parser options planned)
          (unit.changes parser options planned deletions) (Utf8.encode transformed.output) := by
  obtain ⟨planned, plan, applied⟩ := applyAll_of_transform success
  rw [editsFor_eq_changes] at applied
  refine ⟨planned, (unit.removed parser options).map (ImportChange.removal unit.source), plan, ?_,
    ?_⟩
  · rw [List.forall₂_map_right_iff]
    exact List.forall₂_same.mpr fun declaration _ => ImportChange.deletes_removal _ declaration
  · exact frame_of_applyAll (ImportPosition.find_le_length wellFormed)
      (fun change member => position_le_start wellFormed onlyInCode member)
      (insertedText_prefix_texts planned _) applied

end SourceUnit

namespace Sample

/-- The first unit, with a parser that knows its tree. -/
def hooksUnit : SourceUnit where
  text := hooksText

def hooksParser : Parser :=
  fun _ _ _ => ⟨hooksRoot, fun _ => true⟩

/-- The first unit after its transform. The kept import stays where it was. -/
def hooksOutput : String :=
  "import \x7b useRef, useState \x7d from 'react';\nimport \x7b useState \x7d from 'react';\n" ++
    "useState(0);\n"

theorem wellFormed_hooks : (hooksUnit.root hooksParser).WellFormed hooksUnit.source where
  inSource := by decide +kernel
  forward := by decide +kernel
  inParent := by decide +kernel
  ordered := by decide +kernel

theorem onlyInCode_hooks :
    Reference.OnlyInCode hooksUnit.source hooksUnit.language ({} : Options).namespaceName
      (hooksUnit.root hooksParser) where
  notRoot reference stands := absurd stands.kind_mem (by decide)
  notInside outer occurs plain inner below reference stands := by
    have free : ∀ outer ∈ hooksRoot.occurrences,
        outer.node.named = false ∨ outer.node.kind ∈ ["comment", "hash_bang_line", "string"] →
          ∀ inner ∈ outer.node.occurrencesBelow outer.ancestors, inner.node.kind ∉
            ["member_expression", "nested_type_identifier", "nested_identifier"] := by
      decide +kernel
    exact free outer occurs plain inner below stands.kind_mem

/-- The edits of the first unit: the block, the deletion with its line end, and the reference. -/
theorem editsFor_hooks :
    hooksUnit.editsFor hooksParser {} hooksPlan =
      [⟨0, 0, "import \x7b useRef, useState \x7d from 'react';\n"⟩, ⟨0, 39, ""⟩,
        ⟨73, 87, "useState"⟩] := by
  decide +kernel

theorem applyAll_hooks :
    Edit.applyAll hooksUnit.source (hooksUnit.editsFor hooksParser {} hooksPlan) =
      .ok (Utf8.encode hooksOutput) := by
  rw [editsFor_hooks]
  exact Edit.applyAll_of_pairwise (by decide) (by decide +kernel)

theorem transform_hooks :
    hooksUnit.transform hooksParser {} =
      .ok ⟨hooksText, hooksOutput, ⟨["useState"], []⟩, 1, 1⟩ := by
  refine SourceUnit.transform_eq_ok_iff.mpr ⟨rfl, hooksPlan, plan_hooks, .inr ⟨?_, hooksOutput,
    applyAll_hooks, rfl, ?_⟩⟩
  · rw [editsFor_hooks]
    exact List.cons_ne_nil _ _
  · decide +kernel

end Sample

theorem SourceUnit.transform_changes_only_hooks :
    Sample.hooksUnit.transform Sample.hooksParser {} =
        .ok ⟨Sample.hooksText, Sample.hooksOutput, ⟨["useState"], []⟩, 1, 1⟩ ∧
      ∃ planned deletions,
        PlannedImport.plan (.ofReferences (Sample.hooksUnit.references Sample.hooksParser {}))
            (Sample.hooksUnit.removed Sample.hooksParser {}) ({} : Options).moduleName =
              .ok planned ∧
          List.Forall₂ (ImportChange.Deletes Sample.hooksUnit.source)
            (Sample.hooksUnit.removed Sample.hooksParser {}) deletions ∧
          Frame Sample.hooksUnit.source (Sample.hooksUnit.position Sample.hooksParser)
            (Sample.hooksUnit.insertedText Sample.hooksParser {} planned)
            (Sample.hooksUnit.changes Sample.hooksParser {} planned deletions)
            (Utf8.encode Sample.hooksOutput) := by
  have changes := transform_changes_only Sample.wellFormed_hooks Sample.onlyInCode_hooks
    Sample.transform_hooks
  exact ⟨Sample.transform_hooks, changes⟩

end Unqualify
