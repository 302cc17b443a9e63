import Unqualify.Proofs.Agreement
import Unqualify.Proofs.Copy
import Unqualify.Proofs.Rewriting

/-!
# Transforming the output once more

A transform leaves no import of the namespace behind, and almost no reference. A name of more than
two parts, such as `React.React.version`, holds a shorter one, and when that is replaced by a name
that is the namespace again, the rest becomes a reference. This is the one exception: in front of
the dot of every reference of the output there is a leaf that a transform has written
(`Node.Rewriting.exists_written_object`). Every other qualified name is either replaced or was none
of the references before, and then it is none afterwards.

So the output is left as it is by the next transform when the namespace is not the name of a value
that was reached through it (`SourceUnit.transform_idempotent`).
-/

set_option autoImplicit false

namespace Unqualify

/-! ## References of the output -/

namespace Node

/-- The identifier in front of the last dot of a name has a counterpart. When the counterpart says
the same, it stands in front of the last dot as well. -/
theorem Leads.exists_origin {R : Node → Node → Prop} {name other object : Node}
    (leads : object.Leads other) (named : ∀ node other, R node other → node.named = other.named)
    (related : List.Forall₂ R name.children other.children) :
    ∃ origin, R origin object ∧ (origin.SameButRange object → origin.Leads name) := by
  obtain ⟨isChild, kind, place⟩ := leads
  have ofField (field : object.field = some "object" ∨ object.field = some "module") :
      ∃ origin, R origin object ∧ (origin.SameButRange object → origin.Leads name) := by
    obtain ⟨sameLength, paired⟩ := List.forall₂_iff_zip.mp related
    obtain ⟨origin, isPair⟩ := exists_mem_zip_of_mem_right (Nat.le_of_eq sameLength.symm) isChild
    have isOrigin := (List.of_mem_zip isPair).1
    refine ⟨origin, paired isPair, fun same => ⟨isOrigin, ?_, ?_⟩⟩
    · rwa [same.kind_eq] at kind
    · rw [same.field_eq] at field
      exact field.imp_right .inl
  rcases place with isObject | isModule | first
  · exact ofField (.inl isObject)
  · exact ofField (.inr isModule)
  · obtain ⟨rest, others⟩ := List.head?_eq_some_iff.mp first
    have namedRelated := rel_namedChildren named related
    rw [others] at namedRelated
    obtain ⟨origin, _, isFirst, _, firsts⟩ := List.forall₂_cons_right_iff.mp namedRelated
    have isNamed : origin ∈ name.namedChildren := firsts ▸ List.mem_cons_self
    have isOrigin := (List.mem_filter.mp isNamed).1
    refine ⟨origin, isFirst, fun same => ⟨isOrigin, ?_, .inr (.inr ?_)⟩⟩
    · rwa [same.kind_eq] at kind
    · rw [firsts, List.head?_cons]

namespace Rewriting

variable {source output : Bytes} {language : Language} {options : Options} {root written : Node}
  {rewriting : Rewriting source output language options root written}
  {pair : Occurrence × Occurrence} {reference : Reference}

/-- A node at which a reference stands in the second tree was kept. -/
theorem keptAs_of_stands (isPair : pair ∈ rewriting.pairs)
    (stands : Reference.Stands output language options.namespaceName pair.2 reference) :
    (∀ earlier, ¬ Reference.Stands source language options.namespaceName pair.1 earlier) ∧
      pair.1.KeptAs source output language options.namespaceName pair.2 := by
  have disjoint : ∀ kind ∈ ["member_expression", "nested_type_identifier", "nested_identifier"],
      kind ∉ ["type_identifier", "identifier"] := by decide
  exact (rewriting.becomes pair isPair).kept_of_kind (disjoint _ stands.kind_mem)

/-- A two-part name that is no reference is none when it is kept. -/
theorem not_stands_of_isTwoPart (plain : root.TwoPartsPlain) (isPair : pair ∈ rewriting.pairs)
    (twoPart : pair.1.node.isTwoPart = true) :
    ¬ Reference.Stands output language options.namespaceName pair.2 reference := by
  intro stands
  obtain ⟨none, keptAs⟩ := keptAs_of_stands isPair stands
  have copies :
      List.Forall₂ (CopiedTo source output) pair.1.node.children pair.2.node.children := by
    obtain ⟨sameLength, paired⟩ := List.forall₂_iff_zip.mp (children_paired isPair keptAs)
    refine List.forall₂_iff_zip.mpr ⟨sameLength, fun {child other} isChild => ?_⟩
    have unqualified := plain _ (List.mem_map_of_mem (fst_mem_occurrences isPair)) twoPart child
      (List.of_mem_zip isChild).1
    exact copied_of_plain (paired isChild) unqualified
  obtain ⟨earlier, standsBefore⟩ :=
    Reference.Stands.of_copied keptAs.same copies (kinds_above isPair) stands
  exact none earlier standsBefore

/-- In front of the last dot of a qualified name stands a value, when a reference stands there that
is replaced by an identifier. -/
theorem value?_of_writtenAs {parent : Node} {above : List Node} {node object : Node}
    (qualified : parent.isQualified = true)
    (stands : Reference.Stands source language options.namespaceName ⟨node, parent :: above⟩
      reference)
    (writtenAs : reference.WrittenAs output object) (kind : object.kind = "identifier") :
    Reference.value? source options.namespaceName ⟨node, parent :: above⟩ = some reference := by
  rcases stands with value | ⟨_, type⟩ | ⟨_, markup⟩
  · exact value
  · obtain ⟨_, _, _, category, _, _, _, classified, rfl⟩ := Reference.type?_eq_some_iff.mp type
    have isType : category.isType = true := by
      rcases Reference.classifyType?_cases classified with rfl | ⟨rfl, _⟩ | ⟨rfl, _⟩ <;> rfl
    have written := writtenAs.kind_eq
    dsimp only at written
    rw [if_pos isType, kind] at written
    exact absurd written (by decide)
  · have holder : Reference.tagHolders.contains parent.kind = true :=
      (Reference.markup?_eq_some_iff.mp markup).1
    have disjoint : ∀ kind ∈ Reference.tagHolders,
        kind ∉ ["member_expression", "nested_type_identifier", "nested_identifier"] := by decide
    exact absurd (List.contains_iff_mem.mp qualified)
      (disjoint _ (List.contains_iff_mem.mp holder))

/-- **In front of the dot of a reference of the second tree there is a leaf that was written for a
value, and its name is the namespace.** -/
theorem exists_written_object (plain : root.TwoPartsPlain) (isPair : pair ∈ rewriting.pairs)
    (stands : Reference.Stands output language options.namespaceName pair.2 reference) :
    ∃ origin leaf, (origin, leaf) ∈ rewriting.pairs ∧ reference.object? = some leaf.node ∧
      leaf.parent? = some reference.node ∧ leaf.node.children = [] ∧
      ∃ earlier, Reference.value? source options.namespaceName origin = some earlier ∧
        earlier.member = options.namespaceName := by
  obtain ⟨object, found, leads, text⟩ := stands.exists_object
  obtain ⟨_, keptAs⟩ := keptAs_of_stands isPair stands
  obtain ⟨origin, paired, ledBack⟩ := leads.exists_origin
    (fun _ _ paired => (rewriting.becomes _ paired).named_eq.symm) (children_paired isPair keptAs)
  have qualified : pair.1.node.isQualified = true := by
    have qualified := stands.isQualified
    rwa [isQualified, keptAs.same.kind_eq] at qualified
  rcases (rewriting.becomes _ paired).written_or_kept with
    ⟨earlier, standsBefore, writtenAs⟩ | ⟨_, kept⟩
  · have value := value?_of_writtenAs qualified standsBefore writtenAs leads.2.1
    exact ⟨_, _, paired, found, congrArg some stands.node_eq.symm, writtenAs.isLeaf, earlier, value,
      writtenAs.text.symm.trans text⟩
  · -- The object was an identifier before, so the name had two parts and no reference stands there.
    have twoPart := isTwoPart_of_leads qualified (ledBack kept.same)
    exact absurd stands (not_stands_of_isTwoPart plain isPair twoPart)

/-- A reference of the second tree stands at a node that has a counterpart. -/
theorem exists_pair_of_stands (rewriting : Rewriting source output language options root written)
    {place : Occurrence} (occurs : place ∈ written.occurrences)
    (stands : Reference.Stands output language options.namespaceName place reference) :
    ∃ origin, (origin, place) ∈ rewriting.pairs := by
  rcases rewriting.exists_origin occurs with rfl | ⟨statement, isAdded, below⟩ | hasOrigin
  · have unqualified := rewriting.isUnit
    rw [isQualified, ← rewriting.same.kind_eq] at unqualified
    exact absurd (stands.isQualified.symm.trans unqualified) (by decide)
  · have unqualified := (rewriting.isAdded statement isAdded).2.2 _ below
    exact absurd (stands.isQualified.symm.trans unqualified) (by decide)
  · exact hasOrigin

end Rewriting

end Node

/-! ## Imports of the output -/

namespace Node

/-- The parts of an import statement that say what it binds and from which module. -/
def isImportPart (part : Node) : Bool :=
  part.kind == "import_clause" || part.kind == "string" || part.field == some "source"

/-- The clauses and the module names of the import statements at the top level contain no qualified
name. In the grammars a clause consists of identifiers and of names in braces, and a module name is
a string. Other parts, such as attributes, may contain references. -/
def ImportsPlain (root : Node) : Prop :=
  ∀ statement ∈ root.children, statement.kind = "import_statement" →
    ∀ part ∈ statement.children, part.isImportPart = true →
      ∀ inner ∈ part.preorder, inner.isQualified = false

namespace Rewriting

variable {source output : Bytes} {language : Language} {options : Options} {root written : Node}
  {rewriting : Rewriting source output language options root written}

/-- A kept import statement binds the same names outside of braces, and it names the same module. -/
theorem literal_and_heads_eq {statement other : Node} {above aboveOther : List Node}
    (isPair : (⟨statement, above⟩, ⟨other, aboveOther⟩) ∈ rewriting.pairs)
    (keptAs : Occurrence.KeptAs source output language options.namespaceName ⟨statement, above⟩
      ⟨other, aboveOther⟩)
    (plain : ∀ part ∈ statement.children, part.isImportPart = true →
      ∀ inner ∈ part.preorder, inner.isQualified = false) :
    (ImportDeclaration.ofNode output other).literal =
        (ImportDeclaration.ofNode source statement).literal ∧
      (ImportDeclaration.ofNode output other).heads =
        (ImportDeclaration.ofNode source statement).heads := by
  have children := children_paired isPair keptAs
  have named := rel_namedChildren
    (fun _ _ paired => (rewriting.becomes _ paired).named_eq.symm) children
  constructor
  · refine ImportDeclaration.literal_eq_of_rel (rel_or (rel_find? ?_ ?_ children)
      (rel_find? ?_ ?_ named))
    · intro part copy paired
      rw [(rewriting.becomes _ paired).field_eq]
    · intro part member copy paired isSource
      exact copied_of_plain paired (plain part member (by simp [isImportPart, isSource]))
    · intro part copy paired
      exact ((rewriting.becomes _ paired).kind_beq (by decide)).symm
    · intro part member copy paired isString
      have isChild := (List.mem_filter.mp member).1
      exact copied_of_plain paired (plain part isChild (by simp [isImportPart, isString]))
  · refine ImportDeclaration.heads_eq_of_rel (rel_find? ?_ ?_ named)
    · intro part copy paired
      exact ((rewriting.becomes _ paired).kind_beq (by decide)).symm
    · intro part member copy paired isClause
      have isChild := (List.mem_filter.mp member).1
      exact copied_of_plain paired (plain part isChild (by simp [isImportPart, isClause]))

/-- The counterpart of a kept child of the root is no statement to be removed. -/
theorem isRemoved_kept (importsPlain : root.ImportsPlain) {siblings : Node × Node}
    (paired : siblings ∈
      (ImportDeclaration.keptChildren source root options.moduleName options.namespaceName).zip
        (rewriting.front ++ rewriting.back)) :
    ImportDeclaration.isRemoved output options.moduleName options.namespaceName siblings.2 =
      false := by
  rw [Bool.eq_false_iff]
  intro removed
  simp only [ImportDeclaration.isRemoved, Bool.and_eq_true, beq_iff_eq] at removed
  obtain ⟨⟨named, kind⟩, isOf, binds⟩ := removed
  have isPair : (⟨siblings.1, [root]⟩, ⟨siblings.2, [written]⟩) ∈ rewriting.pairs :=
    mem_pairsAmong.mpr ⟨siblings, paired, self_mem_pairsBelow _ _ _ _⟩
  obtain ⟨isChild, kept⟩ := List.mem_filter.mp (List.of_mem_zip paired).1
  have notWritten : siblings.2.kind ∉ ["type_identifier", "identifier"] := by
    rw [kind]
    decide
  obtain ⟨_, keptAs⟩ := (rewriting.becomes _ isPair).kept_of_kind notWritten
  have kindBefore : siblings.1.kind = "import_statement" := keptAs.same.kind_eq.symm.trans kind
  have namedBefore : siblings.1.named = true := keptAs.same.named_eq.symm.trans named
  obtain ⟨literal, heads⟩ :=
    literal_and_heads_eq isPair keptAs (importsPlain siblings.1 isChild kindBefore)
  rw [ImportDeclaration.isOf, ImportDeclaration.moduleName?, literal] at isOf
  rw [ImportDeclaration.binds, heads] at binds
  have removedBefore : ImportDeclaration.isRemoved source options.moduleName options.namespaceName
      siblings.1 = true := by
    simp only [ImportDeclaration.isRemoved, Bool.and_eq_true, beq_iff_eq]
    exact ⟨⟨namedBefore, kindBefore⟩, isOf, binds⟩
  rw [removedBefore] at kept
  exact absurd kept (by decide)

/-- An added statement binds names in braces only. -/
theorem isRemoved_added {statement : Node} (isAdded : statement ∈ rewriting.added) :
    ImportDeclaration.isRemoved output options.moduleName options.namespaceName statement =
      false := by
  have noHeads :
      (ImportDeclaration.clauseNodes statement).flatMap ImportDeclaration.headNodes = [] := by
    rw [List.flatMap_eq_nil_iff]
    intro part isPart
    rw [ImportDeclaration.headNodes, (rewriting.isAdded statement isAdded).2.1 part isPart]
    rfl
  have binds : (ImportDeclaration.ofNode output statement).binds options.namespaceName = false := by
    rw [ImportDeclaration.binds, ImportDeclaration.ofNode, noHeads]
    rfl
  rw [ImportDeclaration.isRemoved, binds, Bool.and_false, Bool.and_false]

/-- **No import of the namespace is left in the second tree.** -/
theorem removedIn_eq_nil (rewriting : Rewriting source output language options root written)
    (importsPlain : root.ImportsPlain) :
    ImportDeclaration.removedIn output written options.moduleName options.namespaceName = [] := by
  rw [ImportDeclaration.removedIn_eq_map, List.map_eq_nil_iff, List.filter_eq_nil_iff]
  intro child isChild
  rw [Bool.not_eq_true]
  rcases rewriting.mem_added_or_exists_sibling isChild with isAdded | ⟨origin, paired⟩
  · exact isRemoved_added isAdded
  · exact isRemoved_kept importsPlain paired

/-- In front of the dot of a reference of the second tree there is a leaf in the place of a
reference of the first. -/
def ObjectWrittenFor (rewriting : Rewriting source output language options root written)
    (reference earlier : Reference) : Prop :=
  ∃ origin leaf, (origin, leaf) ∈ rewriting.pairs ∧
    earlier.range = (origin.node.start, origin.node.stop) ∧ leaf.node.children = [] ∧
    leaf.parent? = some reference.node ∧ reference.object? = some leaf.node

/-- **The references of the second tree are those that have come about by writing the
namespace.** -/
theorem exists_objectWrittenFor (rewriting : Rewriting source output language options root written)
    (wellFormed : root.WellFormed source) (plain : root.TwoPartsPlain) {reference : Reference}
    (found : reference ∈ Reference.find output language options.namespaceName written) :
    ∃ earlier ∈ Reference.find source language options.namespaceName root,
      earlier.kind = .value ∧ earlier.member = options.namespaceName ∧
        rewriting.ObjectWrittenFor reference earlier := by
  obtain ⟨_, occurs, stands⟩ := Reference.exists_stands_of_mem_find found
  obtain ⟨_, isPair⟩ := rewriting.exists_pair_of_stands occurs stands
  obtain ⟨origin, leaf, leafPair, object, parent, isLeaf, value, isValue, name⟩ :=
    exists_written_object plain isPair stands
  obtain ⟨earlier, foundBefore, kind, range, member⟩ := Reference.exists_value_mem_find wellFormed
    plain (fst_mem_occurrences leafPair) isValue language
  have valueStands : Reference.Stands source language options.namespaceName origin value :=
    .inl isValue
  have place : value.range = (origin.node.start, origin.node.stop) := by
    rw [Reference.range, valueStands.node_eq]
  exact ⟨earlier, foundBefore, kind, member.trans name,
    origin, leaf, leafPair, range.trans place, isLeaf, parent, object⟩

end Rewriting

end Node

/-! ## The second transform -/

namespace SourceUnit

variable {unit : SourceUnit} {parser : Parser} {options : Options} {transformed : Transformed}

theorem members_of_transform (success : unit.transform parser options = .ok transformed) :
    transformed.members = .ofReferences (unit.references parser options) := by
  obtain ⟨_, planned, _, ⟨_, rfl⟩ | ⟨_, _, _, _, rfl⟩⟩ := transform_eq_ok_iff.mp success
  · rfl
  · rfl

/-- **A transform is idempotent unless the namespace is a value that was reached through itself.**
The output has no import of the namespace. In front of the dot of every reference in it there is a
leaf in the place of a reference of the source whose name is the namespace. When no value has this
name, the output is left as it is.

That `ImportsPlain` holds is a fact of the grammars: the clause of an import statement consists of
identifiers and of names in braces, and its module name is a string, so no qualified name stands in
either. It is assumed of the tree of the source, like the other shapes that the grammars give. -/
theorem transform_idempotent (wellFormed : (unit.root parser).WellFormed unit.source)
    (plain : (unit.root parser).TwoPartsPlain) (importsPlain : (unit.root parser).ImportsPlain)
    (success : unit.transform parser options = .ok transformed)
    (rewriting : Node.Rewriting unit.source (Utf8.encode transformed.output) unit.language options
      (unit.root parser) (root { unit with text := transformed.output } parser)) :
    let again : SourceUnit := { unit with text := transformed.output }
    again.removed parser options = [] ∧
      (∀ reference ∈ again.references parser options, ∃ earlier ∈ unit.references parser options,
        earlier.member = options.namespaceName ∧ rewriting.ObjectWrittenFor reference earlier) ∧
      (options.namespaceName ∉ transformed.members.values →
        again.transform parser options =
          .ok ⟨transformed.output, transformed.output, {}, 0, 0⟩) := by
  intro again
  have noneRemoved : again.removed parser options = [] := rewriting.removedIn_eq_nil importsPlain
  refine ⟨noneRemoved, ?_, ?_⟩
  · intro reference found
    obtain ⟨earlier, foundBefore, _, member, writtenFor⟩ :=
      rewriting.exists_objectWrittenFor wellFormed plain found
    exact ⟨earlier, foundBefore, member, writtenFor⟩
  · intro notReached
    have noReferences : again.references parser options = [] := by
      rw [List.eq_nil_iff_forall_not_mem]
      intro reference found
      obtain ⟨earlier, foundBefore, kind, member, _⟩ :=
        rewriting.exists_objectWrittenFor wellFormed plain found
      refine notReached ?_
      rw [members_of_transform success]
      exact MemberSet.mem_side_ofReferences.mpr
        ⟨earlier, foundBefore, by rw [kind, Reference.Kind.isType], member⟩
    have sound : (again.root parser).label.faulty = false :=
      rewriting.same.faulty_eq.trans (transform_eq_ok_iff.mp success).1
    exact transform_eq_self sound noReferences noneRemoved

end SourceUnit

namespace Sample

/-- The tree of the first unit after its transform. -/
def hooksOutputRoot : Node :=
  branch "program" 0 89 [
    branch "import_statement" 0 41 [
      token "import" 0 6,
      branch "import_clause" 7 27 [
        branch "named_imports" 7 27 [
          token "\x7b" 7 8,
          branch "import_specifier" 9 15 [filling "name" "identifier" 9 15 []],
          token "," 15 16,
          branch "import_specifier" 17 25 [filling "name" "identifier" 17 25 []],
          token "\x7d" 26 27]],
      token "from" 28 32, reactLiteral 33, token ";" 40 41],
    branch "import_statement" 42 75 [
      token "import" 42 48,
      branch "import_clause" 49 61 [
        branch "named_imports" 49 61 [
          token "\x7b" 49 50,
          branch "import_specifier" 51 59 [filling "name" "identifier" 51 59 []],
          token "\x7d" 60 61]],
      token "from" 62 66, reactLiteral 67, token ";" 74 75],
    branch "expression_statement" 76 88 [
      branch "call_expression" 76 87 [
        filling "function" "identifier" 76 84 [],
        filling "arguments" "arguments" 84 87 [
          token "(" 84 85, branch "number" 85 86 [], token ")" 86 87]],
      token ";" 87 88]]

/-- A parser that knows both trees of the first unit. -/
def hooksRereader : Parser :=
  fun _ _ text => ⟨if text = hooksOutput then hooksOutputRoot else hooksRoot, fun _ => true⟩

theorem hooksRereader_hooks :
    hooksRereader hooksUnit.file hooksUnit.language hooksUnit.text =
      hooksParser hooksUnit.file hooksUnit.language hooksUnit.text := by
  have other : hooksUnit.text ≠ hooksOutput := by decide +kernel
  rw [hooksRereader, if_neg other]
  rfl

theorem root_hooksRereader : hooksUnit.root hooksRereader = hooksRoot := by
  rw [SourceUnit.root, hooksRereader_hooks]
  rfl

theorem root_hooksRereader_output :
    SourceUnit.root { hooksUnit with text := hooksOutput } hooksRereader = hooksOutputRoot := by
  show (if hooksOutput = hooksOutput then hooksOutputRoot else hooksRoot) = hooksOutputRoot
  rw [if_pos rfl]

theorem transform_hooksRereader :
    hooksUnit.transform hooksRereader {} =
      .ok ⟨hooksText, hooksOutput, ⟨["useState"], []⟩, 1, 1⟩ := by
  rw [SourceUnit.transform, SourceUnit.survey, hooksRereader_hooks]
  exact transform_hooks

def hooksRewriting :
    Node.Rewriting hooksUnit.source (Utf8.encode hooksOutput) hooksUnit.language {} hooksRoot
      hooksOutputRoot where
  front := []
  added := hooksOutputRoot.children.take 1
  back := hooksOutputRoot.children.drop 1
  children_eq := rfl
  same := by decide
  isUnit := by decide
  isAdded := by decide +kernel
  length_eq := by decide +kernel
  becomes := by decide +kernel

end Sample

theorem SourceUnit.transform_idempotent_hooks :
    Sample.hooksUnit.transform Sample.hooksRereader {} =
        .ok ⟨Sample.hooksText, Sample.hooksOutput, ⟨["useState"], []⟩, 1, 1⟩ ∧
      SourceUnit.transform { Sample.hooksUnit with text := Sample.hooksOutput }
        Sample.hooksRereader {} = .ok ⟨Sample.hooksOutput, Sample.hooksOutput, {}, 0, 0⟩ := by
  have success := Sample.transform_hooksRereader
  have wellFormed :
      (Sample.hooksUnit.root Sample.hooksRereader).WellFormed Sample.hooksUnit.source := by
    rw [Sample.root_hooksRereader]
    exact Sample.wellFormed_hooks
  have plain : (Sample.hooksUnit.root Sample.hooksRereader).TwoPartsPlain := by
    rw [Sample.root_hooksRereader]
    unfold Node.TwoPartsPlain
    decide +kernel
  have importsPlain : (Sample.hooksUnit.root Sample.hooksRereader).ImportsPlain := by
    rw [Sample.root_hooksRereader]
    unfold Node.ImportsPlain
    decide +kernel
  have rewriting := Sample.hooksRewriting
  rw [← Sample.root_hooksRereader, ← Sample.root_hooksRereader_output] at rewriting
  refine ⟨success, ?_⟩
  exact (transform_idempotent wellFormed plain importsPlain success rewriting).2.2 (by decide)

end Unqualify
