import Unqualify.Options
import Unqualify.Proofs.Import.Declaration
import Unqualify.Proofs.Qualified
import Unqualify.Proofs.Syntax.Pairing

/-!
# The tree of the output

How a parser is taken to read the output of a transform, given how it reads the source. Every node
at which a reference stands is replaced by a leaf with the name of its member. The import statements
of the namespace are gone, and other import statements have been added next to each other at the top
level. Every other node is kept: it says the same, has as many children, and covers the same text
when no reference stands at or below it.

`Node.Rewriting` says this of two trees without naming the ranges in the second one. The kept and
the replaced nodes of both trees are paired by their places, and each node of the second tree has a
counterpart, unless it is the root or belongs to an added statement (`exists_origin`). Where no
reference stands at or below a node its counterpart is a copy (`copied`).
-/

set_option autoImplicit false

namespace Unqualify

namespace Reference

/-! ## Leaves in the place of references -/

/-- A leaf takes the place of a reference: it has the name of the member as its text, and it says
what the qualified name said of itself but for its range and its kind. -/
structure WrittenAs (output : Bytes) (reference : Reference) (leaf : Node) : Prop where
  label : leaf.label = { reference.node.label with
    kind := if reference.kind.isType then "type_identifier" else "identifier"
    start := leaf.start
    stop := leaf.stop }
  isLeaf : leaf.children = []
  text : leaf.text output = reference.member

instance (output : Bytes) (reference : Reference) (leaf : Node) :
    Decidable (reference.WrittenAs output leaf) :=
  decidable_of_iff
    (leaf.label = { reference.node.label with
        kind := if reference.kind.isType then "type_identifier" else "identifier"
        start := leaf.start
        stop := leaf.stop } ∧
      leaf.children.isEmpty = true ∧ leaf.text output = reference.member)
    ⟨fun ⟨label, isLeaf, text⟩ => ⟨label, List.isEmpty_iff.mp isLeaf, text⟩,
      fun ⟨label, isLeaf, text⟩ => ⟨label, List.isEmpty_iff.mpr isLeaf, text⟩⟩

namespace WrittenAs

variable {output : Bytes} {reference : Reference} {leaf : Node}
  (writtenAs : reference.WrittenAs output leaf)

include writtenAs

theorem kind_eq :
    leaf.kind = if reference.kind.isType then "type_identifier" else "identifier" :=
  (congrArg Label.kind writtenAs.label :)

theorem field_eq : leaf.field = reference.node.field :=
  (congrArg Label.field writtenAs.label :)

theorem named_eq : leaf.named = reference.node.named :=
  (congrArg Label.named writtenAs.label :)

theorem kind_mem : leaf.kind ∈ ["type_identifier", "identifier"] := by
  rw [writtenAs.kind_eq]
  split <;> decide

end WrittenAs

end Reference

/-! ## What becomes of a node -/

namespace Occurrence

variable (source output : Bytes) (language : Language) (namespaceName : String)

/-- No reference stands at an occurrence or below it. -/
def Untouched (place : Occurrence) : Prop :=
  ∀ inner ∈ place.node.occurrencesBelow place.ancestors,
    Reference.at? source language namespaceName inner = none

instance (place : Occurrence) : Decidable (place.Untouched source language namespaceName) :=
  inferInstanceAs (Decidable (∀ inner ∈ _, _ = none))

/-- A node is kept: its counterpart says the same and has as many children, and it covers the same
text unless there is a reference in it. -/
structure KeptAs (before after : Occurrence) : Prop where
  same : before.node.SameButRange after.node
  children : before.node.children.length = after.node.children.length
  text : before.Untouched source language namespaceName →
    after.node.text output = before.node.text source

instance (before after : Occurrence) :
    Decidable (before.KeptAs source output language namespaceName after) :=
  decidable_of_iff
    (before.node.SameButRange after.node ∧
      before.node.children.length = after.node.children.length ∧
      (before.Untouched source language namespaceName →
        after.node.text output = before.node.text source))
    ⟨fun ⟨same, children, text⟩ => ⟨same, children, text⟩,
      fun ⟨same, children, text⟩ => ⟨same, children, text⟩⟩

/-- What becomes of a node: a leaf where a reference stands, and otherwise it is kept. -/
def Becomes (before after : Occurrence) : Prop :=
  match Reference.at? source language namespaceName before with
  | some reference => reference.WrittenAs output after.node
  | none => before.KeptAs source output language namespaceName after

instance (before after : Occurrence) :
    Decidable (before.Becomes source output language namespaceName after) :=
  match found : Reference.at? source language namespaceName before with
  | some reference =>
      decidable_of_iff (reference.WrittenAs output after.node) (by rw [Becomes, found])
  | none =>
      decidable_of_iff (before.KeptAs source output language namespaceName after)
        (by rw [Becomes, found])

variable {source output : Bytes} {language : Language} {namespaceName : String}
  {before after : Occurrence}

theorem Becomes.written_or_kept
    (becomes : before.Becomes source output language namespaceName after) :
    (∃ reference, Reference.Stands source language namespaceName before reference ∧
        reference.WrittenAs output after.node) ∨
      (∀ reference, ¬ Reference.Stands source language namespaceName before reference) ∧
        before.KeptAs source output language namespaceName after := by
  unfold Becomes at becomes
  split at becomes
  next reference found => exact .inl ⟨reference, Reference.at?_eq_some_iff.mp found, becomes⟩
  next none => exact .inr ⟨Reference.at?_eq_none_iff.mp none, becomes⟩

theorem Untouched.keptAs (untouched : before.Untouched source language namespaceName)
    (becomes : before.Becomes source output language namespaceName after) :
    before.KeptAs source output language namespaceName after := by
  have none := untouched before (Node.self_mem_occurrencesBelow _ _)
  rwa [Becomes, none] at becomes

theorem Untouched.child (untouched : before.Untouched source language namespaceName) {child : Node}
    (isChild : child ∈ before.node.children) :
    Untouched source language namespaceName ⟨child, before.node :: before.ancestors⟩ := by
  intro inner below
  exact untouched inner (Node.mem_occurrencesBelow.mpr (.inr ⟨child, isChild, below⟩))

/-- Nothing is replaced where there are no qualified names. -/
theorem untouched_of_plain {place : Occurrence}
    (plain : ∀ inner ∈ place.node.preorder, inner.isQualified = false) :
    place.Untouched source language namespaceName := by
  intro inner below
  rw [Reference.at?_eq_none_iff]
  intro reference stands
  have unqualified := plain inner.node (Node.node_mem_preorder below)
  exact absurd (stands.isQualified.symm.trans unqualified) (by decide)

section Becomes

variable (becomes : before.Becomes source output language namespaceName after)

include becomes

theorem Becomes.named_eq : after.node.named = before.node.named := by
  rcases becomes.written_or_kept with ⟨reference, stands, writtenAs⟩ | ⟨_, keptAs⟩
  · rw [writtenAs.named_eq, stands.node_eq]
  · exact keptAs.same.named_eq

theorem Becomes.field_eq : after.node.field = before.node.field := by
  rcases becomes.written_or_kept with ⟨reference, stands, writtenAs⟩ | ⟨_, keptAs⟩
  · rw [writtenAs.field_eq, stands.node_eq]
  · exact keptAs.same.field_eq

/-- Nodes of a kind that references do not have before and do not get are of this kind both before
and after. -/
theorem Becomes.kind_beq {kind : String}
    (other : kind ∉ ["member_expression", "nested_type_identifier", "nested_identifier",
      "type_identifier", "identifier"]) :
    (after.node.kind == kind) = (before.node.kind == kind) := by
  rcases becomes.written_or_kept with ⟨reference, stands, writtenAs⟩ | ⟨_, keptAs⟩
  · have notAfter : after.node.kind ≠ kind := by
      rintro rfl
      exact other (List.mem_append_right
        ["member_expression", "nested_type_identifier", "nested_identifier"] writtenAs.kind_mem)
    have notBefore : before.node.kind ≠ kind := by
      rintro rfl
      exact other (List.mem_append_left ["type_identifier", "identifier"] stands.kind_mem)
    rw [beq_false_of_ne notAfter, beq_false_of_ne notBefore]
  · rw [keptAs.same.kind_eq]

/-- What has another kind than written leaves have was kept. -/
theorem Becomes.kept_of_kind (notWritten : after.node.kind ∉ ["type_identifier", "identifier"]) :
    (∀ reference, ¬ Reference.Stands source language namespaceName before reference) ∧
      before.KeptAs source output language namespaceName after := by
  rcases becomes.written_or_kept with ⟨_, _, writtenAs⟩ | kept
  · exact absurd writtenAs.kind_mem notWritten
  · exact kept

theorem Becomes.length_children_le : after.node.children.length ≤ before.node.children.length := by
  rcases becomes.written_or_kept with ⟨reference, _, writtenAs⟩ | ⟨_, keptAs⟩
  · rw [writtenAs.isLeaf]
    exact Nat.zero_le _
  · exact Nat.le_of_eq keptAs.children.symm

theorem Becomes.kind_eq (branches : after.node.children ≠ []) :
    after.node.kind = before.node.kind := by
  rcases becomes.written_or_kept with ⟨reference, _, writtenAs⟩ | ⟨_, keptAs⟩
  · exact absurd writtenAs.isLeaf branches
  · exact keptAs.same.kind_eq

end Becomes

end Occurrence

/-! ## Two trees -/

namespace Node

/-- One tree is rewritten to another over the output of a transform. -/
structure Rewriting (source output : Bytes) (language : Language) (options : Options)
    (root written : Node) where
  /-- The children of the second root in front of the added statements. -/
  front : List Node
  /-- The import statements that are added. -/
  added : List Node
  /-- The children of the second root behind the added statements. -/
  back : List Node
  children_eq : written.children = front ++ added ++ back
  same : root.SameButRange written
  /-- The root of a unit is no qualified name. -/
  isUnit : root.isQualified = false
  /-- Added statements are import statements with nothing but names in braces. -/
  isAdded : ∀ statement ∈ added, statement.kind = "import_statement" ∧
    (∀ part ∈ ImportDeclaration.clauseNodes statement, part.kind = "named_imports") ∧
    ∀ inner ∈ statement.preorder, inner.isQualified = false
  /-- The removed statements are gone, and nothing else is. -/
  length_eq :
    (ImportDeclaration.keptChildren source root options.moduleName options.namespaceName).length =
      (front ++ back).length
  becomes : ∀ pair ∈ pairsAmong [root] [written]
      (ImportDeclaration.keptChildren source root options.moduleName options.namespaceName)
      (front ++ back),
    pair.1.Becomes source output language options.namespaceName pair.2

namespace Rewriting

variable {source output : Bytes} {language : Language} {options : Options} {root written : Node}
  (rewriting : Rewriting source output language options root written)

/-- The nodes of both trees below their roots, paired by their places. Removed and added statements
are left out. -/
def pairs : List (Occurrence × Occurrence) :=
  pairsAmong [root] [written]
    (ImportDeclaration.keptChildren source root options.moduleName options.namespaceName)
    (rewriting.front ++ rewriting.back)

variable {rewriting} {pair : Occurrence × Occurrence}

theorem fst_mem_occurrences (isPair : pair ∈ rewriting.pairs) : pair.1 ∈ root.occurrences := by
  obtain ⟨siblings, paired, below⟩ := mem_pairsAmong.mp isPair
  have isChild := (List.mem_filter.mp (List.of_mem_zip paired).1).1
  exact occurrences_trans (child_mem_occurrences (root_mem_occurrences root) isChild)
    (fst_mem_occurrencesBelow below)

theorem kinds_above (isPair : pair ∈ rewriting.pairs) :
    pair.2.ancestors.map kind = pair.1.ancestors.map kind := by
  obtain ⟨siblings, paired, below⟩ := mem_pairsAmong.mp isPair
  have kinds : [written].map kind = [root].map kind := congrArg ([·]) rewriting.same.kind_eq
  refine map_kind_ancestors ?_ kinds below
  intro inner isInner branches
  exact (rewriting.becomes inner (mem_pairsAmong.mpr ⟨siblings, paired, isInner⟩)).kind_eq branches

/-- The children of kept nodes are paired one by one. -/
theorem children_paired (isPair : pair ∈ rewriting.pairs)
    (keptAs : pair.1.KeptAs source output language options.namespaceName pair.2) :
    List.Forall₂ (fun child other =>
      (⟨child, pair.1.node :: pair.1.ancestors⟩, ⟨other, pair.2.node :: pair.2.ancestors⟩) ∈
        rewriting.pairs) pair.1.node.children pair.2.node.children := by
  obtain ⟨siblings, paired, below⟩ := mem_pairsAmong.mp isPair
  refine List.forall₂_iff_zip.mpr ⟨keptAs.children, ?_⟩
  intro child other isChild
  exact mem_pairsAmong.mpr ⟨siblings, paired, children_mem_pairsBelow below isChild⟩

/-- A child of the second root is added, or it has a counterpart among the children that are
kept. -/
theorem mem_added_or_exists_sibling
    (rewriting : Rewriting source output language options root written)
    {child : Node} (isChild : child ∈ written.children) :
    child ∈ rewriting.added ∨
      ∃ origin, (origin, child) ∈
        (ImportDeclaration.keptChildren source root options.moduleName options.namespaceName).zip
          (rewriting.front ++ rewriting.back) := by
  rw [rewriting.children_eq, List.append_assoc, List.mem_append, List.mem_append] at isChild
  by_cases isAdded : child ∈ rewriting.added
  · exact .inl isAdded
  · have isKept : child ∈ rewriting.front ++ rewriting.back :=
      List.mem_append.mpr (isChild.imp_right fun among => among.resolve_left isAdded)
    exact .inr (exists_mem_zip_of_mem_right (Nat.le_of_eq rewriting.length_eq.symm) isKept)

/-- **Each node of the second tree is its root, belongs to an added statement, or has a counterpart
in the first.** -/
theorem exists_origin (rewriting : Rewriting source output language options root written)
    {place : Occurrence} (occurs : place ∈ written.occurrences) :
    place = ⟨written, []⟩ ∨
      (∃ statement ∈ rewriting.added, place.node ∈ statement.preorder) ∨
      ∃ origin, (origin, place) ∈ rewriting.pairs := by
  rcases mem_occurrencesBelow.mp occurs with isRoot | ⟨child, isChild, below⟩
  · exact .inl isRoot
  rcases rewriting.mem_added_or_exists_sibling isChild with isAdded | ⟨origin, paired⟩
  · exact .inr (.inl ⟨child, isAdded, node_mem_preorder below⟩)
  · have fewer : ∀ pair ∈ origin.pairsBelow [root] [written] child,
        pair.2.node.children.length ≤ pair.1.node.children.length := fun pair isPair =>
      (rewriting.becomes pair (mem_pairsAmong.mpr ⟨_, paired, isPair⟩)).length_children_le
    obtain ⟨found, isPair⟩ := exists_pair_of_mem_occurrencesBelow fewer below
    exact .inr (.inr ⟨found, mem_pairsAmong.mpr ⟨_, paired, isPair⟩⟩)

/-- **A node with no reference at or below it is copied.** -/
theorem copied (isPair : pair ∈ rewriting.pairs)
    (untouched : pair.1.Untouched source language options.namespaceName) :
    CopiedTo source output pair.1.node pair.2.node := by
  obtain ⟨⟨node, above⟩, after⟩ := pair
  induction node generalizing above after with
  | mk label children ih =>
      have keptAs := untouched.keptAs (rewriting.becomes _ isPair)
      refine ⟨keptAs.same, keptAs.text untouched, ?_⟩
      have related := children_paired isPair keptAs
      refine List.forall₂_iff_zip.mpr ⟨keptAs.children, ?_⟩
      intro child other paired
      have isChild := (List.of_mem_zip paired).1
      exact ih child isChild _ _ ((List.forall₂_iff_zip.mp related).2 paired)
        (untouched.child isChild)

theorem copied_of_plain (isPair : pair ∈ rewriting.pairs)
    (plain : ∀ inner ∈ pair.1.node.preorder, inner.isQualified = false) :
    CopiedTo source output pair.1.node pair.2.node :=
  copied isPair (Occurrence.untouched_of_plain plain)

end Rewriting

end Node

end Unqualify
