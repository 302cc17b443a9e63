import Unqualify.Proofs.Naming

/-!
# Discovery is exact

Three rules look for references, what they find is joined, freed of repeated ranges and sorted. In
the trees of the grammars nothing is lost or listed twice on the way: the references that are found
are those that stand in the tree (`mem_find_iff`), one behind the other (`find_pairwise_ascending`).
So the nodes in the list are the nodes that name a member, each once and in document order
(`find_lists_exactly`).

What is asked of a tree is that identifiers are leaves and cover some text, that tokens and comments
are leaves, and that nothing else stands in a name of two parts. Then no name of two parts lies
inside another one, and names of two parts that are not the same lie apart.
-/

set_option autoImplicit false

namespace Unqualify

namespace Node

/-! ## Leaves -/

/-- Whether a node is an identifier, also as a property or a type. -/
def isWord (node : Node) : Bool :=
  ["identifier", "property_identifier", "type_identifier"].contains node.kind

/-- Whether a node is a token or a comment. -/
def isMark (node : Node) : Bool :=
  !node.named || node.kind == "comment"

instance (node : Node) : Decidable (∃ front back, node.HasParts front back) :=
  decidable_of_iff
    (node.kind = "member_expression" ∧ (Reference.memberParts? node).isSome = true ∨
      node.kind = "nested_type_identifier" ∧ (Reference.typeParts? node).isSome = true ∨
      (Reference.tagParts? node).isSome = true) (by
    simp only [HasParts, isMember_iff, isTypeName_iff, isTag_iff, exists_or,
      Option.isSome_iff_exists, Prod.exists, exists_and_left])

/-- A tree whose words are those of a text. -/
structure Lexical (root : Node) : Prop where
  /-- Identifiers are leaves and cover some text. -/
  words : ∀ node ∈ root.preorder, node.isWord = true →
    node.children = [] ∧ node.start < node.stop
  /-- Tokens and comments are leaves. -/
  marks : ∀ node ∈ root.preorder, node.isMark = true → node.children = []
  /-- A name of two parts has besides its identifiers only tokens and comments. The sign of an
  optional chain, which is made of tokens, counts as one. -/
  parts : ∀ node ∈ root.preorder, (∃ front back, node.HasParts front back) →
    ∀ child ∈ node.children, child.isWord = true ∨ child.isMark = true ∨
      child.kind = "optional_chain" ∧ ∀ inner ∈ child.children, inner.isMark = true

/-! ## Names of two parts -/

section HasParts

variable {node front back : Node} (parts : node.HasParts front back)

include parts

/-- Both parts are identifiers and children of the name. -/
theorem HasParts.mem :
    (front ∈ node.children ∧ front.isWord = true) ∧ back ∈ node.children ∧ back.isWord = true := by
  have filled (field : String) {position : Node} (named : position ∈ node.namedChildren) :
      (node.child? field).getD position ∈ node.children := by
    cases found : node.child? field with
    | none => exact (List.mem_filter.mp named).1
    | some child => exact List.mem_of_find?_eq_some found
  rcases parts with member | typeName | tag
  · obtain ⟨⟨isFront, _, frontKind⟩, isBack, _, backKind⟩ := member.parts.mem
    exact ⟨⟨isFront, by rw [isWord, frontKind]; decide⟩, isBack, by rw [isWord, backKind]; decide⟩
  · obtain ⟨⟨isFront, _, frontKind⟩, isBack, _, backKind⟩ := typeName.parts.mem
    exact ⟨⟨isFront, by rw [isWord, frontKind]; decide⟩, isBack, by rw [isWord, backKind]; decide⟩
  · obtain ⟨first, second, two, rfl, rfl⟩ := tag.parts
    refine ⟨⟨filled _ (by simp [two]), by rw [isWord, tag.objectKind]; decide⟩,
      filled _ (by simp [two]), ?_⟩
    rcases tag.propertyKind with kind | kind <;> rw [isWord, kind] <;> decide

theorem HasParts.kind_ne_chain : node.kind ≠ "optional_chain" := by
  rcases parts with member | typeName | ⟨kind | kind, _⟩
  · rw [member.kind]; decide
  · rw [typeName.kind]; decide
  · rw [kind]; decide
  · rw [kind]; decide

theorem HasParts.children_ne_nil : node.children ≠ [] :=
  List.ne_nil_of_mem parts.mem.1.1

end HasParts

theorem eq_of_mem_occurrencesBelow_leaf {node : Node} (leaf : node.children = [])
    {above : List Node}
    {inner : Occurrence} (below : inner ∈ node.occurrencesBelow above) : inner = ⟨node, above⟩ := by
  rcases mem_occurrencesBelow.mp below with same | ⟨child, isChild, _⟩
  · exact same
  · rw [leaf] at isChild
    exact nomatch isChild

section Lexical

variable {source : Bytes} {root : Node} (lexical : root.Lexical) {place inner : Occurrence}
  {front back : Node}

include lexical

/-- What lies inside a name of two parts is the sign of an optional chain or a leaf, and the leaf
belongs to the name or to the sign. -/
theorem Lexical.inside_cases (occurs : place ∈ root.occurrences)
    (parts : place.node.HasParts front back) (inside : Inside inner place) :
    inner.node.kind = "optional_chain" ∨
      inner.node.children = [] ∧
        (inner.ancestors = place.node :: place.ancestors ∨
          ∃ chain above, chain.kind = "optional_chain" ∧ inner.ancestors = chain :: above) := by
  obtain ⟨child, isChild, below⟩ := inside
  have childOccurs := child_mem_occurrences occurs isChild
  have atLeaf (leaf : child.children = []) :
      inner.node.children = [] ∧ inner.ancestors = place.node :: place.ancestors := by
    rw [eq_of_mem_occurrencesBelow_leaf leaf below]
    exact ⟨leaf, rfl⟩
  have inTree : child ∈ root.preorder := List.mem_map_of_mem childOccurs
  rcases lexical.parts _ (List.mem_map_of_mem occurs) ⟨front, back, parts⟩ child isChild with
    word | mark | ⟨chain, tokens⟩
  · obtain ⟨leaf, ancestors⟩ := atLeaf (lexical.words child inTree word).1
    exact .inr ⟨leaf, .inl ancestors⟩
  · obtain ⟨leaf, ancestors⟩ := atLeaf (lexical.marks child inTree mark)
    exact .inr ⟨leaf, .inl ancestors⟩
  · rcases mem_occurrencesBelow.mp below with rfl | ⟨token, isToken, belowToken⟩
    · exact .inl chain
    · have tokenOccurs := child_mem_occurrences childOccurs isToken
      have leaf := lexical.marks token (List.mem_map_of_mem tokenOccurs) (tokens token isToken)
      rw [eq_of_mem_occurrencesBelow_leaf leaf belowToken]
      exact .inr ⟨leaf, .inr ⟨child, _, chain, rfl⟩⟩

/-- No name of two parts lies inside another one. -/
theorem Lexical.not_inside (occurs : place ∈ root.occurrences)
    (parts : place.node.HasParts front back) {front' back' : Node}
    (innerParts : inner.node.HasParts front' back') : ¬ Inside inner place := by
  intro inside
  rcases lexical.inside_cases occurs parts inside with chain | ⟨leaf, _⟩
  · exact innerParts.kind_ne_chain chain
  · exact innerParts.children_ne_nil leaf

/-- A name of two parts covers some text. -/
theorem Lexical.start_lt_stop (wellFormed : root.WellFormed source)
    (occurs : place ∈ root.occurrences) (parts : place.node.HasParts front back) :
    place.node.start < place.node.stop := by
  obtain ⟨⟨isChild, word⟩, _⟩ := parts.mem
  have childOccurs := child_mem_occurrences occurs isChild
  have nonempty := (lexical.words front (List.mem_map_of_mem childOccurs) word).2
  have within := wellFormed.inParent _ occurs front isChild
  omega

/-- **Names of two parts at different places lie apart.** -/
theorem Lexical.eq_or_apart (wellFormed : root.WellFormed source)
    (occurs : place ∈ root.occurrences) (parts : place.node.HasParts front back)
    (occursToo : inner ∈ root.occurrences) {front' back' : Node}
    (partsToo : inner.node.HasParts front' back') :
    place = inner ∨ Apart place.node inner.node := by
  rcases wellFormed.nested_or_apart occurs occursToo with below | above | apart
  · rcases mem_occurrencesBelow_iff_inside.mp below with same | inside
    · exact .inl same
    · exact absurd inside (lexical.not_inside occursToo partsToo parts)
  · rcases mem_occurrencesBelow_iff_inside.mp above with same | inside
    · exact .inl same.symm
    · exact absurd inside (lexical.not_inside occurs parts partsToo)
  · exact .inr apart

end Lexical

end Node

/-! ## The list of references -/

namespace Reference

section

variable {source : Bytes} {language : Language} {namespaceName : String} {root : Node}
  {place : Occurrence} {reference : Reference}

/-- A reference stands at a name of two parts: the namespace, and the member. -/
theorem Stands.exists_hasParts (stands : Stands source language namespaceName place reference) :
    ∃ front back, place.node.HasParts front back ∧ front.text source = namespaceName ∧
      back.text source = reference.member := by
  rcases stands with value | ⟨_, type⟩ | ⟨_, markup⟩
  · obtain ⟨kind, object, property, parts, text, _, _, _, _, rfl⟩ := value?_eq_some_iff.mp value
    exact ⟨object, property, .inl (Node.isMember_iff.mpr ⟨kind, parts⟩), text, rfl⟩
  · obtain ⟨kind, qualifier, name, _, _, parts, text, _, rfl⟩ := type?_eq_some_iff.mp type
    exact ⟨qualifier, name, .inr (.inl (Node.isTypeName_iff.mpr ⟨kind, parts⟩)), text, rfl⟩
  · obtain ⟨_, _, _, object, property, parts, text, rfl⟩ := markup?_eq_some_iff.mp markup
    exact ⟨object, property, .inr (.inr (Node.isTag_iff.mpr parts)), text, rfl⟩

theorem Stands.unique {other : Reference}
    (stands : Stands source language namespaceName place reference)
    (standsToo : Stands source language namespaceName place other) : reference = other :=
  Option.some.inj ((at?_eq_some_iff.mpr stands).symm.trans (at?_eq_some_iff.mpr standsToo))

variable (wellFormed : root.WellFormed source) (lexical : root.Lexical)

include wellFormed lexical

/-- Places with references of one range are the same place. -/
theorem Stands.place_eq_of_range_eq (occurs : place ∈ root.occurrences)
    (stands : Stands source language namespaceName place reference) {other : Occurrence}
    {reference' : Reference} (occursToo : other ∈ root.occurrences)
    (standsToo : Stands source language namespaceName other reference')
    (same : reference.range = reference'.range) : place = other := by
  obtain ⟨front, back, parts, _⟩ := stands.exists_hasParts
  obtain ⟨front', back', partsToo, _⟩ := standsToo.exists_hasParts
  rcases lexical.eq_or_apart wellFormed occurs parts occursToo partsToo with equal | apart
  · exact equal
  · have nonempty := lexical.start_lt_stop wellFormed occurs parts
    rw [range, range, stands.node_eq, standsToo.node_eq, Prod.mk.injEq] at same
    unfold Node.Apart at apart
    omega

/-- **What is found is what stands in the tree.** -/
theorem mem_find_iff :
    reference ∈ find source language namespaceName root ↔
      ∃ place ∈ root.occurrences, Stands source language namespaceName place reference := by
  constructor
  · exact exists_stands_of_mem_find
  · rintro ⟨place, occurs, stands⟩
    -- The reference that is kept for the range stands at the same place.
    obtain ⟨kept, isKept, same⟩ := exists_mem_distinct (mem_candidates.mpr ⟨place, occurs, stands⟩)
    obtain ⟨other, occursToo, standsToo⟩ := mem_candidates.mp (distinct_subset _ isKept)
    have samePlace := standsToo.place_eq_of_range_eq wellFormed lexical occursToo occurs stands same
    rw [samePlace] at standsToo
    rw [find, List.mem_mergeSort, stands.unique standsToo]
    exact isKept

/-- **The references that are found come one behind the other.** -/
theorem find_pairwise_ascending (language : Language) (namespaceName : String) :
    (find source language namespaceName root).Pairwise fun a b => a.node.stop ≤ b.node.start := by
  have sorted : (find source language namespaceName root).Pairwise fun a b =>
      decide (a.node.start ≤ b.node.start) = true :=
    List.pairwise_mergeSort (by simp; omega) (by simp; omega) _
  apply (sorted.and (find_pairwise_range source language namespaceName root)).imp_of_mem
  rintro a b foundA foundB ⟨ordered, different⟩
  obtain ⟨placeA, occursA, standsA⟩ := exists_stands_of_mem_find foundA
  obtain ⟨placeB, occursB, standsB⟩ := exists_stands_of_mem_find foundB
  obtain ⟨front, back, parts, _⟩ := standsA.exists_hasParts
  obtain ⟨front', back', partsToo, _⟩ := standsB.exists_hasParts
  have nonempty := lexical.start_lt_stop wellFormed occursA parts
  have nonemptyToo := lexical.start_lt_stop wellFormed occursB partsToo
  rw [range, range, standsA.node_eq, standsB.node_eq] at different
  rw [standsA.node_eq, standsB.node_eq, decide_eq_true_eq] at ordered
  rw [standsA.node_eq, standsB.node_eq]
  rcases lexical.eq_or_apart wellFormed occursA parts occursB partsToo with equal | apart
  · rw [equal] at different
    exact absurd rfl different
  · unfold Node.Apart at apart
    omega

theorem start_lt_stop_of_mem_find (found : reference ∈ find source language namespaceName root) :
    reference.node.start < reference.node.stop := by
  obtain ⟨place, occurs, stands⟩ := exists_stands_of_mem_find found
  obtain ⟨front, back, parts, _⟩ := stands.exists_hasParts
  rw [stands.node_eq]
  exact lexical.start_lt_stop wellFormed occurs parts

/-- No node is listed twice. -/
theorem nodup_map_node_find (language : Language) (namespaceName : String) :
    ((find source language namespaceName root).map (·.node)).Nodup := by
  rw [List.Nodup, List.pairwise_map]
  apply (find_pairwise_ascending wellFormed lexical language namespaceName).imp_of_mem
  intro a b foundA _ ascending same
  have nonempty := start_lt_stop_of_mem_find wellFormed lexical foundA
  rw [← same] at ascending
  omega

/-- A reference that is found for a node stands at every place of the node. -/
theorem stands_of_mem_find_of_node_eq (occurs : place ∈ root.occurrences)
    (found : reference ∈ find source language namespaceName root)
    (same : reference.node = place.node) :
    Stands source language namespaceName place reference := by
  obtain ⟨other, occursToo, stands⟩ := exists_stands_of_mem_find found
  obtain ⟨front, back, parts, _⟩ := stands.exists_hasParts
  have sameNode : other.node = place.node := stands.node_eq.symm.trans same
  rcases lexical.eq_or_apart wellFormed occursToo parts occurs (sameNode ▸ parts) with equal | apart
  · rwa [equal] at stands
  · have nonempty := lexical.start_lt_stop wellFormed occursToo parts
    rw [← sameNode] at apart
    unfold Node.Apart at apart
    omega

/-- A reference that meets an identifier stands at the parent of the identifier. -/
theorem stands_of_not_apart_word {word : Occurrence} (occurs : word ∈ root.occurrences)
    (isWord : word.node.isWord = true) {parent : Node} {above : List Node}
    (ancestors : word.ancestors = parent :: above) (noChain : parent.kind ≠ "optional_chain")
    (found : reference ∈ find source language namespaceName root)
    (meets : ¬ Node.Apart reference.node word.node) :
    Stands source language namespaceName ⟨parent, above⟩ reference := by
  obtain ⟨other, occursToo, stands⟩ := exists_stands_of_mem_find found
  obtain ⟨front, back, parts, _⟩ := stands.exists_hasParts
  have leaf := (lexical.words _ (List.mem_map_of_mem occurs) isWord).1
  have notWord : other ≠ word := by
    rintro rfl
    exact parts.children_ne_nil leaf
  rw [stands.node_eq] at meets
  rcases wellFormed.nested_or_apart occursToo occurs with below | above' | apart
  · exact absurd (Node.eq_of_mem_occurrencesBelow_leaf leaf below) notWord
  · have inside := (Node.mem_occurrencesBelow_iff_inside.mp above').resolve_left notWord.symm
    rcases lexical.inside_cases occursToo parts inside with
      chain | ⟨_, isParent | ⟨chain, _, sign, isSign⟩⟩
    · rw [Node.isWord, chain] at isWord
      exact absurd isWord (by decide)
    · cases ancestors.symm.trans isParent
      exact stands
    · cases ancestors.symm.trans isSign
      exact absurd sign noChain
  · exact absurd apart meets

end

/-- **The nodes that are listed are those that name a member, each once.** A reference is found for
a node, as a reference of some kind to some member, exactly when the node names that member in that
way. Every reference is found for a node of the tree, no node is listed twice, and the references
come one behind the other in the text. -/
theorem find_lists_exactly (source : Bytes) (language : Language) (namespaceName : String)
    (root : Node) (wellFormed : root.WellFormed source) (lexical : root.Lexical) :
    let references := find source language namespaceName root
    (∀ place ∈ root.occurrences, ∀ kind member,
      (∃ reference ∈ references, reference.node = place.node ∧ reference.kind = kind ∧
          reference.member = member) ↔
        Names source namespaceName language place kind member) ∧
      (∀ reference ∈ references, ∃ place ∈ root.occurrences, place.node = reference.node) ∧
      (references.map (·.node)).Nodup ∧
      references.Pairwise fun before after => before.node.stop ≤ after.node.start := by
  intro references
  refine ⟨?_, ?_, nodup_map_node_find wellFormed lexical _ _,
    find_pairwise_ascending wellFormed lexical _ _⟩
  · intro place occurs kind member
    rw [← exists_stands_iff_names]
    constructor
    · rintro ⟨reference, found, same, describes⟩
      exact ⟨reference, stands_of_mem_find_of_node_eq wellFormed lexical occurs found same,
        describes⟩
    · rintro ⟨reference, stands, describes⟩
      exact ⟨reference, (mem_find_iff wellFormed lexical).mpr ⟨place, occurs, stands⟩,
        stands.node_eq, describes⟩
  · intro reference found
    obtain ⟨place, occurs, stands⟩ := exists_stands_of_mem_find found
    exact ⟨place, occurs, stands.node_eq.symm⟩

end Reference

namespace Sample

/-- A unit that names a type, a tag with two ends and a value, and has an optional chain. -/
def panelText : String :=
  "let v: React.FC = <React.A>\x7bReact?.b\x7d\x7bReact.c\x7d</React.A>;\n"

def panelValue : Node :=
  branch "member_expression" 38 45 [
    filling "object" "identifier" 38 43 [],
    token "." 43 44,
    filling "property" "property_identifier" 44 45 []]

def panelExpression : Node :=
  branch "jsx_expression" 37 46 [token "\x7b" 37 38, panelValue, token "\x7d" 45 46]

def panelElement : Node :=
  filling "value" "jsx_element" 18 56 [
    filling "open_tag" "jsx_opening_element" 18 27 [
      token "<" 18 19,
      filling "name" "member_expression" 19 26 [
        filling "object" "identifier" 19 24 [],
        token "." 24 25,
        filling "property" "property_identifier" 25 26 []],
      token ">" 26 27],
    branch "jsx_expression" 27 37 [
      token "\x7b" 27 28,
      branch "member_expression" 28 36 [
        filling "object" "identifier" 28 33 [],
        filling "optional_chain" "optional_chain" 33 35 [token "?." 33 35],
        filling "property" "property_identifier" 35 36 []],
      token "\x7d" 36 37],
    panelExpression,
    filling "close_tag" "jsx_closing_element" 46 56 [
      token "</" 46 48,
      filling "name" "member_expression" 48 55 [
        filling "object" "identifier" 48 53 [],
        token "." 53 54,
        filling "property" "property_identifier" 54 55 []],
      token ">" 55 56]]

def panelDeclarator : Node :=
  branch "variable_declarator" 4 56 [
    filling "name" "identifier" 4 5 [],
    filling "type" "type_annotation" 5 15 [
      token ":" 5 6,
      branch "nested_type_identifier" 7 15 [
        filling "module" "identifier" 7 12 [],
        token "." 12 13,
        filling "name" "type_identifier" 13 15 []]],
    token "=" 16 17,
    panelElement]

def panelDeclaration : Node :=
  branch "lexical_declaration" 0 57 [token "let" 0 3, panelDeclarator, token ";" 56 57]

def panelRoot : Node :=
  branch "program" 0 58 [panelDeclaration]

/-- The place of the value. -/
def panelPlace : Occurrence :=
  ⟨panelValue, [panelExpression, panelElement, panelDeclarator, panelDeclaration, panelRoot]⟩

theorem panelPlace_mem_occurrences : panelPlace ∈ panelRoot.occurrences := by
  have declaration := Node.child_mem_occurrences (Node.root_mem_occurrences panelRoot) (.head _)
  have declarator := Node.child_mem_occurrences declaration (.tail _ (.head _))
  have element := Node.child_mem_occurrences declarator (.tail _ (.tail _ (.tail _ (.head _))))
  have expression := Node.child_mem_occurrences element (.tail _ (.tail _ (.head _)))
  exact Node.child_mem_occurrences expression (.tail _ (.head _))

theorem wellFormed_panel : panelRoot.WellFormed (Utf8.encode panelText) := by
  constructor <;> decide +kernel

theorem lexical_panel : panelRoot.Lexical := by
  constructor <;> decide +kernel

end Sample

namespace Reference

/-- The value between the two ends of the tag is found, and its node is listed once. -/
theorem find_lists_exactly_panel :
    (∃ reference ∈ find (Utf8.encode Sample.panelText) .tsx "React" Sample.panelRoot,
      reference.node = Sample.panelValue ∧ reference.kind = .value ∧ reference.member = "c") ∧
    ((find (Utf8.encode Sample.panelText) .tsx "React" Sample.panelRoot).map (·.node)).Nodup := by
  obtain ⟨exactly, _, once, _⟩ := find_lists_exactly (Utf8.encode Sample.panelText) .tsx "React"
    Sample.panelRoot Sample.wellFormed_panel Sample.lexical_panel
  refine ⟨(exactly Sample.panelPlace Sample.panelPlace_mem_occurrences .value "c").mpr ?_, once⟩
  have parts : Sample.panelValue.IsMember (Sample.filling "object" "identifier" 38 43 [])
      (Sample.filling "property" "property_identifier" 44 45 []) :=
    Node.isMember_iff.mpr ⟨rfl, rfl⟩
  have member : (Sample.filling "property" "property_identifier" 44 45 []).text
      (Utf8.encode Sample.panelText) = "c" := by
    decide +kernel
  rw [← member]
  exact .value parts (by decide +kernel) (by decide +kernel) (by decide +kernel) (by decide +kernel)

end Reference

end Unqualify
