import Unqualify.Proofs.Discovery

/-!
# Dotted names

The name in a tag is an identifier, or identifiers with dots between them, or two with a colon. A
name with dots is nested to the left: the object of the last dot holds all other dots, and the first
dot lies innermost, between the first two words (`Lexical.exists_firstDot`). Comments may stand
around a dot. The rules for references differ in what they make of these: a name with a comment is
no tag of two parts (`Dot.isTag_iff`) but still a member expression of two parts
(`Dot.isMember_iff`).
-/

set_option autoImplicit false

namespace Unqualify

namespace Node

/-! ## Dotted names -/

/-- The identifiers at and below a node, in document order. -/
def words (node : Node) : List Node :=
  node.preorder.filter isWord

/-- A comment stands among the children of a node. -/
def HasComment (node : Node) : Prop :=
  ∃ child ∈ node.children, child.kind = "comment"

instance (node : Node) : Decidable node.HasComment :=
  inferInstanceAs (Decidable (∃ child ∈ node.children, child.kind = "comment"))

/-- A name is a dot between an object and a property. Besides these it has only dots and comments. A
grammar may leave the two parts without fields, and then it uses a kind of its own for the name. -/
structure Dot (name object property : Node) : Prop where
  kind : name.kind ∈ ["member_expression", "nested_identifier"]
  children : ∃ between after, name.children = object :: (between ++ property :: after) ∧
    ∀ other ∈ between ++ after, other.field = none ∧
      (other.kind = "." ∧ other.named = false ∨ other.kind = "comment" ∧ other.named = true)
  start : name.start = object.start
  named : object.named = true ∧ property.named = true
  objectKind : object.kind ≠ "comment"
  fields : object.field = some "object" ∧ property.field = some "property" ∨
    name.kind = "nested_identifier" ∧ object.field = none ∧ property.field = none
  propertyKind : property.kind = "property_identifier" ∨
    name.kind = "nested_identifier" ∧ property.kind = "identifier"

/-- A dotted name, with the kinds of the nodes that stand for its dots, outermost first. -/
inductive Dotted : Node → List String → Prop where
  | word {leaf : Node} (kind : leaf.kind = "identifier") : Dotted leaf []
  | dot {name object property : Node} {kinds : List String} (dot : name.Dot object property)
      (front : Dotted object kinds) : Dotted name (name.kind :: kinds)

/-- A name with a colon: its words, and around them tokens and comments. -/
structure Prefixed (name : Node) : Prop where
  kind : name.kind = "jsx_namespace_name"
  children : ∀ child ∈ name.children, child.isWord = true ∨ child.isMark = true

/-- Two names of one shape, either with dots of the same kinds or with a colon. -/
def Alike (name other : Node) : Prop :=
  (∃ kinds, name.Dotted kinds ∧ other.Dotted kinds) ∨ name.Prefixed ∧ other.Prefixed

/-- The first dot of a dotted name at a place, with the words around it, the other dots from the
inside out, and the words behind those. -/
structure FirstDot (root : Node) (place : Occurrence) (kinds : List String) (first : Occurrence)
    (object property : Node) (outer rest : List Node) : Prop where
  occurs : first ∈ root.occurrences
  dot : first.node.Dot object property
  objectKind : object.kind = "identifier"
  ancestors : first.ancestors = outer ++ place.ancestors
  words : place.node.words = object :: property :: rest
  kinds : kinds.reverse = first.node.kind :: outer.map Node.kind
  self : outer = [] → first = place
  outerKinds : ∀ link ∈ outer, link.kind ∈ ["member_expression", "nested_identifier"]
  behind : ∀ word ∈ rest, ∃ name above longer, ⟨word, name :: above⟩ ∈ root.occurrences ∧
    name.Dot longer word ∧ longer.isWord = false

theorem Dotted.kind_ne_colon {node : Node} {kinds : List String} (dotted : node.Dotted kinds) :
    node.kind ≠ "jsx_namespace_name" := by
  intro colon
  cases dotted with
  | word kind => exact absurd (kind.symm.trans colon) (by decide)
  | dot dot => exact absurd (colon ▸ dot.kind) (by decide)

theorem child?_getD_eq {node part : Node} {field : String}
    (unique : ∀ child ∈ node.children, child.field = some field → child = part) :
    (node.child? field).getD part = part := by
  cases found : node.child? field with
  | none => rfl
  | some child =>
      have filled := List.find?_some found
      exact unique child (List.mem_of_find?_eq_some found) (beq_iff_eq.mp filled)

section Dot

variable {name object property : Node} (dot : name.Dot object property)

include dot

theorem Dot.mem_children {child : Node} (isChild : child ∈ name.children) :
    child = object ∨ child = property ∨ child.field = none ∧
      (child.kind = "." ∧ child.named = false ∨ child.kind = "comment" ∧ child.named = true) := by
  obtain ⟨between, after, children, others⟩ := dot.children
  rw [children, List.mem_cons, List.mem_append, List.mem_cons] at isChild
  rcases isChild with isObject | isBetween | isProperty | isAfter
  · exact .inl isObject
  · exact .inr (.inr (others child (List.mem_append_left _ isBetween)))
  · exact .inr (.inl isProperty)
  · exact .inr (.inr (others child (List.mem_append_right _ isAfter)))

theorem Dot.object_mem : object ∈ name.children := by
  obtain ⟨between, after, children, _⟩ := dot.children
  simp [children]

theorem Dot.property_mem : property ∈ name.children := by
  obtain ⟨between, after, children, _⟩ := dot.children
  simp [children]

theorem Dot.property_isWord : property.isWord = true := by
  rcases dot.propertyKind with kind | ⟨_, kind⟩ <;> rw [isWord, kind] <;> decide

theorem Dot.eq_object {child : Node} (isChild : child ∈ name.children)
    (field : child.field = some "object") : child = object := by
  rcases dot.mem_children isChild with same | same | ⟨other, _⟩
  · exact same
  · rw [same] at field
    rcases dot.fields with ⟨_, isProperty⟩ | ⟨_, _, isProperty⟩ <;>
      exact absurd (isProperty.symm.trans field) (by decide)
  · exact absurd (other.symm.trans field) (by decide)

theorem Dot.eq_property {child : Node} (isChild : child ∈ name.children)
    (field : child.field = some "property") : child = property := by
  rcases dot.mem_children isChild with same | same | ⟨other, _⟩
  · rw [same] at field
    rcases dot.fields with ⟨isObject, _⟩ | ⟨_, isObject, _⟩ <;>
      exact absurd (isObject.symm.trans field) (by decide)
  · exact same
  · exact absurd (other.symm.trans field) (by decide)

/-- The named children of a name are its two parts and its comments. -/
theorem Dot.exists_namedChildren :
    ∃ between after, name.namedChildren = object :: (between ++ property :: after) ∧
      (between ++ after = [] ↔ ¬ name.HasComment) := by
  obtain ⟨between, after, children, others⟩ := dot.children
  have propertyKind : property.kind ≠ "comment" := by
    rcases dot.propertyKind with kind | ⟨_, kind⟩ <;> rw [kind] <;> decide
  have named_iff : ∀ other ∈ between ++ after, other.named = true ↔ other.kind = "comment" := by
    intro other isOther
    rcases (others other isOther).2 with ⟨kind, named⟩ | ⟨kind, named⟩ <;> simp [kind, named]
  have commented : name.HasComment ↔ ∃ other ∈ between ++ after, other.named = true := by
    rw [HasComment, children]
    constructor
    · rintro ⟨child, isChild, comment⟩
      have isOther : child ∈ between ++ after := by
        rw [List.mem_cons, List.mem_append, List.mem_cons] at isChild
        rcases isChild with rfl | isBetween | rfl | isAfter
        · exact absurd comment dot.objectKind
        · exact List.mem_append_left _ isBetween
        · exact absurd comment propertyKind
        · exact List.mem_append_right _ isAfter
      exact ⟨child, isOther, (named_iff child isOther).mpr comment⟩
    · rintro ⟨other, isOther, named⟩
      exact ⟨other, by grind, (named_iff other isOther).mp named⟩
  refine ⟨between.filter Node.named, after.filter Node.named, ?_, ?_⟩
  · rw [namedChildren, children, List.filter_cons_of_pos dot.named.1, List.filter_append,
      List.filter_cons_of_pos dot.named.2]
  · rw [commented, ← List.filter_append, List.filter_eq_nil_iff]
    simp

theorem Dot.namedChildren_eq_pair_iff {first second : Node} :
    name.namedChildren = [first, second] ↔
      first = object ∧ second = property ∧ ¬ name.HasComment := by
  obtain ⟨between, after, listed, plain⟩ := dot.exists_namedChildren
  rw [listed, ← plain]
  constructor
  · intro same
    have lengths := congrArg List.length same
    simp only [List.length_cons, List.length_append, List.length_nil] at lengths
    obtain rfl : between = [] := List.eq_nil_of_length_eq_zero (by omega)
    obtain rfl : after = [] := List.eq_nil_of_length_eq_zero (by omega)
    cases same
    exact ⟨rfl, rfl, rfl⟩
  · rintro ⟨rfl, rfl, none⟩
    obtain ⟨rfl, rfl⟩ := List.append_eq_nil_iff.mp none
    rfl

/-- The parts of a name with a dot are its object and its property. -/
theorem Dot.eq_of_hasParts {front back : Node} (parts : name.HasParts front back) :
    front = object ∧ back = property := by
  rcases parts with member | typeName | tag
  · obtain ⟨⟨isFront, frontField, _⟩, isBack, backField, _⟩ := member.parts.mem
    exact ⟨dot.eq_object isFront frontField, dot.eq_property isBack backField⟩
  · exact absurd (typeName.kind ▸ dot.kind) (by decide)
  · obtain ⟨first, second, two, rfl, rfl⟩ := tag.parts
    obtain ⟨rfl, rfl, _⟩ := dot.namedChildren_eq_pair_iff.mp two
    exact ⟨child?_getD_eq fun _ => dot.eq_object, child?_getD_eq fun _ => dot.eq_property⟩

/-- A name is read as a tag exactly when it has two parts and no comment. -/
theorem Dot.isTag_iff :
    name.IsTag object property ↔ object.kind = "identifier" ∧ ¬ name.HasComment := by
  constructor
  · intro tag
    obtain ⟨first, second, two, _⟩ := tag.parts
    exact ⟨tag.objectKind, (dot.namedChildren_eq_pair_iff.mp two).2.2⟩
  · rintro ⟨isIdentifier, plain⟩
    refine ⟨?_, ⟨object, property, ?_, ?_, ?_⟩, isIdentifier, ?_⟩
    · simpa using dot.kind
    · exact dot.namedChildren_eq_pair_iff.mpr ⟨rfl, rfl, plain⟩
    · exact (child?_getD_eq fun _ => dot.eq_object).symm
    · exact (child?_getD_eq fun _ => dot.eq_property).symm
    · rcases dot.propertyKind with kind | ⟨_, kind⟩
      · exact .inl kind
      · exact .inr kind

/-- A name is read as a member expression exactly when it is one of two parts. Comments do not
count. -/
theorem Dot.isMember_iff :
    name.IsMember object property ↔
      name.kind = "member_expression" ∧ object.kind = "identifier" := by
  constructor
  · intro member
    exact ⟨member.kind, member.parts.mem.1.2.2⟩
  · rintro ⟨kind, isIdentifier⟩
    have noNested : name.kind ≠ "nested_identifier" := by rw [kind]; decide
    obtain ⟨objectField, propertyField⟩ :=
      dot.fields.resolve_right fun ⟨nested, _⟩ => noNested nested
    have propertyKind := dot.propertyKind.resolve_right fun ⟨nested, _⟩ => noNested nested
    obtain ⟨between, after, children, others⟩ := dot.children
    refine ⟨kind, [], between, after, children, ⟨⟨objectField, isIdentifier⟩, nofun⟩,
      ⟨propertyField, propertyKind⟩, ?_⟩
    rintro child isBetween ⟨field, _⟩
    exact absurd ((others child (List.mem_append_left _ isBetween)).1.symm.trans field) (by decide)

theorem Dot.isWord_eq_false : name.isWord = false := by
  have kind := dot.kind
  simp only [List.mem_cons, List.not_mem_nil, or_false] at kind
  rcases kind with kind | kind <;> rw [isWord, kind] <;> decide

theorem Dot.kind_ne_chain : name.kind ≠ "optional_chain" := by
  intro chain
  exact absurd (chain ▸ dot.kind) (by decide)

theorem Dot.unchained (objectKind : object.kind = "identifier") :
    ∀ child ∈ name.children, child.kind ≠ "optional_chain" := by
  intro child isChild chain
  rcases dot.mem_children isChild with rfl | rfl | ⟨_, ⟨kind, _⟩ | ⟨kind, _⟩⟩
  · exact absurd (objectKind.symm.trans chain) (by decide)
  · rcases dot.propertyKind with kind | ⟨_, kind⟩ <;>
      exact absurd (kind.symm.trans chain) (by decide)
  · exact absurd (kind.symm.trans chain) (by decide)
  · exact absurd (kind.symm.trans chain) (by decide)

end Dot

theorem Dot.stop_le_start {source : Bytes} {root : Node} (wellFormed : root.WellFormed source)
    {place : Occurrence} (occurs : place ∈ root.occurrences) {object property : Node}
    (dot : place.node.Dot object property) : object.stop ≤ property.start := by
  obtain ⟨between, after, children, _⟩ := dot.children
  have ordered := wellFormed.ordered _ occurs
  rw [children] at ordered
  exact (List.pairwise_cons.mp ordered).1 property (by simp)

/-! ## The words of a name -/

theorem words_eq (node : Node) :
    node.words = (if node.isWord = true then [node] else []) ++ node.children.flatMap words := by
  rw [words, preorder_eq, List.filter_cons, List.filter_flatMap]
  split <;> rfl

theorem words_of_leaf {node : Node} (leaf : node.children = []) :
    node.words = if node.isWord = true then [node] else [] := by
  rw [words_eq, leaf, List.flatMap_nil, List.append_nil]

section Lexical

variable {source : Bytes} {root : Node} (lexical : root.Lexical)

include lexical

/-- The words of a name cover some text. -/
theorem Lexical.inBounds_of_mem_words (wellFormed : root.WellFormed source) {place : Occurrence}
    (occurs : place ∈ root.occurrences) {word : Node} (isWord : word ∈ place.node.words) :
    word.start < word.stop ∧ word.stop ≤ source.length := by
  obtain ⟨inName, isWord⟩ := List.mem_filter.mp isWord
  rw [← map_node_occurrencesBelow place.ancestors] at inName
  obtain ⟨inner, below, rfl⟩ := List.mem_map.mp inName
  have inTree := occurrences_trans occurs below
  exact ⟨(lexical.words _ (List.mem_map_of_mem inTree) isWord).2, (wellFormed.inBounds inTree).2⟩

theorem Lexical.words_of_isWord {node : Node} (inTree : node ∈ root.preorder)
    (isWord : node.isWord = true) : node.words = [node] := by
  rw [words_of_leaf (lexical.words node inTree isWord).1, if_pos isWord]

/-- The words of a name are those of its object, and then its property. -/
theorem Lexical.words_of_dot {place : Occurrence} (occurs : place ∈ root.occurrences)
    {object property : Node} (dot : place.node.Dot object property) :
    place.node.words = object.words ++ [property] := by
  have inTree {child : Node} (isChild : child ∈ place.node.children) : child ∈ root.preorder :=
    List.mem_map_of_mem (child_mem_occurrences occurs isChild)
  have propertyWords := lexical.words_of_isWord (inTree dot.property_mem) dot.property_isWord
  obtain ⟨between, after, children, others⟩ := dot.children
  have wordless : ∀ other ∈ between ++ after, other.words = [] := by
    intro other isOther
    have isChild : other ∈ place.node.children := by grind
    obtain ⟨mark, noWord⟩ : other.isMark = true ∧ other.isWord = false := by
      rcases (others other isOther).2 with ⟨kind, named⟩ | ⟨kind, named⟩ <;>
        simp [isMark, isWord, kind, named]
    rw [words_of_leaf (lexical.marks other (inTree isChild) mark), noWord]
    rfl
  rw [words_eq, dot.isWord_eq_false, children, List.flatMap_cons, List.flatMap_append,
    List.flatMap_cons, propertyWords,
    List.flatMap_eq_nil_iff.mpr fun other isBetween =>
      wordless other (List.mem_append_left _ isBetween),
    List.flatMap_eq_nil_iff.mpr fun other isAfter =>
      wordless other (List.mem_append_right _ isAfter)]
  rfl

/-- A word of a name with a colon is one of its children. -/
theorem Lexical.mem_children_of_prefixed {place : Occurrence} (occurs : place ∈ root.occurrences)
    (colon : place.node.Prefixed) {word : Node} (isWord : word ∈ place.node.words) :
    word ∈ place.node.children ∧ word.isWord = true := by
  obtain ⟨inName, isWord⟩ := List.mem_filter.mp isWord
  rw [preorder_eq, List.mem_cons, List.mem_flatMap] at inName
  rcases inName with rfl | ⟨child, isChild, below⟩
  · rw [Node.isWord, colon.kind] at isWord
    exact absurd isWord (by decide)
  · have inTree : child ∈ root.preorder :=
      List.mem_map_of_mem (child_mem_occurrences occurs isChild)
    have leaf : child.children = [] := by
      rcases colon.children child isChild with word | mark
      · exact (lexical.words child inTree word).1
      · exact lexical.marks child inTree mark
    rw [preorder_eq, leaf, List.flatMap_nil, List.mem_singleton] at below
    rw [below] at isWord ⊢
    exact ⟨isChild, isWord⟩

theorem Lexical.length_words {node : Node} {kinds : List String} (dotted : Dotted node kinds) :
    ∀ {above : List Node}, ⟨node, above⟩ ∈ root.occurrences →
      node.words.length = kinds.length + 1 := by
  induction dotted with
  | word kind =>
      intro above occurs
      rw [lexical.words_of_isWord (List.mem_map_of_mem occurs) (by rw [isWord, kind]; decide)]
      rfl
  | dot dot front ih =>
      intro above occurs
      rw [lexical.words_of_dot occurs dot, List.length_append,
        ih (child_mem_occurrences occurs dot.object_mem)]
      rfl

/-- **Every dotted name has a first dot.** In front of it stands the first word, the nodes between
it and the whole name are the other dots, and behind each of these stands one more word. -/
theorem Lexical.exists_firstDot {node : Node} {kinds : List String} (dotted : Dotted node kinds) :
    ∀ {above : List Node}, ⟨node, above⟩ ∈ root.occurrences → kinds ≠ [] →
      ∃ first object property outer rest,
        FirstDot root ⟨node, above⟩ kinds first object property outer rest := by
  induction dotted with
  | word => exact fun _ nonempty => absurd rfl nonempty
  | @dot name object property kinds dot front ih =>
      intro above occurs _
      have words := lexical.words_of_dot occurs dot
      have objectOccurs := child_mem_occurrences occurs dot.object_mem
      cases front with
      | word kind =>
          have objectWords := lexical.words_of_isWord (List.mem_map_of_mem objectOccurs)
            (by rw [isWord, kind]; decide)
          refine ⟨⟨name, above⟩, object, property, [], [], occurs, dot, kind, rfl, ?_, rfl,
            fun _ => rfl, ?_, ?_⟩
          · rw [words, objectWords]
            rfl
          · exact List.forall_mem_nil _
          · exact List.forall_mem_nil _
      | dot objectDot inner =>
          obtain ⟨first, object', property', outer, rest, found⟩ :=
            ih objectOccurs (List.cons_ne_nil _ _)
          refine ⟨first, object', property', outer ++ [name], rest ++ [property], found.occurs,
            found.dot, found.objectKind, ?_, ?_, ?_, ?_, ?_, ?_⟩
          · rw [found.ancestors, List.append_assoc]
            rfl
          · rw [words, found.words]
            rfl
          · rw [List.reverse_cons, found.kinds, List.map_append]
            rfl
          · simp
          · intro link isLink
            rcases List.mem_append.mp isLink with isOuter | isName
            · exact found.outerKinds link isOuter
            · rw [List.mem_singleton.mp isName]
              exact dot.kind
          · intro word isWord
            rcases List.mem_append.mp isWord with isRest | isProperty
            · exact found.behind word isRest
            · rw [List.mem_singleton.mp isProperty]
              exact ⟨name, above, object, child_mem_occurrences occurs dot.property_mem, dot,
                objectDot.isWord_eq_false⟩

end Lexical

end Node

end Unqualify
