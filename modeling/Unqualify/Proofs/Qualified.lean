import Mathlib.Data.List.TakeWhile
import Unqualify.Proofs.Reference

/-!
# Two-part names

A qualified name has two parts when an identifier stands in front of its last dot, and more when
another qualified name does. Every reference stands at a two-part name, and the identifier is the
namespace (`Stands.exists_object`).

Two-part names contain no further qualified name in the trees of the grammars. In a well-formed tree
with this property references do not overlap: two of them lie apart unless they have the same range
(`Stands.apart_of_range_ne`), and those that are found lie apart from each other
(`find_pairwise_apart`).
-/

set_option autoImplicit false

namespace Unqualify

namespace Node

/-! ## Names and their parts -/

/-- Whether a node is a qualified name, of two parts or more. -/
def isQualified (node : Node) : Bool :=
  ["member_expression", "nested_type_identifier", "nested_identifier"].contains node.kind

/-- An identifier stands in front of the last dot of a name: it fills the field for this part, or it
comes first among the named children. -/
def Leads (object name : Node) : Prop :=
  object ∈ name.children ∧ object.kind = "identifier" ∧
    (object.field = some "object" ∨ object.field = some "module" ∨
      name.namedChildren.head? = some object)

/-- Whether a node is a qualified name with an identifier in front of its last dot. -/
def isTwoPart (node : Node) : Bool :=
  node.isQualified &&
    (node.children.any (fun child => child.kind == "identifier" &&
        (child.field == some "object" || child.field == some "module")) ||
      node.namedChildren.head?.any fun child => child.kind == "identifier")

/-- Two-part names contain no further qualified name. -/
def TwoPartsPlain (root : Node) : Prop :=
  ∀ name ∈ root.preorder, name.isTwoPart = true →
    ∀ child ∈ name.children, ∀ inner ∈ child.preorder, inner.isQualified = false

theorem isTwoPart_of_leads {object name : Node} (qualified : name.isQualified = true)
    (leads : object.Leads name) : name.isTwoPart = true := by
  obtain ⟨member, kind, place⟩ := leads
  rw [isTwoPart, qualified, Bool.true_and, Bool.or_eq_true, List.any_eq_true]
  rcases place with field | field | first
  · exact .inl ⟨object, member, by simp [kind, field]⟩
  · exact .inl ⟨object, member, by simp [kind, field]⟩
  · exact .inr (by simp [first, kind])

theorem node_mem_preorder {ancestors : List Node} {node : Node} {occurrence : Occurrence}
    (occurs : occurrence ∈ node.occurrencesBelow ancestors) : occurrence.node ∈ node.preorder := by
  rw [← map_node_occurrencesBelow ancestors node]
  exact List.mem_map_of_mem occurs

/-- The first child that satisfies `head`, and the first later one that satisfies `tail`. -/
def HasPair (node : Node) (head tail : Node → Prop) (first second : Node) : Prop :=
  ∃ before between after,
    node.children = before ++ first :: (between ++ second :: after) ∧
      (head first ∧ ∀ child ∈ before, ¬ head child) ∧ tail second ∧ ∀ child ∈ between, ¬ tail child

theorem pair?_eq_some_iff {head tail : Node → Bool} {node first second : Node} :
    node.pair? head tail = some (first, second) ↔
      node.HasPair (head · = true) (tail · = true) first second := by
  rw [pair?]
  constructor
  · intro found
    split at found
    next => exact nomatch found
    next start rest left =>
      obtain ⟨other, isOther, same⟩ := Option.map_eq_some_iff.mp found
      cases same
      obtain ⟨isTail, between, after, split, skipped⟩ := List.find?_eq_some_iff_append.mp isOther
      have starts := List.head?_dropWhile_not (fun child => !head child) node.children
      simp only [left, List.head?_cons, Bool.not_eq_false'] at starts
      refine ⟨node.children.takeWhile fun child => !head child, between, after, ?_,
        ⟨starts, ?_⟩, isTail, ?_⟩
      · rw [← split, ← left, List.takeWhile_append_dropWhile]
      · intro child isBefore
        simpa using List.mem_takeWhile_imp isBefore
      · intro child isBetween
        simpa using skipped child isBetween
  · rintro ⟨before, between, after, split, ⟨isHead, noHead⟩, isTail, noTail⟩
    have dropped : node.children.dropWhile (fun child => !head child) =
        first :: (between ++ second :: after) := by
      rw [split, List.dropWhile_append_of_pos (by simpa using noHead),
        List.dropWhile_cons_of_neg (by simpa using isHead)]
    have found : (between ++ second :: after).find? tail = some second :=
      List.find?_eq_some_iff_append.mpr ⟨isTail, between, after, rfl, by simpa using noTail⟩
    rw [dropped]
    dsimp only
    rw [found]
    rfl

theorem HasPair.mem {head tail : Node → Prop} {node first second : Node}
    (pair : node.HasPair head tail first second) :
    (first ∈ node.children ∧ head first) ∧ second ∈ node.children ∧ tail second := by
  obtain ⟨before, between, after, split, ⟨isHead, _⟩, isTail, _⟩ := pair
  rw [split]
  exact ⟨⟨by simp, isHead⟩, by simp, isTail⟩

theorem mem_of_pair?_eq_some {head tail : Node → Bool} {node first second : Node}
    (found : node.pair? head tail = some (first, second)) :
    (first ∈ node.children ∧ head first = true) ∧ second ∈ node.children ∧ tail second = true :=
  (pair?_eq_some_iff.mp found).mem

end Node

namespace Reference

/-- The node in front of the dot of a reference. -/
def object? (reference : Reference) : Option Node :=
  match reference.kind with
  | .value => (memberParts? reference.node).map (·.1)
  | .markup => (tagParts? reference.node).map (·.1)
  | .type | .argument | .heritage => (typeParts? reference.node).map (·.1)

/-- What a two-part tag name consists of. -/
theorem tagParts?_eq_some_iff {tag object property : Node} :
    tagParts? tag = some (object, property) ↔
      (tag.kind = "member_expression" ∨ tag.kind = "nested_identifier") ∧
        ∃ first second, tag.namedChildren = [first, second] ∧
          object = (tag.child? "object").getD first ∧
          property = (tag.child? "property").getD second ∧ object.kind = "identifier" ∧
          (property.kind = "property_identifier" ∨ property.kind = "identifier") := by
  rw [tagParts?]
  split
  next other =>
    simp only [Bool.and_eq_true, bne_iff_ne, ne_eq] at other
    refine iff_of_false (Option.some_ne_none _).symm ?_
    rintro ⟨kind | kind, _⟩
    · exact other.1 kind
    · exact other.2 kind
  next tag' =>
    have kind : tag.kind = "member_expression" ∨ tag.kind = "nested_identifier" := by
      simpa [or_iff_not_imp_left] using tag'
    split
    next first second two =>
      simp only [Option.ite_none_right_eq_some, Bool.and_eq_true, Bool.or_eq_true, beq_iff_eq,
        Option.some.injEq, Prod.mk.injEq]
      constructor
      · rintro ⟨⟨isObject, isProperty⟩, rfl, rfl⟩
        exact ⟨kind, first, second, two, rfl, rfl, isObject, isProperty⟩
      · rintro ⟨_, _, _, same, rfl, rfl, isObject, isProperty⟩
        cases two.symm.trans same
        exact ⟨⟨isObject, isProperty⟩, rfl, rfl⟩
    next more =>
      refine iff_of_false (Option.some_ne_none _).symm ?_
      rintro ⟨_, first, second, two, _⟩
      exact more first second two

theorem leads_of_tagParts? {tag object property : Node}
    (parts : tagParts? tag = some (object, property)) : object.Leads tag := by
  obtain ⟨_, first, second, two, rfl, _, kind, _⟩ := tagParts?_eq_some_iff.mp parts
  cases field : tag.child? "object" with
  | none =>
      rw [field, Option.getD_none] at kind
      have among : first ∈ tag.namedChildren := by simp [two]
      refine ⟨(List.mem_filter.mp among).1, kind, .inr (.inr ?_)⟩
      rw [two]
      rfl
  | some object =>
      rw [field, Option.getD_some] at kind
      have named := List.find?_some field
      rw [beq_iff_eq] at named
      exact ⟨List.mem_of_find?_eq_some field, kind, .inl named⟩

/-! ## The reference at an occurrence -/

/-- The reference that stands at an occurrence. -/
def at? (source : Bytes) (language : Language) (namespaceName : String) (occurrence : Occurrence) :
    Option Reference :=
  (value? source namespaceName occurrence).or
    ((if language.hasTypes then type? source namespaceName occurrence else none).or
      (if language.hasMarkup then markup? source namespaceName occurrence else none))

section

variable {source : Bytes} {language : Language} {namespaceName : String} {occurrence : Occurrence}
  {reference : Reference}

theorem kind_of_markup? (markup : markup? source namespaceName occurrence = some reference) :
    occurrence.node.kind = "member_expression" ∨ occurrence.node.kind = "nested_identifier" := by
  obtain ⟨_, _, _, object, property, parts, _⟩ := markup?_eq_some_iff.mp markup
  exact (tagParts?_eq_some_iff.mp parts).1

/-- No two rules apply at one occurrence. -/
theorem at?_eq_some_iff :
    at? source language namespaceName occurrence = some reference ↔
      Stands source language namespaceName occurrence reference := by
  rw [at?, Stands, Option.or_eq_some_iff, Option.or_eq_some_iff, Option.ite_none_right_eq_some,
    Option.ite_none_right_eq_some]
  constructor
  · rintro (value | ⟨_, type | ⟨_, markup⟩⟩)
    · exact .inl value
    · exact .inr (.inl type)
    · exact .inr (.inr markup)
  · rintro (value | type | markup)
    · exact .inl value
    · have kind := (type?_eq_some_iff.mp type.2).1
      refine .inr ⟨?_, .inl type⟩
      rw [Option.eq_none_iff_forall_ne_some]
      intro other value
      rw [(value?_eq_some_iff.mp value).1] at kind
      exact absurd kind (by decide)
    · refine .inr ⟨?_, .inr ⟨?_, markup⟩⟩
      · rw [Option.eq_none_iff_forall_ne_some]
        intro other value
        obtain ⟨_, _, _, _, _, noTag, _⟩ := value?_eq_some_iff.mp value
        exact absurd ((markup?_eq_some_iff.mp markup.2).1.symm.trans noTag) (by decide)
      · rw [Option.eq_none_iff_forall_ne_some]
        intro other type
        rw [Option.ite_none_right_eq_some, type?_eq_some_iff] at type
        rcases kind_of_markup? markup.2 with kind | kind <;>
          exact absurd (type.2.1.symm.trans kind) (by decide)

theorem at?_eq_none_iff :
    at? source language namespaceName occurrence = none ↔
      ∀ reference, ¬ Stands source language namespaceName occurrence reference := by
  simp only [Option.eq_none_iff_forall_ne_some, ne_eq, at?_eq_some_iff]

end

/-! ## Names with the namespace in front -/

section Stands

variable {source : Bytes} {language : Language} {namespaceName : String} {root : Node}
  {occurrence : Occurrence} {reference : Reference}

theorem Stands.isQualified (stands : Stands source language namespaceName occurrence reference) :
    occurrence.node.isQualified = true :=
  List.contains_iff_mem.mpr stands.kind_mem

/-- **A reference stands at a name with the namespace in front of the dot.** -/
theorem Stands.exists_object (stands : Stands source language namespaceName occurrence reference) :
    ∃ object, reference.object? = some object ∧ object.Leads occurrence.node ∧
      object.text source = namespaceName := by
  rcases stands with value | ⟨_, type⟩ | ⟨_, markup⟩
  · obtain ⟨_, object, property, parts, text, _, _, _, _, rfl⟩ := value?_eq_some_iff.mp value
    obtain ⟨⟨member, place⟩, _⟩ := Node.mem_of_pair?_eq_some parts
    simp only [Bool.and_eq_true, beq_iff_eq] at place
    refine ⟨object, ?_, ⟨member, place.2, .inl place.1⟩, text⟩
    rw [object?, parts]
    rfl
  · obtain ⟨_, qualifier, name, kind, container, parts, text, classified, rfl⟩ :=
      type?_eq_some_iff.mp type
    obtain ⟨⟨member, place⟩, _⟩ := Node.mem_of_pair?_eq_some parts
    simp only [Bool.and_eq_true, beq_iff_eq] at place
    refine ⟨qualifier, ?_, ⟨member, place.2, .inr (.inl place.1)⟩, text⟩
    rcases classifyType?_cases classified with rfl | ⟨rfl, _⟩ | ⟨rfl, _⟩ <;>
      exact congrArg (Option.map Prod.fst) parts
  · obtain ⟨_, _, _, object, property, parts, text, rfl⟩ := markup?_eq_some_iff.mp markup
    refine ⟨object, ?_, leads_of_tagParts? parts, text⟩
    exact congrArg (Option.map Prod.fst) parts

theorem Stands.isTwoPart (stands : Stands source language namespaceName occurrence reference) :
    occurrence.node.isTwoPart = true := by
  obtain ⟨object, _, leads, _⟩ := stands.exists_object
  exact Node.isTwoPart_of_leads stands.isQualified leads

/-! ## References do not overlap -/

/-- No reference stands properly below another one. -/
theorem Stands.eq_of_below (plain : root.TwoPartsPlain)
    (stands : Stands source language namespaceName occurrence reference)
    (occurs : occurrence ∈ root.occurrences) {inner : Occurrence} {other : Reference}
    (inside : Stands source language namespaceName inner other)
    (below : inner ∈ occurrence.node.occurrencesBelow occurrence.ancestors) :
    inner = occurrence := by
  rcases Node.mem_occurrencesBelow.mp below with same | ⟨child, isChild, inChild⟩
  · exact same
  · have unqualified := plain occurrence.node (List.mem_map_of_mem occurs) stands.isTwoPart child
      isChild inner.node (Node.node_mem_preorder inChild)
    exact absurd (inside.isQualified.symm.trans unqualified) (by decide)

/-- **References of different ranges lie apart.** -/
theorem Stands.apart_of_range_ne (wellFormed : root.WellFormed source) (plain : root.TwoPartsPlain)
    (occurs : occurrence ∈ root.occurrences)
    (stands : Stands source language namespaceName occurrence reference) {place : Occurrence}
    {other : Reference} (occursToo : place ∈ root.occurrences)
    (standsToo : Stands source language namespaceName place other)
    (different : reference.range ≠ other.range) : Node.Apart reference.node other.node := by
  rw [range, range, stands.node_eq, standsToo.node_eq] at different
  rw [stands.node_eq, standsToo.node_eq]
  rcases wellFormed.nested_or_apart occurs occursToo with below | above | apart
  · rw [standsToo.eq_of_below plain occursToo stands below] at different
    exact absurd rfl different
  · rw [stands.eq_of_below plain occurs standsToo above] at different
    exact absurd rfl different
  · exact apart

end Stands

theorem distinct_pairwise_range (references : List Reference) :
    (distinct references).Pairwise fun a b => a.range ≠ b.range := by
  induction references using List.reverseRecOn with
  | nil => exact .nil
  | append_singleton references last ih =>
      rw [distinct_append_singleton]
      split
      next => exact ih
      next new =>
        refine List.pairwise_append.mpr ⟨ih, List.pairwise_singleton _ _, ?_⟩
        intro kept member other isLast same
        rw [List.mem_singleton.mp isLast] at same
        exact new (List.any_eq_true.mpr ⟨kept, member, beq_iff_eq.mpr same⟩)

theorem exists_mem_distinct {references : List Reference} {reference : Reference}
    (member : reference ∈ references) :
    ∃ kept ∈ distinct references, kept.range = reference.range := by
  induction references using List.reverseRecOn with
  | nil => exact nomatch member
  | append_singleton references last ih =>
      rw [distinct_append_singleton]
      rcases List.mem_append.mp member with before | isLast
      · obtain ⟨kept, isKept, same⟩ := ih before
        split
        next => exact ⟨kept, isKept, same⟩
        next => exact ⟨kept, List.mem_append_left _ isKept, same⟩
      · rw [List.mem_singleton.mp isLast]
        split
        next seen =>
          obtain ⟨kept, isKept, same⟩ := List.any_eq_true.mp seen
          exact ⟨kept, isKept, beq_iff_eq.mp same⟩
        next => exact ⟨last, List.mem_append_right _ List.mem_cons_self, rfl⟩

/-- What is kept is not dropped for a later reference. -/
theorem distinct_subset_append (references later : List Reference) :
    distinct references ⊆ distinct (references ++ later) := by
  induction later using List.reverseRecOn with
  | nil =>
      rw [List.append_nil]
      exact List.Subset.refl _
  | append_singleton later last ih =>
      rw [← List.append_assoc, distinct_append_singleton]
      split
      · exact ih
      · exact List.Subset.trans ih (List.subset_append_left _ _)

theorem find_pairwise_range (source : Bytes) (language : Language) (namespaceName : String)
    (root : Node) :
    (find source language namespaceName root).Pairwise fun a b => a.range ≠ b.range :=
  ((List.mergeSort_perm _ _).pairwise_iff fun different => different.symm).mpr
    (distinct_pairwise_range _)

/-- **The references that are found lie apart from each other.** -/
theorem find_pairwise_apart {source : Bytes} {root : Node} (wellFormed : root.WellFormed source)
    (plain : root.TwoPartsPlain) (language : Language) (namespaceName : String) :
    (find source language namespaceName root).Pairwise fun a b => Node.Apart a.node b.node := by
  apply (find_pairwise_range source language namespaceName root).imp_of_mem
  intro a b foundA foundB different
  obtain ⟨placeA, occursA, standsA⟩ := exists_stands_of_mem_find foundA
  obtain ⟨placeB, occursB, standsB⟩ := exists_stands_of_mem_find foundB
  exact standsA.apart_of_range_ne wellFormed plain occursA occursB standsB different

/-! ## Values that are found -/

section Values

variable {source : Bytes} {namespaceName : String} {root : Node} {occurrence : Occurrence}
  {reference : Reference}

/-- A value that covers no text has no name. -/
theorem member_eq_empty_of_value? (wellFormed : root.WellFormed source)
    (occurs : occurrence ∈ root.occurrences)
    (value : value? source namespaceName occurrence = some reference)
    (empty : occurrence.node.stop ≤ occurrence.node.start) : reference.member = "" := by
  obtain ⟨_, object, property, parts, _, _, _, _, _, rfl⟩ := value?_eq_some_iff.mp value
  obtain ⟨_, isChild, _⟩ := Node.mem_of_pair?_eq_some parts
  have inside := wellFormed.inParent _ occurs property isChild
  have nothing : property.stop - property.start = 0 := by omega
  show property.text source = ""
  rw [Node.text, Node.bytes, Bytes.slice, nothing, List.take_zero]
  rfl

theorem kind_of_value? (value : value? source namespaceName occurrence = some reference) :
    reference.kind = .value := by
  obtain ⟨_, _, _, _, _, _, _, _, _, rfl⟩ := value?_eq_some_iff.mp value
  rfl

/-- Of each value that stands in the tree one of the same range is found. Values are listed before
the other candidates, so that none of these takes the place of a value. -/
theorem exists_value?_mem_find (occurs : occurrence ∈ root.occurrences)
    (value : value? source namespaceName occurrence = some reference) (language : Language) :
    ∃ found ∈ find source language namespaceName root, found.range = reference.range ∧
      ∃ place ∈ root.occurrences, value? source namespaceName place = some found := by
  have candidate : reference ∈ root.occurrences.filterMap (value? source namespaceName) :=
    List.mem_filterMap.mpr ⟨occurrence, occurs, value⟩
  obtain ⟨found, isKept, sameRange⟩ := exists_mem_distinct candidate
  refine ⟨found, ?_, sameRange, List.mem_filterMap.mp (distinct_subset _ isKept)⟩
  rw [find, List.mem_mergeSort, candidates]
  exact distinct_subset_append _ _ (distinct_subset_append _ _ isKept)

/-- **Of each value that stands in the tree one of the same range and name is found, as a
value.** -/
theorem exists_value_mem_find (wellFormed : root.WellFormed source) (plain : root.TwoPartsPlain)
    (occurs : occurrence ∈ root.occurrences)
    (value : value? source namespaceName occurrence = some reference) (language : Language) :
    ∃ found ∈ find source language namespaceName root,
      found.kind = .value ∧ found.range = reference.range ∧ found.member = reference.member := by
  obtain ⟨found, isFound, sameRange, place, occursToo, valueToo⟩ :=
    exists_value?_mem_find occurs value language
  refine ⟨found, isFound, kind_of_value? valueToo, sameRange, ?_⟩
  have stands : Stands source language namespaceName occurrence reference := .inl value
  have standsToo : Stands source language namespaceName place found := .inl valueToo
  rcases wellFormed.nested_or_apart occurs occursToo with below | above | apart
  · rw [standsToo.eq_of_below plain occursToo stands below] at value
    rw [Option.some.inj (valueToo.symm.trans value)]
  · rw [stands.eq_of_below plain occurs standsToo above] at valueToo
    rw [Option.some.inj (valueToo.symm.trans value)]
  · have forward := wellFormed.forward _ occurs
    have forwardToo := wellFormed.forward _ occursToo
    rw [range, range, standsToo.node_eq, stands.node_eq, Prod.mk.injEq] at sameRange
    unfold Node.Apart at apart
    rw [member_eq_empty_of_value? wellFormed occurs value (by omega),
      member_eq_empty_of_value? wellFormed occursToo valueToo (by omega)]

end Values

end Reference

end Unqualify
