import Unqualify.Proofs.DottedName
import Unqualify.Proofs.Edit
import Unqualify.Proofs.Text.Utf8

/-!
# The two ends of an element

The names at the two ends of an element are read independently of each other. A name of two parts is
read as a tag, and then a comment in it keeps it from being read; in a longer name the first two
parts are read as a value, and comments do not count. So two names with the same words are rewritten
together unless each is the namespace and one member and a comment stands in only one of them
(`tags_stay_matched_iff`). In that case the element is left with two names that differ
(`commented_end_left_behind`).

The words of a name after the edits are what the edits make of their ranges. When a reference stands
at the first dot of a name, the member takes the place of the first word, the second word is gone,
and the others stay (`shortened_of_stands`); when none stands there, all words stay
(`apart_of_not_stands_first`).
-/

set_option autoImplicit false

namespace Unqualify

namespace Node

/-! ## Names before and after -/

/-- The namespace is taken off a tag name: the name starts with it, and it has two parts and no
comment, or its first two dots are member expressions. -/
def IsShortened (source : Bytes) (namespaceName : String) (kinds : List String)
    (node : Node) : Prop :=
  (node.words.map (·.text source)).head? = some namespaceName ∧
    (kinds.length = 1 ∧ ¬ node.HasComment ∨ ["member_expression", "member_expression"] <:+ kinds)

/-- An edit takes up a word of a name. -/
def RewrittenBy (edits : List Edit) (node : Node) : Prop :=
  ∃ word ∈ node.words, ∃ edit ∈ edits, edit.start ≤ word.start ∧ word.stop ≤ edit.stop

instance (edits : List Edit) (node : Node) : Decidable (node.RewrittenBy edits) :=
  inferInstanceAs (Decidable (∃ word ∈ node.words, ∃ edit ∈ edits,
    edit.start ≤ word.start ∧ word.stop ≤ edit.stop))

/-- The texts that edits leave of words, less the words of which they leave nothing. -/
def textsAfter (source : Bytes) (edits : List Edit) (words : List Node) : List String :=
  ((words.map fun word => Edit.madeOf source edits word.start word.stop).filter
    fun bytes => !bytes.isEmpty).map Utf8.decodeOrEmpty

/-- What is left of the texts of the words when the first is taken off. The second goes as well when
there is nothing to write for it. -/
def shorten : List String → List String
  | _ :: member :: rest => (if (Utf8.encode member).isEmpty then [] else [member]) ++ rest
  | texts => texts

/-- Where a name is the namespace and one member, comments stand in both names or in neither. A name
with a colon is never read. -/
def CommentsAgree (source : Bytes) (namespaceName : String) (name other : Node) : Prop :=
  name.kind = "jsx_namespace_name" ∨
    ∀ member, name.words.map (·.text source) = [namespaceName, member] →
      (name.HasComment ↔ other.HasComment)

theorem shorten_cons_cons_ne (first member : String) (rest : List String) :
    shorten (first :: member :: rest) ≠ first :: member :: rest := by
  intro same
  have lengths := congrArg List.length same
  rw [shorten, List.length_append, List.length_cons, List.length_cons] at lengths
  split at lengths <;> simp only [List.length_cons, List.length_nil] at lengths <;> omega

theorem textsAfter_cons {source : Bytes} {edits : List Edit} {word : Node} {made : Bytes}
    (madeOf : Edit.madeOf source edits word.start word.stop = made) (words : List Node) :
    textsAfter source edits (word :: words) =
      (if made.isEmpty then [] else [Utf8.decodeOrEmpty made]) ++
        textsAfter source edits words := by
  rw [textsAfter, List.map_cons, madeOf, List.filter_cons]
  cases made.isEmpty <;> rfl

end Node

/-! ## Tag names -/

/-- The name in a tag. -/
def Occurrence.IsTagName (root : Node) (place : Occurrence) : Prop :=
  place ∈ root.occurrences ∧ place.node.named = true ∧ place.node.field = some "name" ∧
    ∃ tag above, place.ancestors = tag :: above ∧ tag.kind ∈
      ["jsx_opening_element", "jsx_closing_element", "jsx_self_closing_element"]

namespace Reference

section

variable {source : Bytes} {language : Language} {namespaceName : String} {root : Node}

theorem exists_stands_iff_exists_names {place : Occurrence} :
    (∃ reference, Stands source language namespaceName place reference) ↔
      ∃ kind member, Names source namespaceName language place kind member := by
  simp only [← exists_stands_iff_names]
  constructor
  · rintro ⟨reference, stands⟩
    exact ⟨_, _, reference, stands, rfl, rfl⟩
  · rintro ⟨_, _, reference, stands, _⟩
    exact ⟨reference, stands⟩

variable {place : Occurrence} {object property : Node} (dot : place.node.Dot object property)

include dot

/-- The whole name in a tag is replaced exactly when it has two parts, the first is the namespace,
and no comment stands between them. -/
theorem exists_stands_tag_iff (marked : language = .javascript ∨ language = .tsx)
    (tagName : place.IsTagName root) :
    (∃ reference, Stands source language namespaceName place reference) ↔
      object.kind = "identifier" ∧ object.text source = namespaceName ∧
        ¬ place.node.HasComment := by
  obtain ⟨_, named, field, tag, above, ancestors, tagKind⟩ := tagName
  have isTag : place.parent? = some tag := by rw [Occurrence.parent?, ancestors, List.head?_cons]
  rw [exists_stands_iff_exists_names]
  constructor
  · rintro ⟨_, _, names⟩
    cases names with
    | value parts namespaced unchained inExpression =>
        exact absurd (List.mem_append_left _ tagKind) (inExpression tag isTag)
    | type typed parts =>
        exact absurd (parts.kind ▸ dot.kind) (by decide)
    | markup _ _ _ parts namespaced =>
        obtain ⟨rfl, rfl⟩ := dot.eq_of_hasParts (.inr (.inr parts))
        obtain ⟨isIdentifier, plain⟩ := dot.isTag_iff.mp parts
        exact ⟨isIdentifier, namespaced, plain⟩
  · rintro ⟨isIdentifier, namespaced, plain⟩
    exact ⟨_, _, .markup marked ⟨tag, isTag, tagKind⟩ ⟨named, field⟩
      (dot.isTag_iff.mpr ⟨isIdentifier, plain⟩) namespaced⟩

/-- A name in front of another dot of a tag name is replaced exactly when both dots are member
expressions and its first part is the namespace. -/
theorem exists_stands_inner_iff {whole : Occurrence} (tagName : whole.IsTagName root)
    {parent : Node} {more : List Node}
    (ancestors : place.ancestors = parent :: more ++ whole.ancestors)
    (links : ∀ link ∈ parent :: more, link.kind ∈ ["member_expression", "nested_identifier"])
    (objectKind : object.kind = "identifier") :
    (∃ reference, Stands source language namespaceName place reference) ↔
      object.text source = namespaceName ∧ place.node.kind = "member_expression" ∧
        parent.kind = "member_expression" := by
  have isParent : place.parent? = some parent := by
    rw [Occurrence.parent?, ancestors]
    rfl
  have parentKind := links parent List.mem_cons_self
  rw [exists_stands_iff_exists_names]
  constructor
  · rintro ⟨_, _, names⟩
    cases names with
    | value parts namespaced unchained inExpression =>
        obtain ⟨rfl, rfl⟩ := dot.eq_of_hasParts (.inl parts)
        have notNested := inExpression parent isParent
        refine ⟨namespaced, parts.kind, ?_⟩
        simp only [List.mem_cons, List.not_mem_nil, or_false] at parentKind notNested
        exact parentKind.resolve_right fun nested => notNested (by simp [nested])
    | type typed parts =>
        exact absurd (parts.kind ▸ dot.kind) (by decide)
    | markup _ inTag _ _ _ =>
        obtain ⟨tag, isTag, tagKind⟩ := inTag
        cases isParent.symm.trans isTag
        simp only [List.mem_cons, List.not_mem_nil, or_false] at parentKind
        rcases parentKind with kind | kind <;> exact absurd (kind ▸ tagKind) (by decide)
  · rintro ⟨namespaced, kind, isMember⟩
    obtain ⟨_, _, _, tag, above, tagAncestors, tagKind⟩ := tagName
    refine ⟨.value, _, .value (dot.isMember_iff.mpr ⟨kind, objectKind⟩) namespaced
      (dot.unchained objectKind) ?_ ?_⟩
    · intro other isOther
      cases isParent.symm.trans isOther
      rw [isMember]
      decide
    · -- The way up ends at the tag, if not before.
      rw [ancestors, tagAncestors, List.append_cons]
      apply unqueried_of_append
      · refine ⟨tag, by simp, ?_⟩
        intro isMember
        exact absurd (isMember ▸ tagKind) (by decide)
      · intro ancestor isNear query
        rcases List.mem_append.mp isNear with isLink | isTag
        · exact absurd (query ▸ links ancestor isLink) (by decide)
        · rw [List.mem_singleton] at isTag
          exact absurd (query ▸ isTag ▸ tagKind) (by decide)

end

/-- A word meets no reference when none stands at its parent. -/
theorem apart_of_not_stands {source : Bytes} {language : Language} {namespaceName : String}
    {root : Node} (wellFormed : root.WellFormed source) (lexical : root.Lexical) {word : Occurrence}
    (occurs : word ∈ root.occurrences) (isWord : word.node.isWord = true) {parent : Node}
    {above : List Node} (ancestors : word.ancestors = parent :: above)
    (noChain : parent.kind ≠ "optional_chain")
    (none : ∀ reference, ¬ Stands source language namespaceName ⟨parent, above⟩ reference) :
    ∀ reference ∈ find source language namespaceName root, Node.Apart reference.node word.node := by
  intro reference found
  by_contra meets
  exact none reference
    (stands_of_not_apart_word wellFormed lexical occurs isWord ancestors noChain found meets)

section

variable {source : Bytes} {language : Language} {namespaceName : String} {root : Node}
  {place first : Occurrence} {kinds : List String} {object property : Node} {outer rest : List Node}
  (firstDot : Node.FirstDot root place kinds first object property outer rest)

include firstDot

/-- A reference stands at the first dot of a tag name exactly when the name is shortened. -/
theorem exists_stands_first_iff (marked : language = .javascript ∨ language = .tsx)
    (tagName : place.IsTagName root) :
    (∃ reference, Stands source language namespaceName first reference) ↔
      place.node.IsShortened source namespaceName kinds := by
  have head : (place.node.words.map (·.text source)).head? = some namespaceName ↔
      object.text source = namespaceName := by
    rw [firstDot.words, List.map_cons, List.head?_cons, Option.some_inj]
  have deep : ["member_expression", "member_expression"] <:+ kinds ↔
      ["member_expression", "member_expression"] <+: first.node.kind :: outer.map Node.kind := by
    rw [← firstDot.kinds]
    exact List.reverse_prefix.symm
  have size : kinds.length = outer.length + 1 := by
    rw [← List.length_reverse, firstDot.kinds, List.length_cons, List.length_map]
  rw [Node.IsShortened, head, deep, size]
  cases outer with
  | nil =>
      cases firstDot.self rfl
      rw [exists_stands_tag_iff firstDot.dot marked tagName]
      simp [firstDot.objectKind]
  | cons parent more =>
      rw [exists_stands_inner_iff firstDot.dot tagName firstDot.ancestors firstDot.outerKinds
        firstDot.objectKind]
      simp [eq_comm]

variable (wellFormed : root.WellFormed source) (lexical : root.Lexical)

include wellFormed lexical

/-- No reference meets a word behind the first dot and its property. -/
theorem apart_behind_first :
    ∀ word ∈ rest, ∀ reference ∈ find source language namespaceName root,
      Node.Apart reference.node word := by
  intro word isRest
  obtain ⟨name, above, longer, occurs, dot, noWord⟩ := firstDot.behind word isRest
  refine apart_of_not_stands wellFormed lexical occurs dot.property_isWord rfl dot.kind_ne_chain ?_
  intro reference stands
  obtain ⟨front, back, parts, _⟩ := stands.exists_hasParts
  obtain ⟨rfl, _⟩ := dot.eq_of_hasParts parts
  exact absurd (parts.mem.1.2.symm.trans noWord) (by decide)

/-- No reference meets a word of a name when none stands at its first dot. -/
theorem apart_of_not_stands_first
    (none : ∀ reference, ¬ Stands source language namespaceName first reference) :
    ∀ word ∈ place.node.words, ∀ reference ∈ find source language namespaceName root,
      Node.Apart reference.node word := by
  intro word isWord
  have dot := firstDot.dot
  rw [firstDot.words] at isWord
  rcases List.mem_cons.mp isWord with rfl | isWord
  · exact apart_of_not_stands wellFormed lexical
      (Node.child_mem_occurrences firstDot.occurs dot.object_mem)
      (by rw [Node.isWord, firstDot.objectKind]; decide) rfl dot.kind_ne_chain none
  rcases List.mem_cons.mp isWord with rfl | isRest
  · exact apart_of_not_stands wellFormed lexical
      (Node.child_mem_occurrences firstDot.occurs dot.property_mem) dot.property_isWord rfl
      dot.kind_ne_chain none
  · exact apart_behind_first firstDot wellFormed lexical word isRest

end

/-! ## The words after the edits -/

section

variable {source : Bytes} {root : Node} (wellFormed : root.WellFormed source)
    (lexical : root.Lexical)
  (language : Language) (namespaceName : String)

include wellFormed lexical

/-- The edits for what is found can be applied together. -/
theorem fits_map_bare :
    Edit.Fits source ((find source language namespaceName root).map bare) := by
  constructor
  · intro edit isEdit
    obtain ⟨reference, found, rfl⟩ := List.mem_map.mp isEdit
    obtain ⟨place, occurs, stands⟩ := exists_stands_of_mem_find found
    have inBounds := wellFormed.inBounds occurs
    rw [← stands.node_eq] at inBounds
    exact inBounds
  · rw [List.pairwise_map]
    exact (find_pairwise_ascending wellFormed lexical language namespaceName).imp .inl

theorem nonempty_map_bare :
    ∀ edit ∈ (find source language namespaceName root).map bare, edit.start < edit.stop := by
  intro edit isEdit
  obtain ⟨reference, found, rfl⟩ := List.mem_map.mp isEdit
  exact start_lt_stop_of_mem_find wellFormed lexical found

variable {place : Occurrence} (occurs : place ∈ root.occurrences)

include occurs

/-- Words that no reference meets stay. -/
theorem textsAfter_of_apart {words : List Node} (among : words ⊆ place.node.words)
    (apart : ∀ word ∈ words, ∀ reference ∈ find source language namespaceName root,
      Node.Apart reference.node word) :
    Node.textsAfter source ((find source language namespaceName root).map bare) words =
      words.map (·.text source) := by
  have stays : (words.map fun word =>
      Edit.madeOf source ((find source language namespaceName root).map bare) word.start
        word.stop) =
        words.map (·.bytes source) := by
    apply List.map_congr_left
    intro word isWord
    apply Edit.madeOf_of_apart (nonempty_map_bare wellFormed lexical language namespaceName)
    intro edit isEdit
    obtain ⟨reference, found, rfl⟩ := List.mem_map.mp isEdit
    exact apart word isWord reference found
  have written : ∀ bytes ∈ words.map (·.bytes source), (!bytes.isEmpty) = true := by
    intro bytes isBytes
    obtain ⟨word, isWord, rfl⟩ := List.mem_map.mp isBytes
    have inBounds := lexical.inBounds_of_mem_words wellFormed occurs (among isWord)
    have size : (word.bytes source).length = word.stop - word.start := by
      rw [Node.bytes, Bytes.slice, List.length_take, List.length_drop]
      omega
    rw [Bool.not_eq_true', List.isEmpty_eq_false_iff, ← List.length_pos_iff]
    omega
  rw [Node.textsAfter, stays, List.filter_eq_self.mpr written, List.map_map]
  rfl

/-- A name that no reference meets stays. -/
theorem kept_of_apart
    (apart : ∀ word ∈ place.node.words, ∀ reference ∈ find source language namespaceName root,
      Node.Apart reference.node word) :
    ¬ place.node.RewrittenBy ((find source language namespaceName root).map bare) ∧
      Node.textsAfter source ((find source language namespaceName root).map bare)
        place.node.words = place.node.words.map (·.text source) := by
  refine ⟨?_, textsAfter_of_apart wellFormed lexical language namespaceName occurs
    (List.Subset.refl _) apart⟩
  rintro ⟨word, isWord, edit, isEdit, inside⟩
  obtain ⟨reference, found, rfl⟩ := List.mem_map.mp isEdit
  have inBounds := lexical.inBounds_of_mem_words wellFormed occurs isWord
  have separate := apart _ isWord reference found
  unfold Node.Apart at separate
  simp only [bare] at inside
  omega

/-- In the place of a node with a reference stands the member. -/
theorem madeOf_of_stands {reference : Reference}
    (stands : Stands source language namespaceName place reference) {start stop : Nat}
    (nonempty : start < stop) (inside : place.node.start ≤ start ∧ stop ≤ place.node.stop) :
    Edit.madeOf source ((find source language namespaceName root).map bare) start stop =
      if start = place.node.start then Utf8.encode reference.member else [] := by
  have among : bare reference ∈ (find source language namespaceName root).map bare :=
    List.mem_map_of_mem ((mem_find_iff wellFormed lexical).mpr ⟨place, occurs, stands⟩)
  rw [← stands.node_eq] at inside ⊢
  exact Edit.madeOf_of_covers (nonempty_map_bare wellFormed lexical language namespaceName)
    (fits_map_bare wellFormed lexical language namespaceName).apart among nonempty inside

/-- A name with a reference at its first dot loses its first word, and then nothing else changes. -/
theorem shortened_of_stands {first : Occurrence} {kinds : List String} {object property : Node}
    {outer rest : List Node}
    (firstDot : Node.FirstDot root place kinds first object property outer rest)
    {reference : Reference} (stands : Stands source language namespaceName first reference) :
    place.node.RewrittenBy ((find source language namespaceName root).map bare) ∧
      Node.textsAfter source ((find source language namespaceName root).map bare)
        place.node.words =
          (if (Utf8.encode (property.text source)).isEmpty then [] else [property.text source]) ++
            rest.map (·.text source) := by
  obtain ⟨front, back, parts, _, member⟩ := stands.exists_hasParts
  obtain ⟨rfl, rfl⟩ := firstDot.dot.eq_of_hasParts parts
  have isObject : front ∈ place.node.words := by simp [firstDot.words]
  have isProperty : back ∈ place.node.words := by simp [firstDot.words]
  have objectSize := (lexical.inBounds_of_mem_words wellFormed occurs isObject).1
  have propertySize := (lexical.inBounds_of_mem_words wellFormed occurs isProperty).1
  have objectInside := wellFormed.inParent _ firstDot.occurs _ firstDot.dot.object_mem
  have propertyInside := wellFormed.inParent _ firstDot.occurs _ firstDot.dot.property_mem
  have ordered := Node.Dot.stop_le_start wellFormed firstDot.occurs firstDot.dot
  have start := firstDot.dot.start
  constructor
  · refine ⟨front, isObject, bare reference, ?_, ?_⟩
    · exact List.mem_map_of_mem
        ((mem_find_iff wellFormed lexical).mpr ⟨first, firstDot.occurs, stands⟩)
    · simpa only [bare, stands.node_eq] using objectInside
  · have madeOf {word : Node} (nonempty : word.start < word.stop)
        (inside : first.node.start ≤ word.start ∧ word.stop ≤ first.node.stop) :=
      madeOf_of_stands wellFormed lexical language namespaceName firstDot.occurs stands nonempty
        inside
    have objectMade := (madeOf objectSize objectInside).trans (if_pos start.symm)
    have propertyMade := (madeOf propertySize propertyInside).trans (if_neg (by omega))
    have others : rest ⊆ place.node.words := by
      rw [firstDot.words]
      exact List.subset_cons_of_subset _ (List.subset_cons_self _ _)
    rw [firstDot.words, Node.textsAfter_cons objectMade, Node.textsAfter_cons propertyMade,
      textsAfter_of_apart wellFormed lexical language namespaceName occurs others
        (apart_behind_first firstDot wellFormed lexical), ← member, Utf8.decodeOrEmpty_encode]
    rfl

/-- A name with a colon stays. -/
theorem kept_of_prefixed (colon : place.node.Prefixed) :
    ¬ place.node.RewrittenBy ((find source language namespaceName root).map bare) ∧
      Node.textsAfter source ((find source language namespaceName root).map bare)
        place.node.words = place.node.words.map (·.text source) := by
  apply kept_of_apart wellFormed lexical language namespaceName occurs
  intro word isWord
  obtain ⟨isChild, isWord⟩ := lexical.mem_children_of_prefixed occurs colon isWord
  refine apart_of_not_stands wellFormed lexical (Node.child_mem_occurrences occurs isChild) isWord
    rfl
    ?_ ?_
  · rw [colon.kind]
    decide
  · intro reference stands
    exact absurd (colon.kind ▸ stands.kind_mem) (by decide)

omit occurs

/-- A name that is shortened loses its first word. -/
theorem shortened_of_isShortened (marked : language = .javascript ∨ language = .tsx)
    {place : Occurrence} (tagName : place.IsTagName root) {kinds : List String}
    (dotted : place.node.Dotted kinds)
    (isShortened : place.node.IsShortened source namespaceName kinds) :
    place.node.RewrittenBy ((find source language namespaceName root).map bare) ∧
      Node.textsAfter source ((find source language namespaceName root).map bare)
        place.node.words = Node.shorten (place.node.words.map (·.text source)) ∧
      Node.shorten (place.node.words.map (·.text source)) ≠
        place.node.words.map (·.text source) := by
  have dots : kinds ≠ [] := by
    rintro rfl
    simp [Node.IsShortened] at isShortened
  obtain ⟨first, object, property, outer, rest, firstDot⟩ :=
    lexical.exists_firstDot dotted tagName.1 dots
  obtain ⟨reference, stands⟩ := (exists_stands_first_iff firstDot marked tagName).mpr isShortened
  obtain ⟨rewritten, after⟩ :=
    shortened_of_stands wellFormed lexical language namespaceName tagName.1 firstDot stands
  rw [after, firstDot.words]
  exact ⟨rewritten, rfl, Node.shorten_cons_cons_ne _ _ _⟩

/-- A name that is not shortened stays. -/
theorem kept_of_not_isShortened (marked : language = .javascript ∨ language = .tsx)
    {place : Occurrence} (tagName : place.IsTagName root) {kinds : List String}
    (dotted : place.node.Dotted kinds)
    (notShortened : ¬ place.node.IsShortened source namespaceName kinds) :
    ¬ place.node.RewrittenBy ((find source language namespaceName root).map bare) ∧
      Node.textsAfter source ((find source language namespaceName root).map bare)
        place.node.words = place.node.words.map (·.text source) := by
  apply kept_of_apart wellFormed lexical language namespaceName tagName.1
  by_cases dots : kinds = []
  · subst dots
    cases dotted with
    | word kind =>
        obtain ⟨occurs, _, _, tag, above, ancestors, tagKind⟩ := tagName
        have isWord : place.node.isWord = true := by rw [Node.isWord, kind]; decide
        rw [lexical.words_of_isWord (List.mem_map_of_mem occurs) isWord]
        intro word isName
        rw [List.mem_singleton.mp isName]
        refine apart_of_not_stands wellFormed lexical occurs isWord ancestors ?_ ?_
        · intro chain
          exact absurd (chain ▸ tagKind) (by decide)
        · have noDot : ∀ kind ∈ ["jsx_opening_element", "jsx_closing_element",
              "jsx_self_closing_element"], kind ∉ ["member_expression", "nested_type_identifier",
                "nested_identifier"] := by
            decide
          intro reference stands
          exact noDot _ tagKind stands.kind_mem
  · obtain ⟨first, object, property, outer, rest, firstDot⟩ :=
      lexical.exists_firstDot dotted tagName.1 dots
    apply apart_of_not_stands_first firstDot wellFormed lexical
    intro reference stands
    exact notShortened ((exists_stands_first_iff firstDot marked tagName).mp ⟨reference, stands⟩)

/-- **What becomes of a dotted name in a tag.** It is rewritten exactly when it is shortened. -/
theorem rewrittenBy_iff_isShortened (marked : language = .javascript ∨ language = .tsx)
    {place : Occurrence} (tagName : place.IsTagName root) {kinds : List String}
    (dotted : place.node.Dotted kinds) :
    let edits := (find source language namespaceName root).map bare
    let texts := place.node.words.map (·.text source)
    (place.node.RewrittenBy edits ↔ place.node.IsShortened source namespaceName kinds) ∧
      (place.node.IsShortened source namespaceName kinds ∧
          Node.textsAfter source edits place.node.words = Node.shorten texts ∧
            Node.shorten texts ≠ texts ∨
        ¬ place.node.IsShortened source namespaceName kinds ∧
          Node.textsAfter source edits place.node.words = texts) := by
  intro edits texts
  by_cases isShortened : place.node.IsShortened source namespaceName kinds
  · obtain ⟨rewritten, after⟩ := shortened_of_isShortened wellFormed lexical language namespaceName
      marked tagName dotted isShortened
    exact ⟨iff_of_true rewritten isShortened, .inl ⟨isShortened, after⟩⟩
  · obtain ⟨notRewritten, after⟩ :=
      kept_of_not_isShortened wellFormed lexical language namespaceName
      marked tagName dotted isShortened
    exact ⟨iff_of_false notRewritten isShortened, .inr ⟨isShortened, after⟩⟩

end

section

variable {source : Bytes} {namespaceName : String} {opening closing : Node}

/-- Dotted names of the same words and dots are shortened together exactly when their comments
agree. -/
theorem isShortened_congr_iff {kinds : List String} (noColon : opening.kind ≠ "jsx_namespace_name")
    (size : opening.words.length = kinds.length + 1)
    (sameWords : opening.words.map (·.text source) = closing.words.map (·.text source)) :
    (opening.IsShortened source namespaceName kinds ↔
        closing.IsShortened source namespaceName kinds) ↔
      opening.CommentsAgree source namespaceName closing := by
  rw [Node.IsShortened, Node.IsShortened, ← sameWords, Node.CommentsAgree, or_iff_right noColon]
  rw [← List.length_map (·.text source)] at size
  generalize opening.words.map (·.text source) = texts at size
  by_cases two : ∃ member, texts = [namespaceName, member]
  · obtain ⟨member, rfl⟩ := two
    have one : kinds.length = 1 := by simpa using size.symm
    have shallow : ¬ ["member_expression", "member_expression"] <:+ kinds := by
      intro deep
      have := deep.length_le
      simp only [List.length_cons, List.length_nil] at this
      omega
    simp [one, shallow, not_iff_not]
  · -- Names of another length are told apart by their dots alone.
    have other : texts.head? = some namespaceName → kinds.length ≠ 1 := by
      intro head one
      obtain ⟨rest, rfl⟩ := List.head?_eq_some_iff.mp head
      obtain ⟨member, rfl⟩ :=
        List.length_eq_one_iff.mp (show rest.length = 1 by simp at size; omega)
      exact two ⟨member, rfl⟩
    refine iff_of_true (and_congr_right fun head => ?_) fun member same => absurd ⟨member, same⟩ two
    simp [other head]

end

/-- **The two ends of an element stay matched exactly when their comments agree.** Two tag names of
the same shape and the same words are rewritten together, and afterwards have the same words, unless
each is the namespace and one member and a comment stands in only one of them. The edits can always
be applied, and what they make of a range is its part of the result. -/
theorem tags_stay_matched_iff (source : Bytes) (language : Language) (namespaceName : String)
    (root : Node) (wellFormed : root.WellFormed source) (lexical : root.Lexical)
    (marked : language = .javascript ∨ language = .tsx) (opening closing : Occurrence)
    (isOpening : opening.IsTagName root) (isClosing : closing.IsTagName root)
    (alike : opening.node.Alike closing.node)
    (sameWords : opening.node.words.map (·.text source) = closing.node.words.map (·.text source)) :
    let references := find source language namespaceName root
    let edits := edits references (.ofReferences references)
    Edit.applyAll source edits = .ok (Edit.madeOf source edits 0 (source.length + 1)) ∧
      ((opening.node.RewrittenBy edits ↔ closing.node.RewrittenBy edits) ↔
        opening.node.CommentsAgree source namespaceName closing.node) ∧
      (Node.textsAfter source edits opening.node.words =
          Node.textsAfter source edits closing.node.words ↔
        opening.node.CommentsAgree source namespaceName closing.node) := by
  intro references edits
  have same : edits = references.map bare := edits_ofReferences source language namespaceName root
  rw [same]
  refine ⟨Edit.applyAll_eq_ok_of_fits (fits_map_bare wellFormed lexical language namespaceName), ?_⟩
  rcases alike with ⟨kinds, dotted, dottedToo⟩ | ⟨colon, colonToo⟩
  · have size := lexical.length_words dotted isOpening.1
    rw [← isShortened_congr_iff dotted.kind_ne_colon size sameWords]
    obtain ⟨rewritten_iff, outcome⟩ :=
      rewrittenBy_iff_isShortened wellFormed lexical language namespaceName marked isOpening dotted
    obtain ⟨rewrittenToo_iff, outcomeToo⟩ :=
      rewrittenBy_iff_isShortened wellFormed lexical language namespaceName marked isClosing
        dottedToo
    refine ⟨by rw [rewritten_iff, rewrittenToo_iff], ?_⟩
    rcases outcome with ⟨first, after, differs⟩ | ⟨first, after⟩ <;>
      rcases outcomeToo with ⟨second, afterToo, differsToo⟩ | ⟨second, afterToo⟩ <;>
      rw [after, afterToo]
    · exact iff_of_true (by rw [sameWords]) (iff_of_true first second)
    · exact iff_of_false (by rwa [← sameWords]) fun together => second (together.mp first)
    · exact iff_of_false (by rw [sameWords]; exact differsToo.symm)
        fun together => first (together.mpr second)
    · exact iff_of_true sameWords (iff_of_false first second)
  · obtain ⟨notRewritten, after⟩ :=
      kept_of_prefixed wellFormed lexical language namespaceName isOpening.1 colon
    obtain ⟨notRewrittenToo, afterToo⟩ :=
      kept_of_prefixed wellFormed lexical language namespaceName isClosing.1 colonToo
    have agree : opening.node.CommentsAgree source namespaceName closing.node := .inl colon.kind
    rw [after, afterToo, sameWords]
    exact ⟨iff_of_true (iff_of_false notRewritten notRewrittenToo) agree, iff_of_true rfl agree⟩

end Reference

namespace Sample

/-- The name `React.Fragment`, with comments behind the dot. -/
def fragment (start : Nat) (comments : List Node) (last : Nat) : Node :=
  filling "name" "member_expression" start (last + 8)
    (filling "object" "identifier" start (start + 5) [] ::
      (token "." (start + 5) (start + 6) :: comments ++
        filling "property" "property_identifier" last (last + 8) [] :: []))

def openingTag (opening : Node) : Node :=
  filling "open_tag" "jsx_opening_element" 0 (opening.stop + 1) [
    token "<" 0 1, opening, token ">" opening.stop (opening.stop + 1)]

def closingTag (closing : Node) : Node :=
  filling "close_tag" "jsx_closing_element" (closing.start - 2) (closing.stop + 1) [
    token "</" (closing.start - 2) closing.start, closing,
    token ">" closing.stop (closing.stop + 1)]

/-- An element without content. -/
def element (opening closing : Node) : Node :=
  branch "jsx_element" 0 (closing.stop + 1) [openingTag opening, closingTag closing]

def elementStatement (opening closing : Node) : Node :=
  branch "expression_statement" 0 (closing.stop + 2) [
    element opening closing, token ";" (closing.stop + 1) (closing.stop + 2)]

/-- A unit that is one element. -/
def elementRoot (opening closing : Node) : Node :=
  branch "program" 0 (closing.stop + 3) [elementStatement opening closing]

def openingPlace (opening closing : Node) : Occurrence :=
  ⟨opening, [openingTag opening, element opening closing, elementStatement opening closing,
    elementRoot opening closing]⟩

def closingPlace (opening closing : Node) : Occurrence :=
  ⟨closing, [closingTag closing, element opening closing, elementStatement opening closing,
    elementRoot opening closing]⟩

theorem isTagName_ends (opening closing : Node)
    (names : ∀ name ∈ [opening, closing], name.named = true ∧ name.field = some "name") :
    (openingPlace opening closing).IsTagName (elementRoot opening closing) ∧
      (closingPlace opening closing).IsTagName (elementRoot opening closing) := by
  have statement :=
    Node.child_mem_occurrences (Node.root_mem_occurrences (elementRoot opening closing)) (.head _)
  have element := Node.child_mem_occurrences statement (.head _)
  have first := Node.child_mem_occurrences element (.head _)
  have second := Node.child_mem_occurrences element (.tail _ (.head _))
  obtain ⟨openingNamed, openingField⟩ := names opening (by simp)
  obtain ⟨closingNamed, closingField⟩ := names closing (by simp)
  exact ⟨⟨Node.child_mem_occurrences first (.tail _ (.head _)), openingNamed, openingField,
      _, _, rfl, .head _⟩,
    ⟨Node.child_mem_occurrences second (.tail _ (.head _)), closingNamed, closingField,
      _, _, rfl, .tail _ (.head _)⟩⟩

theorem dotted_fragment (start : Nat) {comments : List Node} (last : Nat)
    (isComment : ∀ comment ∈ comments,
      comment.field = none ∧ comment.kind = "comment" ∧ comment.named = true) :
    (fragment start comments last).Dotted ["member_expression"] := by
  have dot : (fragment start comments last).Dot (filling "object" "identifier" start (start + 5) [])
      (filling "property" "property_identifier" last (last + 8) []) := by
    refine ⟨.head _, ⟨token "." (start + 5) (start + 6) :: comments, [], rfl, ?_⟩, rfl, ⟨rfl, rfl⟩,
      ?_, .inl ⟨rfl, rfl⟩, .inl rfl⟩
    · intro other isOther
      rw [List.append_nil] at isOther
      rcases List.mem_cons.mp isOther with rfl | among
      · exact ⟨rfl, .inl ⟨rfl, rfl⟩⟩
      · obtain ⟨field, comment⟩ := isComment other among
        exact ⟨field, .inr comment⟩
    · show "identifier" ≠ "comment"
      decide
  exact .dot dot (.word rfl)

/-- An element whose two ends are written in the same way. -/
def matchedText : String :=
  "<React.Fragment></React.Fragment>;\n"

def matchedOpening : Node :=
  fragment 1 [] 7

def matchedClosing : Node :=
  fragment 18 [] 24

/-- The same element with a comment in the name at its start. -/
def commentedText : String :=
  "<React./*c*/Fragment></React.Fragment>;\n"

def commentedOpening : Node :=
  fragment 1 [branch "comment" 7 12 []] 12

def commentedClosing : Node :=
  fragment 23 [] 29

end Sample

namespace Reference

theorem tags_stay_matched_iff_matched :
    let references := find (Utf8.encode Sample.matchedText) .tsx "React"
      (Sample.elementRoot Sample.matchedOpening Sample.matchedClosing)
    let edits := edits references (.ofReferences references)
    (Sample.matchedOpening.RewrittenBy edits ↔ Sample.matchedClosing.RewrittenBy edits) ∧
      Node.textsAfter (Utf8.encode Sample.matchedText) edits Sample.matchedOpening.words =
        Node.textsAfter (Utf8.encode Sample.matchedText) edits Sample.matchedClosing.words := by
  obtain ⟨isOpening, isClosing⟩ :=
    Sample.isTagName_ends Sample.matchedOpening Sample.matchedClosing (by decide)
  obtain ⟨_, rewritten, after⟩ :=
    tags_stay_matched_iff (Utf8.encode Sample.matchedText) .tsx "React"
    (Sample.elementRoot Sample.matchedOpening Sample.matchedClosing)
    (by constructor <;> decide +kernel) (by constructor <;> decide +kernel) (.inr rfl)
    _ _ isOpening isClosing
    (.inl ⟨["member_expression"], Sample.dotted_fragment _ _ nofun,
      Sample.dotted_fragment _ _ nofun⟩) (by decide +kernel)
  have agree : Sample.matchedOpening.CommentsAgree (Utf8.encode Sample.matchedText) "React"
      Sample.matchedClosing :=
    .inr fun member _ => iff_of_false (by decide) (by decide)
  exact ⟨rewritten.mpr agree, after.mpr agree⟩

/-- A comment in the name at the start of an element keeps that name as it is, while the name at the
end loses its namespace. -/
theorem commented_end_left_behind :
    let source := Utf8.encode Sample.commentedText
    let root := Sample.elementRoot Sample.commentedOpening Sample.commentedClosing
    let references := find source .tsx "React" root
    let edits := edits references (.ofReferences references)
    (Sample.openingPlace Sample.commentedOpening Sample.commentedClosing).IsTagName root ∧
      (Sample.closingPlace Sample.commentedOpening Sample.commentedClosing).IsTagName root ∧
      Sample.commentedOpening.words.map (·.text source) = ["React", "Fragment"] ∧
      Sample.commentedClosing.words.map (·.text source) = ["React", "Fragment"] ∧
      edits = [⟨23, 37, "Fragment"⟩] ∧
      ¬ (Sample.commentedOpening.RewrittenBy edits ↔ Sample.commentedClosing.RewrittenBy edits) ∧
      Node.textsAfter source edits Sample.commentedOpening.words = ["React", "Fragment"] ∧
      Node.textsAfter source edits Sample.commentedClosing.words = ["Fragment"] := by
  intro source root references edits
  obtain ⟨isOpening, isClosing⟩ :=
    Sample.isTagName_ends Sample.commentedOpening Sample.commentedClosing (by decide)
  have made : edits = [⟨23, 37, "Fragment"⟩] := by decide +kernel
  refine ⟨isOpening, isClosing, by decide +kernel, by decide +kernel, made, ?_, ?_, ?_⟩
  · rw [made]
    decide +kernel
  · rw [made]
    decide +kernel
  · rw [made]
    decide +kernel

end Reference

end Unqualify
