import Unqualify.Proofs.Qualified

/-!
# Nodes that name a member

What it means for a node to name a member through the namespace, said of the node and of the nodes
around it and not of the rules that look for references. A node names a value, a type or a tag
(`Reference.Names`), and a reference of that kind and name stands at the node exactly then
(`exists_stands_iff_names`).
-/

set_option autoImplicit false

namespace Unqualify

/-! ## Names of two parts -/

namespace Node

/-- A node is of a kind and fills a field of its parent. -/
def Fills (field kind : String) (node : Node) : Prop :=
  node.field = some field ∧ node.kind = kind

/-- A member expression of two parts: an identifier, and later on a property. -/
structure IsMember (node object property : Node) : Prop where
  kind : node.kind = "member_expression"
  parts : node.HasPair (Fills "object" "identifier") (Fills "property" "property_identifier")
    object property

/-- A type name of two parts: an identifier, and later on a type name. -/
structure IsTypeName (node qualifier name : Node) : Prop where
  kind : node.kind = "nested_type_identifier"
  parts : node.HasPair (Fills "module" "identifier") (Fills "name" "type_identifier") qualifier name

/-- A tag name of two parts, which are its only children besides tokens. Where they do not fill the
fields for an object and a property their order decides. -/
structure IsTag (node object property : Node) : Prop where
  kind : node.kind = "member_expression" ∨ node.kind = "nested_identifier"
  parts : ∃ first second, node.namedChildren = [first, second] ∧
    object = (node.child? "object").getD first ∧ property = (node.child? "property").getD second
  objectKind : object.kind = "identifier"
  propertyKind : property.kind = "property_identifier" ∨ property.kind = "identifier"

/-- A node has two parts in one of the three ways. -/
def HasParts (node front back : Node) : Prop :=
  node.IsMember front back ∨ node.IsTypeName front back ∨ node.IsTag front back

theorem hasPair_congr {head tail head' tail' : Node → Prop} {node first second : Node}
    (heads : ∀ child, head child ↔ head' child) (tails : ∀ child, tail child ↔ tail' child) :
    node.HasPair head tail first second ↔ node.HasPair head' tail' first second := by
  simp only [HasPair, heads, tails]

theorem pair?_fields_eq_some_iff {headField headKind tailField tailKind : String}
    {node first second : Node} :
    node.pair? (fun child => child.field == some headField && child.kind == headKind)
        (fun child => child.field == some tailField && child.kind == tailKind) =
          some (first, second) ↔
      node.HasPair (Fills headField headKind) (Fills tailField tailKind) first second := by
  rw [pair?_eq_some_iff]
  apply hasPair_congr <;> simp [Fills]

theorem isMember_iff {node object property : Node} :
    node.IsMember object property ↔
      node.kind = "member_expression" ∧ Reference.memberParts? node = some (object, property) := by
  rw [Reference.memberParts?, pair?_fields_eq_some_iff]
  exact ⟨fun member => ⟨member.kind, member.parts⟩, fun ⟨kind, parts⟩ => ⟨kind, parts⟩⟩

theorem isTypeName_iff {node qualifier name : Node} :
    node.IsTypeName qualifier name ↔
      node.kind = "nested_type_identifier" ∧
        Reference.typeParts? node = some (qualifier, name) := by
  rw [Reference.typeParts?, pair?_fields_eq_some_iff]
  exact ⟨fun typeName => ⟨typeName.kind, typeName.parts⟩, fun ⟨kind, parts⟩ => ⟨kind, parts⟩⟩

theorem isTag_iff {node object property : Node} :
    node.IsTag object property ↔ Reference.tagParts? node = some (object, property) := by
  rw [Reference.tagParts?_eq_some_iff]
  constructor
  · rintro ⟨kind, ⟨first, second, two, isObject, isProperty⟩, objectKind, propertyKind⟩
    exact ⟨kind, first, second, two, isObject, isProperty, objectKind, propertyKind⟩
  · rintro ⟨kind, first, second, two, isObject, isProperty, objectKind, propertyKind⟩
    exact ⟨kind, ⟨first, second, two, isObject, isProperty⟩, objectKind, propertyKind⟩

end Node

/-! ## Places -/

/-- The node whose slot a type name fills, where the name counts together with the type arguments
that follow it. -/
def Occurrence.slot? (place : Occurrence) : Option Node :=
  match place.ancestors with
  | [] => none
  | parent :: above => if parent.kind = "generic_type" then above.head? else some parent

namespace Reference

/-- The kind of a type in a slot. -/
def Kind.ofSlot (slot : Option Node) : Kind :=
  match slot with
  | none => .type
  | some slot =>
      if slot.kind = "extends_type_clause" then .heritage
      else if slot.kind = "type_arguments" then .argument
      else .type

/-- The node at a place names a member through the namespace, and as a reference of a kind. -/
inductive Names (source : Bytes) (namespaceName : String) :
    Language → Occurrence → Kind → String → Prop where
  /-- `React.useState`, read as a value. -/
  | value {language : Language} {place : Occurrence} {object property : Node}
      (parts : place.node.IsMember object property)
      (namespaced : object.text source = namespaceName)
      (unchained : ∀ child ∈ place.node.children, child.kind ≠ "optional_chain")
      (inExpression : ∀ parent ∈ place.parent?,
        parent.kind ∉ ["jsx_opening_element", "jsx_closing_element", "jsx_self_closing_element",
          "nested_identifier", "nested_type_identifier"])
      (unqueried : ∀ outer ∈ place.ancestors.find? (·.kind != "member_expression"),
        outer.kind ≠ "type_query") :
      Names source namespaceName language place .value (property.text source)
  /-- `React.FC`, with or without type arguments. -/
  | type {language : Language} {place : Occurrence} {qualifier name : Node}
      (typed : language = .typescript ∨ language = .tsx)
      (parts : place.node.IsTypeName qualifier name)
      (namespaced : qualifier.text source = namespaceName)
      (inSlot : ∀ slot ∈ place.slot?, slot.kind ∉ ["type_query", "implements_clause"]) :
      Names source namespaceName language place (.ofSlot place.slot?) (name.text source)
  /-- `<React.Fragment>`, `</React.Fragment>` or `<React.Fragment />`. -/
  | markup {language : Language} {place : Occurrence} {object property : Node}
      (marked : language = .javascript ∨ language = .tsx)
      (inTag : ∃ parent ∈ place.parent?, parent.kind ∈
        ["jsx_opening_element", "jsx_closing_element", "jsx_self_closing_element"])
      (isName : place.node.named = true ∧ place.node.field = some "name")
      (parts : place.node.IsTag object property)
      (namespaced : object.text source = namespaceName) :
      Names source namespaceName language place .markup (property.text source)

/-! ## Naming and standing -/

section

variable {source : Bytes} {language : Language} {namespaceName member : String} {place : Occurrence}
  {kind : Kind}

theorem parentIn_eq_true_iff {kinds : List String} :
    place.parentIn kinds = true ↔ ∃ parent ∈ place.parent?, parent.kind ∈ kinds := by
  simp [Occurrence.parentIn, Option.any_eq_true]

theorem parentIn_eq_false_iff {kinds : List String} :
    place.parentIn kinds = false ↔ ∀ parent ∈ place.parent?, parent.kind ∉ kinds := by
  rw [← Bool.not_eq_true, parentIn_eq_true_iff]
  simp

theorem insideTypeQuery_eq_false_iff {ancestors : List Node} :
    insideTypeQuery ancestors = false ↔
      ∀ outer ∈ ancestors.find? (·.kind != "member_expression"), outer.kind ≠ "type_query" := by
  have first : (ancestors.dropWhile fun ancestor => ancestor.kind == "member_expression").head? =
      ancestors.find? (·.kind != "member_expression") := by
    induction ancestors with
    | nil => rfl
    | cons ancestor above ih =>
        by_cases member : ancestor.kind = "member_expression"
        · rw [List.dropWhile_cons_of_pos (by simp [member]), ih,
            List.find?_cons_of_neg (by simp [member])]
        · rw [List.dropWhile_cons_of_neg (by simp [member]),
            List.find?_cons_of_pos (by simp [member]), List.head?_cons]
  rw [insideTypeQuery, first, Option.any_eq_false]
  simp

/-- The search for a type query ends at the first ancestor that is no member expression. -/
theorem unqueried_of_append {near above : List Node}
    (stops : ∃ ancestor ∈ near, ancestor.kind ≠ "member_expression")
    (noQuery : ∀ ancestor ∈ near, ancestor.kind ≠ "type_query") :
    ∀ outer ∈ (near ++ above).find? (·.kind != "member_expression"), outer.kind ≠ "type_query" := by
  intro outer found
  obtain ⟨first, isFirst⟩ : ∃ first, near.find? (·.kind != "member_expression") = some first := by
    rw [← Option.isSome_iff_exists, List.find?_isSome]
    obtain ⟨ancestor, isNear, other⟩ := stops
    exact ⟨ancestor, isNear, bne_iff_ne.mpr other⟩
  rw [List.find?_append, isFirst, Option.some_or, Option.mem_some_iff] at found
  subst found
  exact noQuery _ (List.mem_of_find?_eq_some isFirst)

theorem mem_of_parent? {near above : List Node} (nonempty : near ≠ [])
    (ancestors : place.ancestors = near ++ above) :
    ∀ parent ∈ place.parent?, parent ∈ near := by
  intro parent isParent
  obtain ⟨first, rest, rfl⟩ := List.exists_cons_of_ne_nil nonempty
  rw [Occurrence.parent?, ancestors, List.cons_append, List.head?_cons, Option.mem_some_iff]
    at isParent
  rw [← isParent]
  exact List.mem_cons_self

theorem head?_typePlace (place : Occurrence) :
    (typePlace place.node place.ancestors).2.head? = place.slot? := by
  obtain ⟨node, ancestors⟩ := place
  cases ancestors with
  | nil => rfl
  | cons parent above =>
      rw [typePlace, Occurrence.slot?]
      by_cases generic : parent.kind = "generic_type" <;> simp [generic]

/-- The slot of a type name says whether the name is read as a type, and of which kind. -/
theorem exists_classifyType?_iff :
    (∃ container, classifyType? place.node place.ancestors = some (kind, container)) ↔
      (∀ slot ∈ place.slot?, slot.kind ∉ ["type_query", "implements_clause"]) ∧
        .ofSlot place.slot? = kind := by
  rw [classifyType?_eq, ← head?_typePlace]
  generalize (typePlace place.node place.ancestors).1 = holder
  cases (typePlace place.node place.ancestors).2 with
  | nil => simp [Kind.ofSlot]
  | cons slot above =>
      by_cases query : slot.kind = "type_query"
      · simp [query]
      by_cases implemented : slot.kind = "implements_clause"
      · simp [implemented]
      by_cases heritage : slot.kind = "extends_type_clause"
      · simp [heritage, Kind.ofSlot]
      by_cases argument : slot.kind = "type_arguments"
      · simp [argument, Kind.ofSlot]
      · simp [query, implemented, heritage, argument, Kind.ofSlot]

theorem isOptionalChain_eq_false_iff {node : Node} :
    isOptionalChain node = false ↔ ∀ child ∈ node.children, child.kind ≠ "optional_chain" := by
  simp [isOptionalChain]

theorem hasTypes_iff : language.hasTypes = true ↔ language = .typescript ∨ language = .tsx := by
  cases language <;> decide

theorem hasMarkup_iff : language.hasMarkup = true ↔ language = .javascript ∨ language = .tsx := by
  cases language <;> decide

/-- A value stands at a node exactly when the node is a member expression of the namespace, without
an optional chain, and neither a tag, nor directly in a qualified type name, nor in a type query. -/
theorem exists_value?_iff :
    (∃ reference, value? source namespaceName place = some reference ∧ reference.member = member) ↔
      (∃ object property, place.node.IsMember object property ∧ object.text source = namespaceName ∧
        property.text source = member) ∧
      (∀ child ∈ place.node.children, child.kind ≠ "optional_chain") ∧
      (∀ parent ∈ place.parent?, parent.kind ∉ tagHolders ++ qualifiedTypeNames) ∧
      ∀ outer ∈ place.ancestors.find? (·.kind != "member_expression"),
        outer.kind ≠ "type_query" := by
  constructor
  · rintro ⟨reference, value, rfl⟩
    obtain ⟨kind, object, property, parts, text, noTag, noType, noChain, noQuery, rfl⟩ :=
      value?_eq_some_iff.mp value
    refine ⟨⟨object, property, Node.isMember_iff.mpr ⟨kind, parts⟩, text, rfl⟩,
      isOptionalChain_eq_false_iff.mp noChain, ?_, insideTypeQuery_eq_false_iff.mp noQuery⟩
    intro parent isParent excluded
    rcases List.mem_append.mp excluded with tag | typeName
    · exact parentIn_eq_false_iff.mp noTag parent isParent tag
    · exact parentIn_eq_false_iff.mp noType parent isParent typeName
  · rintro ⟨⟨object, property, parts, text, rfl⟩, unchained, inExpression, unqueried⟩
    obtain ⟨kind, parts⟩ := Node.isMember_iff.mp parts
    have noParent (kinds : List String) (among : kinds ⊆ tagHolders ++ qualifiedTypeNames) :
        place.parentIn kinds = false :=
      parentIn_eq_false_iff.mpr fun parent isParent excluded =>
        inExpression parent isParent (among excluded)
    exact ⟨_, value?_eq_some_iff.mpr ⟨kind, object, property, parts, text,
      noParent _ (List.subset_append_left _ _), noParent _ (List.subset_append_right _ _),
      isOptionalChain_eq_false_iff.mpr unchained, insideTypeQuery_eq_false_iff.mpr unqueried, rfl⟩,
        rfl⟩

/-- **A reference stands at a node exactly when the node names a member.** -/
theorem exists_stands_iff_names :
    (∃ reference, Stands source language namespaceName place reference ∧
        reference.kind = kind ∧ reference.member = member) ↔
      Names source namespaceName language place kind member := by
  constructor
  · rintro ⟨reference, value | ⟨typed, type⟩ | ⟨marked, markup⟩, rfl, rfl⟩
    · obtain ⟨⟨object, property, parts, text, same⟩, unchained, inExpression, unqueried⟩ :=
        exists_value?_iff.mp ⟨reference, value, rfl⟩
      rw [kind_of_value? value, ← same]
      exact .value parts text unchained inExpression unqueried
    · obtain ⟨kind, qualifier, name, category, container, parts, text, classified, rfl⟩ :=
        type?_eq_some_iff.mp type
      obtain ⟨inSlot, rfl⟩ := exists_classifyType?_iff.mp ⟨container, classified⟩
      exact .type (hasTypes_iff.mp typed) (Node.isTypeName_iff.mpr ⟨kind, parts⟩) text inSlot
    · obtain ⟨holder, named, field, object, property, parts, text, rfl⟩ :=
        markup?_eq_some_iff.mp markup
      exact .markup (hasMarkup_iff.mp marked) (parentIn_eq_true_iff.mp holder) ⟨named, field⟩
        (Node.isTag_iff.mpr parts) text
  · rintro (⟨parts, namespaced, unchained, inExpression, unqueried⟩ |
      ⟨typed, parts, namespaced, inSlot⟩ | ⟨marked, inTag, isName, parts, namespaced⟩)
    · obtain ⟨reference, value, same⟩ := exists_value?_iff.mpr
        ⟨⟨_, _, parts, namespaced, rfl⟩, unchained, inExpression, unqueried⟩
      exact ⟨reference, .inl value, kind_of_value? value, same⟩
    · obtain ⟨kind, parts⟩ := Node.isTypeName_iff.mp parts
      obtain ⟨container, classified⟩ := exists_classifyType?_iff.mpr ⟨inSlot, rfl⟩
      exact ⟨_, .inr (.inl ⟨hasTypes_iff.mpr typed, type?_eq_some_iff.mpr
        ⟨kind, _, _, _, container, parts, namespaced, classified, rfl⟩⟩), rfl, rfl⟩
    · exact ⟨_, .inr (.inr ⟨hasMarkup_iff.mpr marked, markup?_eq_some_iff.mpr
        ⟨parentIn_eq_true_iff.mpr inTag, isName.1, isName.2, _, _, Node.isTag_iff.mp parts,
          namespaced, rfl⟩⟩), rfl, rfl⟩

end

end Reference

end Unqualify
