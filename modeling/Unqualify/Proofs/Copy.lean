import Unqualify.Proofs.Import.Declaration
import Unqualify.Proofs.Qualified
import Unqualify.Proofs.Syntax.Pairing

/-!
# What is read off a copy

The rules for references look at a node, at what its children say and cover, and at its ancestors,
of which only the kinds count. So a node whose children are copies, below ancestors of the same
kinds, is a reference exactly when the node it was copied from is one; `Reference.Stands.of_copied`
is the half of this that is used. In the same way an import statement binds the same names when its
clause is a copy (`ImportDeclaration.heads_eq_of_rel`).
-/

set_option autoImplicit false

namespace Unqualify

/-! ## Ancestors count by their kinds -/

theorem Occurrence.parentIn_eq (occurrence : Occurrence) (kinds : List String) :
    occurrence.parentIn kinds =
      (occurrence.ancestors.map Node.kind).head?.any fun kind => kinds.contains kind := by
  rw [parentIn, parent?, List.head?_map, Option.any_map]

namespace Reference

theorem insideTypeQuery_eq (ancestors : List Node) :
    insideTypeQuery ancestors =
      ((ancestors.map Node.kind).dropWhile fun kind => kind == "member_expression").head?.any
        fun kind => kind == "type_query" := by
  rw [insideTypeQuery, List.dropWhile_map, List.head?_map, Option.any_map]
  rfl

theorem isSome_classifyType? (node : Node) (ancestors : List Node) :
    (classifyType? node ancestors).isSome =
      ((typePlace node ancestors).2.map Node.kind).head?.all fun slot =>
        !(slot == "type_query" || slot == "implements_clause") := by
  rw [classifyType?_eq]
  cases (typePlace node ancestors).2 with
  | nil => rfl
  | cons slot rest =>
      rw [List.map_cons, List.head?_cons, Option.all_some]
      dsimp only
      cases slot.kind == "type_query" || slot.kind == "implements_clause" with
      | true => rfl
      | false =>
          rw [if_neg Bool.false_ne_true]
          split
          · rfl
          · split <;> rfl

theorem map_kind_typePlace {node other : Node} {ancestors others : List Node}
    (kinds : others.map Node.kind = ancestors.map Node.kind) :
    (typePlace other others).2.map Node.kind = (typePlace node ancestors).2.map Node.kind := by
  cases ancestors with
  | nil =>
      rw [List.map_nil, List.map_eq_nil_iff] at kinds
      rw [kinds]
      rfl
  | cons parent above =>
      obtain ⟨parent', above', rfl, same, rest⟩ := List.map_eq_cons_iff.mp kinds
      rw [typePlace, typePlace, same]
      split
      · exact rest
      · exact kinds

end Reference

/-! ## References -/

namespace Node

variable {source output : Bytes} {node copy : Node}

theorem CopiedTo.beq_kind (copied : CopiedTo source output node copy) (kind : String) :
    (node.kind == kind) = (copy.kind == kind) := by
  rw [copied.same.kind_eq]

theorem CopiedTo.beq_field (copied : CopiedTo source output node copy) (field : Option String) :
    (node.field == field) = (copy.field == field) := by
  rw [copied.same.field_eq]

theorem map_text_of_copied {nodes copies : List Node}
    (copied : List.Forall₂ (CopiedTo source output) nodes copies) :
    copies.map (text output) = nodes.map (text source) := by
  induction copied with
  | nil => rfl
  | cons here _ ih => rw [List.map_cons, List.map_cons, here.text_eq, ih]

theorem rel_namedChildren_of_copied
    (children : List.Forall₂ (CopiedTo source output) node.children copy.children) :
    List.Forall₂ (CopiedTo source output) node.namedChildren copy.namedChildren :=
  rel_namedChildren (fun _ _ copied => copied.same.named_eq.symm) children

theorem rel_child?_of_copied (field : String)
    (children : List.Forall₂ (CopiedTo source output) node.children copy.children) :
    Option.Rel (CopiedTo source output) (node.child? field) (copy.child? field) :=
  rel_find? (fun _ _ copied => copied.beq_field (some field)) (fun _ _ _ copied _ => copied)
    children

/-- Parts picked by field and kind are picked alike from copies. -/
theorem exists_pair?_of_copied {headField headKind tailField tailKind : String}
    {object property : Node}
    (children : List.Forall₂ (CopiedTo source output) node.children copy.children)
    (parts : copy.pair? (fun child => child.field == some headField && child.kind == headKind)
      (fun child => child.field == some tailField && child.kind == tailKind) =
        some (object, property)) :
    ∃ origin rest,
      node.pair? (fun child => child.field == some headField && child.kind == headKind)
        (fun child => child.field == some tailField && child.kind == tailKind) =
          some (origin, rest) ∧
        object.text output = origin.text source := by
  have agree (field kind : String) (part other : Node)
      (copied : CopiedTo source output part other) :
      (part.field == some field && part.kind == kind) =
        (other.field == some field && other.kind == kind) := by
    rw [copied.beq_field, copied.beq_kind]
  have related := rel_pair? (agree headField headKind) (agree tailField tailKind) children
  rw [parts] at related
  generalize node.pair? _ _ = found at related ⊢
  cases related with
  | some here => exact ⟨_, _, rfl, here.1.text_eq⟩

end Node

namespace Reference

variable {source output : Bytes} {node copy object property : Node}

theorem isOptionalChain_of_copied
    (children : List.Forall₂ (Node.CopiedTo source output) node.children copy.children) :
    isOptionalChain copy = isOptionalChain node := by
  rw [isOptionalChain, isOptionalChain]
  generalize node.children = nodes, copy.children = copies at children
  induction children with
  | nil => rfl
  | cons here _ ih => rw [List.any_cons, List.any_cons, here.beq_kind, ih]

theorem exists_tagParts?_of_copied (same : node.SameButRange copy)
    (children : List.Forall₂ (Node.CopiedTo source output) node.children copy.children)
    (parts : tagParts? copy = some (object, property)) :
    ∃ origin rest, tagParts? node = some (origin, rest) ∧
      object.text output = origin.text source := by
  obtain ⟨kind, first, second, two, rfl, rfl, objectKind, propertyKind⟩ :=
    tagParts?_eq_some_iff.mp parts
  have named := Node.rel_namedChildren_of_copied children
  rw [two] at named
  obtain ⟨first', _, isFirst, others, left⟩ := List.forall₂_cons_right_iff.mp named
  obtain ⟨second', _, isSecond, none, rfl⟩ := List.forall₂_cons_right_iff.mp others
  rw [List.forall₂_nil_right_iff.mp none] at left
  -- A field that is filled in the copy is filled alike, and otherwise the position decides.
  have picked (field : String) {child other : Node}
      (copied : Node.CopiedTo source output child other) :
      Node.CopiedTo source output ((node.child? field).getD child)
        ((copy.child? field).getD other) := by
    have related := Node.rel_child?_of_copied field children
    generalize node.child? field = found at related ⊢
    generalize copy.child? field = foundOther at related ⊢
    cases related with
    | none => exact copied
    | some here => exact here
  have isObject := picked "object" isFirst
  have isProperty := picked "property" isSecond
  refine ⟨_, _, tagParts?_eq_some_iff.mpr
    ⟨?_, first', second', left, rfl, rfl, ?_, ?_⟩, isObject.text_eq⟩
  · rwa [same.kind_eq] at kind
  · rwa [isObject.same.kind_eq] at objectKind
  · rwa [isProperty.same.kind_eq] at propertyKind

/-- **What is a reference in a copy was a reference before.** The children are copies, and the
ancestors are of the same kinds. -/
theorem Stands.of_copied {language : Language} {namespaceName : String} {before after : Occurrence}
    {reference : Reference} (same : before.node.SameButRange after.node)
    (children : List.Forall₂ (Node.CopiedTo source output) before.node.children after.node.children)
    (kinds : after.ancestors.map Node.kind = before.ancestors.map Node.kind)
    (stands : Stands output language namespaceName after reference) :
    ∃ origin, Stands source language namespaceName before origin := by
  have parents (among : List String) : after.parentIn among = before.parentIn among := by
    rw [Occurrence.parentIn_eq, Occurrence.parentIn_eq, kinds]
  rcases stands with value | ⟨typed, type⟩ | ⟨marked, markup⟩
  · obtain ⟨kind, object, property, parts, text, noTag, noType, noChain, noQuery, rfl⟩ :=
      value?_eq_some_iff.mp value
    obtain ⟨origin, rest, origins, texts⟩ := Node.exists_pair?_of_copied children parts
    rw [same.kind_eq] at kind
    rw [texts] at text
    rw [parents] at noTag noType
    rw [isOptionalChain_of_copied children] at noChain
    rw [insideTypeQuery_eq, kinds, ← insideTypeQuery_eq] at noQuery
    exact ⟨_, .inl (value?_eq_some_iff.mpr
      ⟨kind, origin, rest, origins, text, noTag, noType, noChain, noQuery, rfl⟩)⟩
  · obtain ⟨kind, qualifier, name, category, container, parts, text, classified, rfl⟩ :=
      type?_eq_some_iff.mp type
    obtain ⟨origin, rest, origins, texts⟩ := Node.exists_pair?_of_copied children parts
    rw [same.kind_eq] at kind
    rw [texts] at text
    have some : (classifyType? before.node before.ancestors).isSome = true := by
      rw [isSome_classifyType?, ← map_kind_typePlace kinds, ← isSome_classifyType?, classified]
      rfl
    obtain ⟨⟨category', container'⟩, classified'⟩ := Option.isSome_iff_exists.mp some
    exact ⟨_, .inr (.inl ⟨typed, type?_eq_some_iff.mpr
      ⟨kind, origin, rest, category', container', origins, text, classified', rfl⟩⟩)⟩
  · obtain ⟨holder, named, field, object, property, parts, text, rfl⟩ :=
      markup?_eq_some_iff.mp markup
    obtain ⟨origin, rest, origins, texts⟩ := exists_tagParts?_of_copied same children parts
    rw [parents] at holder
    rw [same.named_eq] at named
    rw [same.field_eq] at field
    rw [texts] at text
    exact ⟨_, .inr (.inr ⟨marked, markup?_eq_some_iff.mpr
      ⟨holder, named, field, origin, rest, origins, text, rfl⟩⟩)⟩

end Reference

/-! ## Import statements -/

namespace ImportDeclaration

variable {source output : Bytes} {node copy : Node}

theorem rel_headNodes {part other : Node} (copied : Node.CopiedTo source output part other) :
    List.Forall₂ (Node.CopiedTo source output) (headNodes part) (headNodes other) := by
  rw [headNodes, headNodes, copied.same.kind_eq]
  split
  · exact .cons copied .nil
  · split
    · refine List.rel_filter ?_ (Node.rel_namedChildren_of_copied copied.children)
      intro child other copied
      exact Bool.eq_iff_iff.mp (copied.beq_kind "identifier")
    · exact .nil

/-- A statement binds the same names outside of braces when its clause is copied. -/
theorem heads_eq_of_rel
    (clauses : Option.Rel (Node.CopiedTo source output)
      (node.namedChildren.find? fun child => child.kind == "import_clause")
      (copy.namedChildren.find? fun child => child.kind == "import_clause")) :
    (ofNode output copy).heads = (ofNode source node).heads := by
  have parts :
      List.Forall₂ (Node.CopiedTo source output) (clauseNodes node) (clauseNodes copy) := by
    rw [clauseNodes, clauseNodes]
    generalize node.namedChildren.find? _ = found at clauses ⊢
    generalize copy.namedChildren.find? _ = foundOther at clauses ⊢
    cases clauses with
    | none => exact .nil
    | some copied => exact Node.rel_namedChildren_of_copied copied.children
  exact Node.map_text_of_copied (List.rel_flatMap parts fun _ _ copied => rel_headNodes copied)

/-- A statement names the same module when the node of the module name is copied. -/
theorem literal_eq_of_rel
    (literals : Option.Rel (Node.CopiedTo source output) (literalNode? node) (literalNode? copy)) :
    (ofNode output copy).literal = (ofNode source node).literal := by
  rw [ofNode, ofNode]
  dsimp only
  generalize literalNode? node = found at literals ⊢
  generalize literalNode? copy = foundOther at literals ⊢
  cases literals with
  | none => rfl
  | some copied => exact congrArg some copied.text_eq

end ImportDeclaration

end Unqualify
