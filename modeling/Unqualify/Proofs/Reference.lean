import Mathlib.Data.List.Induction
import Unqualify.Proofs.MemberSet
import Unqualify.Proofs.Syntax.Occurrence
import Unqualify.Replacement

/-!
# Where references stand

A reference is read off an occurrence of the tree by one of three rules, and each rule is inverted
here once (`value?_eq_some_iff`, `type?_eq_some_iff`, `markup?_eq_some_iff`). What is found stands
at an occurrence of the tree (`exists_stands_of_mem_find`) in a place of its kind, so that every
reference is replaced when the members are those of the references (`edits_ofReferences`).
-/

set_option autoImplicit false

namespace Unqualify.Reference

/-! ## The three rules -/

/-- A node names a value exactly when it is a two-part member expression of the namespace in a place
where values stand. -/
theorem value?_eq_some_iff {source : Bytes} {namespaceName : String} {occurrence : Occurrence}
    {reference : Reference} :
    value? source namespaceName occurrence = some reference ↔
      occurrence.node.kind = "member_expression" ∧
        ∃ object property, memberParts? occurrence.node = some (object, property) ∧
          object.text source = namespaceName ∧ occurrence.parentIn tagHolders = false ∧
          occurrence.parentIn qualifiedTypeNames = false ∧
          isOptionalChain occurrence.node = false ∧
          insideTypeQuery occurrence.ancestors = false ∧
          reference = ⟨.value, property.text source, occurrence.node, occurrence.parent?⟩ := by
  rw [value?]
  by_cases kind : occurrence.node.kind = "member_expression"
  · rw [if_neg (by simp [kind])]
    cases memberParts? occurrence.node with
    | none => simp
    | some parts =>
        simp only [Option.ite_none_right_eq_some, Bool.and_eq_true, beq_iff_eq, Bool.not_eq_true']
        constructor
        · rintro ⟨⟨⟨⟨⟨object, tag⟩, typeName⟩, chain⟩, query⟩, same⟩
          exact ⟨kind, parts.1, parts.2, rfl, object, tag, typeName, chain, query,
            (Option.some.inj same).symm⟩
        · rintro ⟨_, _, _, same, object, tag, typeName, chain, query, rfl⟩
          cases same
          exact ⟨⟨⟨⟨⟨object, tag⟩, typeName⟩, chain⟩, query⟩, rfl⟩
  · rw [if_pos (by simp [kind])]
    simp [kind]

/-- A node names a type exactly when it is a two-part type name of the namespace in a place where
types stand. -/
theorem type?_eq_some_iff {source : Bytes} {namespaceName : String} {occurrence : Occurrence}
    {reference : Reference} :
    type? source namespaceName occurrence = some reference ↔
      occurrence.node.kind = "nested_type_identifier" ∧
        ∃ qualifier name kind container, typeParts? occurrence.node = some (qualifier, name) ∧
          qualifier.text source = namespaceName ∧
          classifyType? occurrence.node occurrence.ancestors = some (kind, container) ∧
          reference = ⟨kind, name.text source, occurrence.node, some container⟩ := by
  rw [type?]
  by_cases kind : occurrence.node.kind = "nested_type_identifier"
  · rw [if_neg (by simp [kind])]
    cases typeParts? occurrence.node with
    | none => simp
    | some parts =>
        simp only [Option.ite_none_right_eq_some, beq_iff_eq, Option.map_eq_some_iff, Prod.exists]
        constructor
        · rintro ⟨qualifier, category, container, classified, rfl⟩
          exact ⟨kind, parts.1, parts.2, category, container, rfl, qualifier, classified, rfl⟩
        · rintro ⟨_, _, _, category, container, same, qualifier, classified, rfl⟩
          cases same
          exact ⟨qualifier, category, container, classified, rfl⟩
  · rw [if_pos (by simp [kind])]
    simp [kind]

/-- A node names a tag exactly when it is the two-part name, by the namespace, of a markup tag. -/
theorem markup?_eq_some_iff {source : Bytes} {namespaceName : String} {occurrence : Occurrence}
    {reference : Reference} :
    markup? source namespaceName occurrence = some reference ↔
      occurrence.parentIn tagHolders = true ∧ occurrence.node.named = true ∧
        occurrence.node.field = some "name" ∧
        ∃ object property, tagParts? occurrence.node = some (object, property) ∧
          object.text source = namespaceName ∧
          reference = ⟨.markup, property.text source, occurrence.node, occurrence.parent?⟩ := by
  rw [markup?]
  split
  next place =>
    simp only [Bool.and_eq_true, beq_iff_eq] at place
    cases tagParts? occurrence.node with
    | none => simp
    | some parts =>
        simp only [Option.ite_none_right_eq_some, beq_iff_eq]
        constructor
        · rintro ⟨object, same⟩
          exact ⟨place.1.1, place.1.2, place.2, parts.1, parts.2, rfl, object,
            (Option.some.inj same).symm⟩
        · rintro ⟨_, _, _, _, _, same, object, rfl⟩
          cases same
          exact ⟨object, rfl⟩
  next elsewhere =>
    simp only [Bool.and_eq_true, beq_iff_eq] at elsewhere
    refine iff_of_false (fun impossible => nomatch impossible) fun ⟨parent, named, field, _⟩ => ?_
    exact elsewhere ⟨⟨parent, named⟩, field⟩

/-- The node that fills a slot together with a type name, and the ancestors from the slot on. -/
def typePlace (node : Node) (ancestors : List Node) : Node × List Node :=
  match ancestors with
  | [] => (node, [])
  | parent :: rest => if parent.kind == "generic_type" then (parent, rest) else (node, ancestors)

theorem classifyType?_eq (node : Node) (ancestors : List Node) :
    classifyType? node ancestors =
      match (typePlace node ancestors).2 with
      | [] => some (.type, (typePlace node ancestors).1)
      | slot :: _ =>
          if slot.kind == "type_query" || slot.kind == "implements_clause" then none
          else if slot.kind == "extends_type_clause" then some (.heritage, slot)
          else if slot.kind == "type_arguments" then some (.argument, slot)
          else some (.type, (typePlace node ancestors).1) := by
  rw [classifyType?.eq_def]
  rfl

/-- The slot of a type decides its kind, and a type of a special kind is contained in its slot. -/
theorem classifyType?_cases {node container : Node} {ancestors : List Node} {kind : Kind}
    (classified : classifyType? node ancestors = some (kind, container)) :
    kind = .type ∨ kind = .argument ∧ container.kind = "type_arguments" ∨
      kind = .heritage ∧ container.kind = "extends_type_clause" := by
  rw [classifyType?_eq] at classified
  split at classified
  next => cases classified; exact .inl rfl
  next slot _ _ =>
    split at classified
    next => exact nomatch classified
    next =>
      split at classified
      next heritage =>
        cases classified
        exact .inr (.inr ⟨rfl, beq_iff_eq.mp heritage⟩)
      next =>
        split at classified
        next argument =>
          cases classified
          exact .inr (.inl ⟨rfl, beq_iff_eq.mp argument⟩)
        next => cases classified; exact .inl rfl

/-! ## References at occurrences -/

/-- A reference stands at an occurrence, by a rule that the language has. -/
def Stands (source : Bytes) (language : Language) (namespaceName : String) (occurrence : Occurrence)
    (reference : Reference) : Prop :=
  value? source namespaceName occurrence = some reference ∨
    language.hasTypes = true ∧ type? source namespaceName occurrence = some reference ∨
    language.hasMarkup = true ∧ markup? source namespaceName occurrence = some reference

section Stands

variable {source : Bytes} {language : Language} {namespaceName : String} {occurrence : Occurrence}
  {reference : Reference}

/-- A reference names the node at which it stands. -/
theorem Stands.node_eq (stands : Stands source language namespaceName occurrence reference) :
    reference.node = occurrence.node := by
  rcases stands with value | ⟨_, type⟩ | ⟨_, markup⟩
  · obtain ⟨_, _, _, _, _, _, _, _, _, rfl⟩ := value?_eq_some_iff.mp value
    rfl
  · obtain ⟨_, _, _, _, _, _, _, _, rfl⟩ := type?_eq_some_iff.mp type
    rfl
  · obtain ⟨_, _, _, _, _, _, _, rfl⟩ := markup?_eq_some_iff.mp markup
    rfl

/-- References are nodes of three kinds. -/
theorem Stands.kind_mem (stands : Stands source language namespaceName occurrence reference) :
    occurrence.node.kind ∈
      ["member_expression", "nested_type_identifier", "nested_identifier"] := by
  rcases stands with value | ⟨_, type⟩ | ⟨_, markup⟩
  · rw [(value?_eq_some_iff.mp value).1]
    decide
  · rw [(type?_eq_some_iff.mp type).1]
    decide
  · obtain ⟨_, _, _, _, _, parts, _⟩ := markup?_eq_some_iff.mp markup
    rw [tagParts?] at parts
    split at parts
    next => exact nomatch parts
    next tag =>
      simp only [Bool.and_eq_true, bne_iff_ne, ne_eq, not_and, Decidable.not_not] at tag
      by_cases plain : occurrence.node.kind = "member_expression"
      · simp [plain]
      · simp [tag plain]

/-- A reference stands in a place of its kind. -/
theorem Stands.inPlace (stands : Stands source language namespaceName occurrence reference) :
    reference.inPlace = true := by
  rcases stands with value | ⟨_, type⟩ | ⟨_, markup⟩
  · obtain ⟨kind, _, _, _, _, _, _, _, _, rfl⟩ := value?_eq_some_iff.mp value
    exact beq_iff_eq.mpr kind
  · obtain ⟨kind, _, _, _, container, _, _, classified, rfl⟩ := type?_eq_some_iff.mp type
    rcases classifyType?_cases classified with rfl | ⟨rfl, slot⟩ | ⟨rfl, slot⟩
    · exact beq_iff_eq.mpr kind
    · exact beq_iff_eq.mpr slot
    · exact beq_iff_eq.mpr slot
  · obtain ⟨holder, _, _, _, _, _, _, rfl⟩ := markup?_eq_some_iff.mp markup
    rw [Occurrence.parentIn, Option.any_eq_true] at holder
    obtain ⟨parent, isParent, kind⟩ := holder
    rw [Reference.inPlace]
    show (occurrence.parent?.any fun container => "jsx_".toList.isPrefixOf container.kind.toList) =
      true
    rw [isParent, Option.any_some]
    simp only [tagHolders, List.contains_cons, List.contains_nil, Bool.or_eq_true, beq_iff_eq,
      Bool.or_false] at kind
    rcases kind with kind | kind | kind <;> rw [kind] <;> decide

end Stands

/-! ## The list of references -/

theorem mem_candidates {source : Bytes} {language : Language} {namespaceName : String} {root : Node}
    {reference : Reference} :
    reference ∈ candidates source language namespaceName root ↔
      ∃ occurrence ∈ root.occurrences,
        Stands source language namespaceName occurrence reference := by
  have only {condition : Bool} {some : List Reference} :
      (reference ∈ if condition then some else []) ↔ condition = true ∧ reference ∈ some := by
    cases condition <;> simp
  simp only [candidates, List.mem_append, only, List.mem_filterMap]
  constructor
  · rintro ((⟨occurrence, member, value⟩ | ⟨typed, occurrence, member, type⟩) |
      ⟨marked, occurrence, member, markup⟩)
    · exact ⟨occurrence, member, .inl value⟩
    · exact ⟨occurrence, member, .inr (.inl ⟨typed, type⟩)⟩
    · exact ⟨occurrence, member, .inr (.inr ⟨marked, markup⟩)⟩
  · rintro ⟨occurrence, member, value | ⟨typed, type⟩ | ⟨marked, markup⟩⟩
    · exact .inl (.inl ⟨occurrence, member, value⟩)
    · exact .inl (.inr ⟨typed, occurrence, member, type⟩)
    · exact .inr ⟨marked, occurrence, member, markup⟩

theorem distinct_append_singleton (references : List Reference) (last : Reference) :
    distinct (references ++ [last]) =
      if (distinct references).any fun other => other.range == last.range then distinct references
      else distinct references ++ [last] := by
  rw [distinct, List.foldl_append]
  rfl

theorem distinct_subset (references : List Reference) : distinct references ⊆ references := by
  induction references using List.reverseRecOn with
  | nil => exact List.Subset.refl _
  | append_singleton references last ih =>
      rw [distinct_append_singleton]
      split
      · exact List.Subset.trans ih (List.subset_append_left _ _)
      · exact List.append_subset.mpr ⟨List.Subset.trans ih (List.subset_append_left _ _),
          List.subset_append_right _ _⟩

/-- **What is found stands at an occurrence of the tree.** -/
theorem exists_stands_of_mem_find {source : Bytes} {language : Language} {namespaceName : String}
    {root : Node} {reference : Reference}
    (found : reference ∈ find source language namespaceName root) :
    ∃ occurrence ∈ root.occurrences, Stands source language namespaceName occurrence reference :=
  mem_candidates.mp (distinct_subset _ (List.mem_mergeSort.mp found))

/-- Every reference that is found stands in a place of its kind, and its name is a member of its
side when the members are those of the references. -/
theorem inPlace_and_isMember_of_mem_find {source : Bytes} {language : Language}
    {namespaceName : String} {root : Node} {reference : Reference}
    (found : reference ∈ find source language namespaceName root) :
    reference.inPlace = true ∧
      reference.isMember (.ofReferences (find source language namespaceName root)) = true := by
  obtain ⟨_, _, stands⟩ := exists_stands_of_mem_find found
  have member := MemberSet.mem_side_ofReferences.mpr ⟨reference, found, rfl, rfl⟩
  refine ⟨stands.inPlace, ?_⟩
  rw [MemberSet.side] at member
  rw [isMember]
  split
  next typed => rw [if_pos typed] at member; exact List.contains_iff_mem.mpr member
  next untyped => rw [if_neg untyped] at member; exact List.contains_iff_mem.mpr member

/-- **Every reference that is found is replaced by the name of its member.** -/
theorem edits_ofReferences (source : Bytes) (language : Language) (namespaceName : String)
    (root : Node) :
    edits (find source language namespaceName root)
        (.ofReferences (find source language namespaceName root)) =
      (find source language namespaceName root).map bare := by
  rw [edits, List.filter_eq_self.mpr]
  intro reference found
  obtain ⟨inPlace, isMember⟩ := inPlace_and_isMember_of_mem_find found
  rw [inPlace, isMember, Bool.and_self]

end Unqualify.Reference
