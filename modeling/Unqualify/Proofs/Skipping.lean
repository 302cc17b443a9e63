import Unqualify.Proofs.Naming

/-!
# Names that are to be left alone

Two shapes only look like references. The inner part of a longer qualified type name is written as a
member expression, and so is the operand of a type query. Values are told apart from both by their
ancestors, and the two tests look at different stretches of them.

In a qualified type name the test is on the parent alone. The outermost member expression of the
name is skipped, and every one further inside is found as a value (`value_in_type_name`), so that
the first part of a type name of five parts is replaced (`deep_type_name_replaced`).

In a type query the test goes up through member expressions and stops at anything else. So it misses
an operand that is reached through an index, a call or type arguments (`reference_in_operand`,
`instantiated_operand_found`).
-/

set_option autoImplicit false

namespace Unqualify

/-! ## Going down from a node -/

namespace Occurrence

/-- A place reached from a node of some sort, first by going to a child and then by steps. The links
are the nodes on the way, nearest first. -/
inductive Reached (sort : Node → Prop) (step : Node → Node → Prop) :
    Occurrence → List Node → Prop where
  | child {outer node : Node} {above : List Node} (isOuter : sort outer)
      (isChild : node ∈ outer.children) : Reached sort step ⟨node, outer :: above⟩ []
  | deeper {place : Occurrence} {node : Node} {links : List Node}
      (reached : Reached sort step place links)
      (isStep : step place.node node) (isChild : node ∈ place.node.children) :
      Reached sort step ⟨node, place.node :: place.ancestors⟩ (place.node :: links)

/-- The ancestors of a place that is reached are the links and then the node from which it is
reached. -/
theorem Reached.exists_ancestors_eq {sort : Node → Prop} {step : Node → Node → Prop}
    {place : Occurrence} {links : List Node} (reached : place.Reached sort step links) :
    ∃ outer above, place.ancestors = links ++ outer :: above ∧ sort outer ∧
      ∀ link ∈ links, ∃ node, step link node := by
  induction reached with
  | @child outer _ above isOuter _ =>
      exact ⟨outer, above, rfl, isOuter, fun _ => (nomatch ·)⟩
  | @deeper place node links _ isStep _ ih =>
      obtain ⟨outer, above, ancestors, isOuter, steps⟩ := ih
      refine ⟨outer, above, by rw [ancestors]; rfl, isOuter, ?_⟩
      exact List.forall_mem_cons.mpr ⟨⟨node, isStep⟩, steps⟩

/-- A place in a qualified type name, reached from it through member expressions. -/
def InTypeName (place : Occurrence) (links : List Node) : Prop :=
  place.Reached (fun outer => outer.kind ∈ ["nested_identifier", "nested_type_identifier"])
    (fun link _ => link.kind = "member_expression") links

/-- The kinds of nodes through which an operand goes on. -/
def accessKinds : List String :=
  ["member_expression", "subscript_expression", "call_expression", "instantiation_expression"]

/-- A place in the operand of a type query: the operand, or the object or function of an access, a
call or an instantiation in the operand. -/
def InOperand (place : Occurrence) (links : List Node) : Prop :=
  place.Reached (fun outer => outer.kind = "type_query")
    (fun link node => link.kind ∈ accessKinds ∧
      (node.field = some "object" ∨ node.field = some "function")) links

end Occurrence

/-- A node is a member expression of two parts, of which the first is the namespace, and no optional
chain. -/
def Node.NamesMember (source : Bytes) (namespaceName : String) (node : Node) : Prop :=
  (∃ object property, node.IsMember object property ∧ object.text source = namespaceName) ∧
    ∀ child ∈ node.children, child.kind ≠ "optional_chain"

namespace Reference

/-! ## Values by their ancestors -/

section

variable {source : Bytes} {language : Language} {namespaceName : String} {place : Occurrence}
  {reference : Reference}

theorem exists_value?_iff_namesMember :
    (∃ reference, value? source namespaceName place = some reference) ↔
      place.node.NamesMember source namespaceName ∧
      (∀ parent ∈ place.parent?, parent.kind ∉ tagHolders ++ qualifiedTypeNames) ∧
      ∀ outer ∈ place.ancestors.find? (·.kind != "member_expression"),
        outer.kind ≠ "type_query" := by
  constructor
  · rintro ⟨reference, value⟩
    obtain ⟨⟨object, property, parts, text, _⟩, unchained, places⟩ :=
      exists_value?_iff.mp ⟨reference, value, rfl⟩
    exact ⟨⟨⟨object, property, parts, text⟩, unchained⟩, places⟩
  · rintro ⟨⟨⟨object, property, parts, text⟩, unchained⟩, places⟩
    obtain ⟨reference, value, _⟩ :=
      exists_value?_iff.mpr ⟨⟨object, property, parts, text, rfl⟩, unchained, places⟩
    exact ⟨reference, value⟩

/-- Only the rule for values gives values. -/
theorem Stands.value?_of_kind (stands : Stands source language namespaceName place reference)
    (kind : reference.kind = .value) : value? source namespaceName place = some reference := by
  rcases stands with value | ⟨_, type⟩ | ⟨_, markup⟩
  · exact value
  · obtain ⟨_, _, _, _, _, _, _, classified, rfl⟩ := type?_eq_some_iff.mp type
    rcases classifyType?_cases classified with rfl | ⟨rfl, _⟩ | ⟨rfl, _⟩ <;> exact nomatch kind
  · obtain ⟨_, _, _, _, _, _, _, rfl⟩ := markup?_eq_some_iff.mp markup
    exact nomatch kind

/-- A member expression of the namespace that its ancestors do not exclude is found as a value. -/
theorem exists_value_mem_find_of_namesMember {root : Node} (occurs : place ∈ root.occurrences)
    (names : place.node.NamesMember source namespaceName)
    (inExpression : ∀ parent ∈ place.parent?, parent.kind ∉ tagHolders ++ qualifiedTypeNames)
    (unqueried : ∀ outer ∈ place.ancestors.find? (·.kind != "member_expression"),
      outer.kind ≠ "type_query") (language : Language) :
    ∃ reference ∈ find source language namespaceName root,
      reference.kind = .value ∧ reference.range = (place.node.start, place.node.stop) := by
  obtain ⟨reference, value⟩ :=
    exists_value?_iff_namesMember.mpr ⟨names, inExpression, unqueried⟩
  obtain ⟨found, isFound, range, _, _, valueToo⟩ := exists_value?_mem_find occurs value language
  have stands : Stands source language namespaceName place reference := .inl value
  refine ⟨found, isFound, kind_of_value? valueToo, ?_⟩
  rw [range, Reference.range, stands.node_eq]

end

/-! ## Qualified type names -/

/-- **In a qualified type name a value is found exactly below another member expression.** What is
reached without a link, the outermost member expression of the name, is never found. A member
expression of the namespace that is reached through links is found as a value. -/
theorem value_in_type_name (source : Bytes) (language : Language) (namespaceName : String)
    (root : Node) (place : Occurrence) (links : List Node) (occurs : place ∈ root.occurrences)
    (inName : place.InTypeName links) :
    (∀ reference ∈ find source language namespaceName root,
        Stands source language namespaceName place reference → reference.kind = .value →
          links ≠ []) ∧
      (links ≠ [] → place.node.NamesMember source namespaceName →
        ∃ reference ∈ find source language namespaceName root,
          reference.kind = .value ∧ reference.range = (place.node.start, place.node.stop)) := by
  obtain ⟨outer, above, ancestors, typeName, steps⟩ := inName.exists_ancestors_eq
  have isMember : ∀ link ∈ links, link.kind = "member_expression" :=
    fun link isLink => (steps link isLink).elim fun _ kind => kind
  constructor
  · rintro reference - stands kind rfl
    obtain ⟨_, inExpression, _⟩ :=
      exists_value?_iff_namesMember.mp ⟨reference, stands.value?_of_kind kind⟩
    refine inExpression outer ?_ (List.mem_append_right _ typeName)
    rw [Occurrence.parent?, ancestors]
    rfl
  · intro nonempty names
    have other {kind : String} (apart : kind ∉ ["nested_identifier", "nested_type_identifier"]) :
        outer.kind ≠ kind := fun same => apart (same ▸ typeName)
    refine exists_value_mem_find_of_namesMember occurs names ?_ ?_ language
    · intro parent isParent
      rw [isMember parent (mem_of_parent? nonempty ancestors parent isParent)]
      decide
    · rw [ancestors, List.append_cons]
      refine unqueried_of_append ⟨outer, by simp, other (by decide)⟩ ?_
      intro ancestor isNear
      rcases List.mem_append.mp isNear with isLink | isOuter
      · rw [isMember ancestor isLink]
        decide
      · rw [List.mem_singleton.mp isOuter]
        exact other (by decide)

end Reference

namespace Sample

/-- A unit with a qualified type name of five parts. -/
def deepText : String :=
  "type D = React.A.B.C.D;\n"

def deepInner : Node :=
  filling "object" "member_expression" 9 16 [
    filling "object" "identifier" 9 14 [],
    token "." 14 15,
    filling "property" "property_identifier" 15 16 []]

def deepOuter : Node :=
  filling "object" "member_expression" 9 18 [
    deepInner, token "." 16 17, filling "property" "property_identifier" 17 18 []]

def deepModule : Node :=
  filling "module" "nested_identifier" 9 20 [
    deepOuter, token "." 18 19, filling "property" "property_identifier" 19 20 []]

def deepName : Node :=
  filling "value" "nested_type_identifier" 9 22 [
    deepModule, token "." 20 21, filling "name" "type_identifier" 21 22 []]

def deepDeclaration : Node :=
  branch "type_alias_declaration" 0 23 [
    token "type" 0 4, filling "name" "type_identifier" 5 6 [], token "=" 7 8, deepName,
    token ";" 22 23]

def deepRoot : Node :=
  branch "program" 0 24 [deepDeclaration]

/-- The place of `React.A.B`. -/
def deepOuterPlace : Occurrence :=
  ⟨deepOuter, [deepModule, deepName, deepDeclaration, deepRoot]⟩

/-- The place of `React.A`. -/
def deepInnerPlace : Occurrence :=
  ⟨deepInner, [deepOuter, deepModule, deepName, deepDeclaration, deepRoot]⟩

theorem deepOuterPlace_mem_occurrences : deepOuterPlace ∈ deepRoot.occurrences := by
  have declaration := Node.child_mem_occurrences (Node.root_mem_occurrences deepRoot) (.head _)
  have name := Node.child_mem_occurrences declaration (.tail _ (.tail _ (.tail _ (.head _))))
  have module := Node.child_mem_occurrences name (.head _)
  exact Node.child_mem_occurrences module (.head _)

theorem deepInnerPlace_mem_occurrences : deepInnerPlace ∈ deepRoot.occurrences :=
  Node.child_mem_occurrences deepOuterPlace_mem_occurrences (.head _)

theorem inTypeName_deepOuter : deepOuterPlace.InTypeName [] :=
  .child (by decide) (.head _)

theorem inTypeName_deepInner : deepInnerPlace.InTypeName [deepOuter] :=
  .deeper inTypeName_deepOuter rfl (.head _)

theorem namesMember_deepInner : deepInner.NamesMember (Utf8.encode deepText) "React" :=
  ⟨⟨filling "object" "identifier" 9 14 [], filling "property" "property_identifier" 15 16 [],
    Node.isMember_iff.mpr ⟨rfl, rfl⟩, by decide +kernel⟩, by decide +kernel⟩

end Sample

namespace Reference

/-- Of the two member expressions in the name the outer one is not found and the inner one is. -/
theorem value_in_type_name_deep :
    (∀ reference ∈ find (Utf8.encode Sample.deepText) .typescript "React" Sample.deepRoot,
      Stands (Utf8.encode Sample.deepText) .typescript "React" Sample.deepOuterPlace reference →
        reference.kind ≠ .value) ∧
    ∃ reference ∈ find (Utf8.encode Sample.deepText) .typescript "React" Sample.deepRoot,
      reference.kind = .value ∧ reference.range = (9, 16) := by
  constructor
  · intro reference found stands value
    exact (value_in_type_name (Utf8.encode Sample.deepText) .typescript "React" Sample.deepRoot
      Sample.deepOuterPlace [] Sample.deepOuterPlace_mem_occurrences
      Sample.inTypeName_deepOuter).1 reference found stands value rfl
  · exact (value_in_type_name (Utf8.encode Sample.deepText) .typescript "React" Sample.deepRoot
      Sample.deepInnerPlace [Sample.deepOuter] Sample.deepInnerPlace_mem_occurrences
      Sample.inTypeName_deepInner).2 (List.cons_ne_nil _ _) Sample.namesMember_deepInner

/-- The first two parts of a qualified type name of five parts are found as a value, collected and
replaced. -/
theorem deep_type_name_replaced :
    (∃ place ∈ Sample.deepRoot.occurrences, ∃ links, place.InTypeName links ∧
      ∃ reference ∈ find (Utf8.encode Sample.deepText) .typescript "React" Sample.deepRoot,
        reference.kind = .value ∧ reference.node.label = place.node.label) ∧
    (MemberSet.ofReferences
      (find (Utf8.encode Sample.deepText) .typescript "React" Sample.deepRoot)).values = ["A"] ∧
    edits (find (Utf8.encode Sample.deepText) .typescript "React" Sample.deepRoot)
      (.ofReferences (find (Utf8.encode Sample.deepText) .typescript "React" Sample.deepRoot)) =
        [⟨9, 16, "A"⟩] := by
  refine ⟨⟨Sample.deepInnerPlace, Sample.deepInnerPlace_mem_occurrences, [Sample.deepOuter],
    Sample.inTypeName_deepInner, ?_⟩, ?_, ?_⟩ <;> decide +kernel

/-! ## Operands of type queries -/

section

variable {source : Bytes} {namespaceName : String} {place : Occurrence} {reference : Reference}
  {links above : List Node} {outer : Node} (ancestors : place.ancestors = links ++ outer :: above)
  (query : outer.kind = "type_query")

include ancestors query

/-- A value is not reached from a type query through member expressions alone. -/
theorem exists_stop_of_value? (value : value? source namespaceName place = some reference) :
    ∃ link ∈ links, link.kind ≠ "member_expression" := by
  by_contra noStop
  obtain ⟨_, _, unqueried⟩ := exists_value?_iff_namesMember.mp ⟨reference, value⟩
  refine unqueried outer ?_ query
  have passed : links.find? (·.kind != "member_expression") = none := by
    rw [List.find?_eq_none]
    intro link isLink other
    exact noStop ⟨link, isLink, bne_iff_ne.mp other⟩
  rw [ancestors, List.find?_append, passed, Option.none_or,
    List.find?_cons_of_pos (by simp [query])]
  exact rfl

/-- A type that is the operand of a type query is not read. -/
theorem ne_nil_of_type? (type : type? source namespaceName place = some reference) :
    links ≠ [] := by
  rintro rfl
  obtain ⟨_, _, _, _, container, _, _, classified, _⟩ := type?_eq_some_iff.mp type
  obtain ⟨inSlot, _⟩ := exists_classifyType?_iff.mp ⟨container, classified⟩
  have slot : place.slot? = some outer := by
    rw [Occurrence.slot?, ancestors]
    simp [query]
  exact inSlot outer slot (by simp [query])

end

/-- **In the operand of a type query a value is found exactly below a node that is no member
expression.** The operand itself is never found, tags are never found, and a value is found only
when one of the links to it is an index, a call or an instantiation. A member expression of the
namespace below such a link is found as a value. -/
theorem reference_in_operand (source : Bytes) (language : Language) (namespaceName : String)
    (root : Node) (place : Occurrence) (links : List Node) (occurs : place ∈ root.occurrences)
    (inOperand : place.InOperand links) :
    (∀ reference ∈ find source language namespaceName root,
        Stands source language namespaceName place reference →
          links ≠ [] ∧ reference.kind ≠ .markup ∧
            (reference.kind = .value → ∃ link ∈ links, link.kind ≠ "member_expression")) ∧
      ((∃ link ∈ links, link.kind ≠ "member_expression") →
        place.node.NamesMember source namespaceName →
        ∃ reference ∈ find source language namespaceName root,
          reference.kind = .value ∧ reference.range = (place.node.start, place.node.stop)) := by
  obtain ⟨outer, above, ancestors, query, steps⟩ := inOperand.exists_ancestors_eq
  have isAccess : ∀ link ∈ links, link.kind ∈ Occurrence.accessKinds :=
    fun link isLink => (steps link isLink).elim fun _ step => step.1
  have unlike : ∀ kind ∈ Occurrence.accessKinds,
      kind ≠ "type_query" ∧ kind ∉ tagHolders ++ qualifiedTypeNames := by
    decide
  constructor
  · rintro reference - (value | ⟨_, type⟩ | ⟨_, markup⟩)
    · obtain ⟨link, isLink, stops⟩ := exists_stop_of_value? ancestors query value
      rw [kind_of_value? value]
      exact ⟨List.ne_nil_of_mem isLink, nofun, fun _ => ⟨link, isLink, stops⟩⟩
    · have nonempty := ne_nil_of_type? ancestors query type
      obtain ⟨_, _, _, _, _, _, _, classified, rfl⟩ := type?_eq_some_iff.mp type
      rcases classifyType?_cases classified with rfl | ⟨rfl, _⟩ | ⟨rfl, _⟩ <;>
        exact ⟨nonempty, nofun, nofun⟩
    · -- The parent of a tag is no access and no type query.
      obtain ⟨parent, isParent, tag⟩ :=
        parentIn_eq_true_iff.mp (markup?_eq_some_iff.mp markup).1
      rw [List.append_cons] at ancestors
      rcases List.mem_append.mp (mem_of_parent? (by simp) ancestors parent isParent) with
        isLink | isOuter
      · exact absurd (List.mem_append_left _ tag) (unlike _ (isAccess parent isLink)).2
      · rw [List.mem_singleton.mp isOuter, query] at tag
        exact absurd tag (by decide)
  · rintro ⟨link, isLink, stops⟩ names
    refine exists_value_mem_find_of_namesMember occurs names ?_ ?_ language
    · intro parent isParent
      have isNear := mem_of_parent? (List.ne_nil_of_mem isLink) ancestors parent isParent
      exact (unlike _ (isAccess parent isNear)).2
    · rw [ancestors]
      exact unqueried_of_append ⟨link, isLink, stops⟩
        fun ancestor isNear => (unlike _ (isAccess ancestor isNear)).1

end Reference

namespace Sample

/-- A unit in which a type query asks for a function with type arguments. -/
def stateText : String :=
  "type S = typeof React.useState<string>;\n"

def stateMember : Node :=
  filling "function" "member_expression" 16 30 [
    filling "object" "identifier" 16 21 [],
    token "." 21 22,
    filling "property" "property_identifier" 22 30 []]

def stateOperand : Node :=
  branch "instantiation_expression" 16 38 [
    stateMember,
    filling "type_arguments" "type_arguments" 30 38 [
      token "<" 30 31, branch "predefined_type" 31 37 [token "string" 31 37], token ">" 37 38]]

def stateQuery : Node :=
  filling "value" "type_query" 9 38 [token "typeof" 9 15, stateOperand]

def stateDeclaration : Node :=
  branch "type_alias_declaration" 0 39 [
    token "type" 0 4, filling "name" "type_identifier" 5 6 [], token "=" 7 8, stateQuery,
    token ";" 38 39]

def stateRoot : Node :=
  branch "program" 0 40 [stateDeclaration]

/-- The place of `React.useState`. -/
def statePlace : Occurrence :=
  ⟨stateMember, [stateOperand, stateQuery, stateDeclaration, stateRoot]⟩

theorem statePlace_mem_occurrences : statePlace ∈ stateRoot.occurrences := by
  have declaration := Node.child_mem_occurrences (Node.root_mem_occurrences stateRoot) (.head _)
  have query := Node.child_mem_occurrences declaration (.tail _ (.tail _ (.tail _ (.head _))))
  have operand := Node.child_mem_occurrences query (.tail _ (.head _))
  exact Node.child_mem_occurrences operand (.head _)

theorem inOperand_state : statePlace.InOperand [stateOperand] := by
  have operand :
      Occurrence.InOperand ⟨stateOperand, [stateQuery, stateDeclaration, stateRoot]⟩ [] :=
    .child rfl (.tail _ (.head _))
  exact .deeper operand ⟨by decide, .inr rfl⟩ (.head _)

theorem namesMember_state : stateMember.NamesMember (Utf8.encode stateText) "React" :=
  ⟨⟨filling "object" "identifier" 16 21 [], filling "property" "property_identifier" 22 30 [],
    Node.isMember_iff.mpr ⟨rfl, rfl⟩, by decide +kernel⟩, by decide +kernel⟩

end Sample

namespace Reference

theorem reference_in_operand_state :
    ∃ reference ∈ find (Utf8.encode Sample.stateText) .typescript "React" Sample.stateRoot,
      reference.kind = .value ∧ reference.range = (16, 30) :=
  (reference_in_operand (Utf8.encode Sample.stateText) .typescript "React" Sample.stateRoot
    Sample.statePlace [Sample.stateOperand] Sample.statePlace_mem_occurrences
    Sample.inOperand_state).2 ⟨Sample.stateOperand, by simp, by decide⟩ Sample.namesMember_state

/-- The operand of a type query with type arguments is found, and the query loses its namespace. -/
theorem instantiated_operand_found :
    (∃ place ∈ Sample.stateRoot.occurrences, ∃ links, place.InOperand links ∧
      ∃ reference ∈ find (Utf8.encode Sample.stateText) .typescript "React" Sample.stateRoot,
        reference.node.label = place.node.label) ∧
    edits (find (Utf8.encode Sample.stateText) .typescript "React" Sample.stateRoot)
      (.ofReferences (find (Utf8.encode Sample.stateText) .typescript "React" Sample.stateRoot)) =
        [⟨16, 30, "useState"⟩] := by
  refine ⟨⟨Sample.statePlace, Sample.statePlace_mem_occurrences, [Sample.stateOperand],
    Sample.inOperand_state, ?_⟩, ?_⟩ <;> decide +kernel

end Reference

end Unqualify
