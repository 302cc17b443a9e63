import Unqualify.Proofs.Qualified

/-!
# Components and built-in elements

A tag with a dotted name stands for a component. A tag with a single word stands for a component
too, unless the word starts with a small letter: then it stands for a built-in element
(`TagMeaning.ofWords`).

The rewriting goes by names alone. Whether a tag is rewritten depends on the member set and not on
the letter its member starts with (`bare_mem_edits_iff`), so a member with a small letter turns a
component into an element (`small_member_becomes_element`). It is the only case: all other tags keep
their meaning (`tag_meaning_kept_iff`).
-/

set_option autoImplicit false

namespace Unqualify

/-- What a markup tag stands for. -/
inductive TagMeaning where
  /-- A value of the program. -/
  | component
  /-- An element that the renderer has built in. -/
  | element
  deriving DecidableEq, Repr

/-- Whether a name starts with a small letter, `a` to `z`. -/
def startsSmall (name : String) : Bool :=
  name.toList.head?.any Char.isLower

/-- What a tag stands for whose name has these words, with dots between them. -/
def TagMeaning.ofWords : List String → TagMeaning
  | [word] => if startsSmall word then .element else .component
  | _ => .component

theorem TagMeaning.ofWords_singleton_eq_component_iff {word : String} :
    ofWords [word] = .component ↔ startsSmall word = false := by
  rw [ofWords]
  cases startsSmall word <;> decide

namespace Reference

section

variable {source : Bytes} {language : Language} {namespaceName : String} {root : Node}
  {place : Occurrence} {reference : Reference}

/-- A reference that is a tag is read as one. -/
theorem Stands.markup?_of_kind (stands : Stands source language namespaceName place reference)
    (kind : reference.kind = .markup) : markup? source namespaceName place = some reference := by
  rcases stands with value | ⟨_, type⟩ | ⟨_, markup⟩
  · exact absurd ((kind_of_value? value).symm.trans kind) (by decide)
  · obtain ⟨_, _, _, _, _, _, _, classified, rfl⟩ := type?_eq_some_iff.mp type
    rcases classifyType?_cases classified with rfl | ⟨rfl, _⟩ | ⟨rfl, _⟩ <;> exact nomatch kind
  · exact markup

/-- **Names alone decide what is rewritten.** Among the references that are found, one is rewritten
exactly when its name is a member of its side. -/
theorem bare_mem_edits_iff (found : reference ∈ find source language namespaceName root)
    (members : MemberSet) :
    reference.bare ∈ edits (find source language namespaceName root) members ↔
      reference.isMember members = true := by
  rw [edits, List.mem_map]
  constructor
  · rintro ⟨other, listed, same⟩
    obtain ⟨alsoFound, replaced⟩ := List.mem_filter.mp listed
    have ranges : other.range = reference.range := by
      injection same with starts stops
      exact Prod.ext starts stops
    -- No two references that are found have one range.
    have unique : other = reference := by
      by_contra different
      have symmetric : Std.Symm fun a b : Reference => a.range ≠ b.range := ⟨fun _ _ => Ne.symm⟩
      exact (find_pairwise_range source language namespaceName root).forall alsoFound found
        different
        ranges
    rw [unique, Bool.and_eq_true] at replaced
    exact replaced.2
  · intro isMember
    have inPlace := (inPlace_and_isMember_of_mem_find found).1
    exact ⟨reference, List.mem_filter.mpr ⟨found, by rw [inPlace, isMember, Bool.and_self]⟩, rfl⟩

/-- **When a tag keeps its meaning.** A tag that is found has the namespace and the member as the
two parts of its name, so it stands for a component. It is rewritten exactly when the member is
among the values, whatever letter it starts with, and always when the members are those of the
references. What is written for it is the member, and the tag stands for a component as before
exactly when the member does not start with a small letter. -/
theorem tag_meaning_kept_iff (found : reference ∈ find source language namespaceName root)
    (isTag : reference.kind = .markup) :
    (∃ object property, tagParts? reference.node = some (object, property) ∧
        object.text source = namespaceName ∧ property.text source = reference.member) ∧
      (∀ members, reference.bare ∈ edits (find source language namespaceName root) members ↔
        reference.member ∈ members.values) ∧
      reference.bare ∈ edits (find source language namespaceName root)
        (.ofReferences (find source language namespaceName root)) ∧
      TagMeaning.ofWords [namespaceName, reference.member] = .component ∧
      (TagMeaning.ofWords [reference.bare.text] = .component ↔
        startsSmall reference.member = false) := by
  refine ⟨?_, fun members => ?_, ?_, rfl, TagMeaning.ofWords_singleton_eq_component_iff⟩
  · obtain ⟨place, _, stands⟩ := exists_stands_of_mem_find found
    obtain ⟨_, _, _, object, property, parts, namespaced, rfl⟩ :=
      markup?_eq_some_iff.mp (stands.markup?_of_kind isTag)
    exact ⟨object, property, parts, namespaced, rfl⟩
  · rw [bare_mem_edits_iff found, isMember, isTag]
    exact List.contains_iff_mem
  · exact (bare_mem_edits_iff found _).mpr (inPlace_and_isMember_of_mem_find found).2

end

end Reference

namespace Sample

/-- The tree of a tag for a member of three letters. -/
def tabRoot : Node :=
  branch "program" 0 15 [
    branch "expression_statement" 0 14 [
      branch "jsx_self_closing_element" 0 13 [
        token "<" 0 1,
        filling "name" "member_expression" 1 10 [
          filling "object" "identifier" 1 6 [], token "." 6 7,
          filling "property" "property_identifier" 7 10 []],
        token "/>" 11 13],
      token ";" 13 14]]

/-- The references of a unit that consists of the tag. -/
def tabReferences (text : String) : List Reference :=
  Reference.find (Utf8.encode text) .tsx "React" tabRoot

end Sample

namespace Reference

/-- A tag whose member starts with a capital letter is rewritten and still stands for a
component. -/
theorem tag_meaning_kept_iff_capital :
    ∃ reference ∈ Sample.tabReferences "<React.Tab />;\n", reference.kind = .markup ∧
      reference.bare ∈ edits (Sample.tabReferences "<React.Tab />;\n")
        (.ofReferences (Sample.tabReferences "<React.Tab />;\n")) ∧
      TagMeaning.ofWords [reference.bare.text] = .component := by
  have isTag : ∃ reference ∈ Sample.tabReferences "<React.Tab />;\n",
      reference.kind = .markup ∧ startsSmall reference.member = false := by
    decide +kernel
  obtain ⟨reference, found, isTag, capital⟩ := isTag
  obtain ⟨_, _, rewritten, _, kept⟩ := tag_meaning_kept_iff found isTag
  exact ⟨reference, found, isTag, rewritten, kept.mpr capital⟩

/-- A tag that stands for a component is rewritten to one that stands for an element, because its
member starts with a small letter. -/
theorem small_member_becomes_element :
    let references := Sample.tabReferences "<React.tab />;\n"
    edits references (.ofReferences references) = [⟨1, 10, "tab"⟩] ∧
      ∃ reference ∈ references, reference.kind = .markup ∧
        reference.bare ∈ edits references (.ofReferences references) ∧
        startsSmall reference.member = true ∧
        TagMeaning.ofWords ["React", reference.member] = .component ∧
        TagMeaning.ofWords [reference.bare.text] = .element := by
  decide +kernel

end Reference

end Unqualify
