import Mathlib.Data.List.Basic
import Mathlib.Data.List.Induction
import Mathlib.Data.List.Nodup
import Unqualify.MemberSet

/-!
# What a member set holds

Collecting names keeps each of them once, in the order in which they first occur
(`firstSeen_listsFirstSeen`). A member set has a side for values and a side for types, and a name is
on a side exactly when a reference of that side has it (`mem_side_ofReferences`).
-/

set_option autoImplicit false

namespace Unqualify.MemberSet

/-- `listed` has the names of `names`, each once, in the order in which they first occur. -/
structure ListsFirstSeen (names listed : List String) : Prop where
  nodup : listed.Nodup
  mem_iff : ∀ name, name ∈ listed ↔ name ∈ names
  ordered : listed.Pairwise fun a b => names.idxOf a < names.idxOf b

/-! ## Collecting names -/

theorem firstSeen_concat (names : List String) (name : String) :
    firstSeen (names ++ [name]) =
      if name ∈ firstSeen names then firstSeen names else firstSeen names ++ [name] := by
  simp [firstSeen, List.foldl_append]

/-- Names after the listed ones change nothing about where these first occur. -/
theorem pairwise_idxOf_append {names listed : List String} (later : List String)
    (subset : ∀ name ∈ listed, name ∈ names)
    (ordered : listed.Pairwise fun a b => names.idxOf a < names.idxOf b) :
    listed.Pairwise fun a b => (names ++ later).idxOf a < (names ++ later).idxOf b := by
  apply ordered.imp_of_mem
  intro a b memberA memberB before
  rwa [List.idxOf_append_of_mem (subset a memberA), List.idxOf_append_of_mem (subset b memberB)]

/-- **Collecting lists the names in the order of first occurrence.** -/
theorem firstSeen_listsFirstSeen (names : List String) :
    ListsFirstSeen names (firstSeen names) := by
  induction names using List.reverseRecOn with
  | nil => exact ⟨.nil, fun _ => Iff.rfl, .nil⟩
  | append_singleton names name ih =>
      have subset : ∀ other ∈ firstSeen names, other ∈ names := fun other => (ih.mem_iff other).mp
      have kept := pairwise_idxOf_append [name] subset ih.ordered
      rw [firstSeen_concat]
      split
      next seen =>
        refine ⟨ih.nodup, ?_, kept⟩
        intro other
        have old : name ∈ names := subset name seen
        rw [ih.mem_iff, List.mem_append, List.mem_singleton]
        exact ⟨.inl, fun found => found.elim id fun same => same ▸ old⟩
      next new =>
        have notOld : name ∉ names := fun old => new ((ih.mem_iff name).mpr old)
        refine ⟨List.concat_eq_append ▸ ih.nodup.concat new, ?_, ?_⟩
        · intro other
          rw [List.mem_append, List.mem_append, ih.mem_iff]
        · rw [List.pairwise_append]
          refine ⟨kept, List.pairwise_singleton _ _, ?_⟩
          intro a memberA b memberB
          rw [List.mem_singleton.mp memberB, List.idxOf_append_of_mem (subset a memberA),
            List.idxOf_append_of_notMem notOld]
          exact Nat.lt_add_right _ (List.idxOf_lt_length_of_mem (subset a memberA))

/-! ## The two sides -/

/-- The names of one side. -/
def side (members : MemberSet) (typeSide : Bool) : List String :=
  if typeSide then members.types else members.values

theorem exists_mem_side {members : MemberSet} {name : String} :
    (∃ typeSide, name ∈ members.side typeSide) ↔ name ∈ members.values ∨ name ∈ members.types := by
  simp [side, Bool.exists_bool]

/-- The names of the references of one side in the order in which they count: on the side of values
those of plain accesses come first and those of tags follow. -/
def sideNames (typeSide : Bool) (references : List Reference) : List String :=
  if typeSide then namesOf Reference.Kind.isType references
  else namesOf (· == .value) references ++ namesOf (· == .markup) references

theorem side_ofReferences (typeSide : Bool) (references : List Reference) :
    (ofReferences references).side typeSide = firstSeen (sideNames typeSide references) := by
  cases typeSide <;> rfl

theorem mem_namesOf {keep : Reference.Kind → Bool} {references : List Reference} {name : String} :
    name ∈ namesOf keep references ↔
      ∃ reference ∈ references, keep reference.kind = true ∧ reference.member = name := by
  simp only [namesOf, List.mem_map, List.mem_filter, and_assoc]

theorem mem_sideNames {typeSide : Bool} {references : List Reference} {name : String} :
    name ∈ sideNames typeSide references ↔
      ∃ reference ∈ references, reference.kind.isType = typeSide ∧ reference.member = name := by
  cases typeSide with
  | true => exact mem_namesOf
  | false =>
      have split : ∀ kind : Reference.Kind,
          kind.isType = false ↔ (kind == .value) = true ∨ (kind == .markup) = true := by
        intro kind
        cases kind <;> decide
      rw [sideNames, if_neg Bool.false_ne_true, List.mem_append, mem_namesOf, mem_namesOf]
      constructor
      · rintro (⟨reference, member, kind, name⟩ | ⟨reference, member, kind, name⟩)
        · exact ⟨reference, member, (split _).mpr (.inl kind), name⟩
        · exact ⟨reference, member, (split _).mpr (.inr kind), name⟩
      · rintro ⟨reference, member, kind, name⟩
        rcases (split _).mp kind with plain | tag
        · exact .inl ⟨reference, member, plain, name⟩
        · exact .inr ⟨reference, member, tag, name⟩

/-- **A name is on a side of a member set exactly when a reference of that side has it.** -/
theorem mem_side_ofReferences {typeSide : Bool} {references : List Reference} {name : String} :
    name ∈ (ofReferences references).side typeSide ↔
      ∃ reference ∈ references, reference.kind.isType = typeSide ∧ reference.member = name := by
  rw [side_ofReferences, (firstSeen_listsFirstSeen _).mem_iff, mem_sideNames]

theorem exists_mem_side_ofReferences {references : List Reference} {name : String} :
    (∃ typeSide, name ∈ (ofReferences references).side typeSide) ↔
      ∃ reference ∈ references, reference.member = name := by
  constructor
  · rintro ⟨typeSide, member⟩
    obtain ⟨reference, found, _, same⟩ := mem_side_ofReferences.mp member
    exact ⟨reference, found, same⟩
  · rintro ⟨reference, found, same⟩
    exact ⟨reference.kind.isType, mem_side_ofReferences.mpr ⟨reference, found, rfl, same⟩⟩

end Unqualify.MemberSet
