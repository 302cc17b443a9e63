import Mathlib.Data.List.Perm.Basic
import Unqualify.Proofs.MemberSet

/-!
# Which members are listed, and in which order

A member set is told by three rules: what is on a side, that nothing is there twice, and in which
order it stands (`Lists`). The names of plain values come first, and of the names of tags only those
follow that no plain value has. Exactly one member set lists given references, and it is the one
that is collected (`ofReferences_exact`). So a reference that repeats an earlier one changes
nothing.
-/

set_option autoImplicit false

namespace Unqualify.MemberSet

/-! ## Names in order of first occurrence -/

theorem ListsFirstSeen.unique {names first second : List String}
    (lists : ListsFirstSeen names first) (listsToo : ListsFirstSeen names second) :
    first = second := by
  have same : first.Perm second := by
    rw [List.perm_ext_iff_of_nodup lists.nodup listsToo.nodup]
    intro name
    rw [lists.mem_iff, listsToo.mem_iff]
  refine same.eq_of_pairwise (fun a b _ _ before behind => ?_) lists.ordered listsToo.ordered
  exact absurd before (Nat.lt_asymm behind)

/-- **Further names add those of them that are new.** -/
theorem firstSeen_append (names further : List String) :
    firstSeen (names ++ further) =
      firstSeen names ++ firstSeen (further.filter fun name => name ∉ names) := by
  induction further using List.reverseRecOn with
  | nil => simp [firstSeen]
  | append_singleton further name ih =>
      have known : name ∈ firstSeen names ↔ name ∈ names :=
        (firstSeen_listsFirstSeen names).mem_iff name
      rw [← List.append_assoc, firstSeen_concat, ih, List.filter_append]
      simp only [List.mem_append, known]
      by_cases old : name ∈ names
      · have dropped : [name].filter (fun name => name ∉ names) = [] := by simp [old]
        rw [dropped, if_pos (.inl old), List.append_nil]
      · have kept : [name].filter (fun name => name ∉ names) = [name] := by simp [old]
        rw [kept, firstSeen_concat]
        simp only [old, false_or]
        split
        · rfl
        · rw [List.append_assoc]

/-- Names that have all occurred before add nothing, whatever comes after them. -/
theorem firstSeen_append_of_subset {names repeated : List String} (subset : repeated ⊆ names)
    (further : List String) :
    firstSeen (names ++ repeated ++ further) = firstSeen (names ++ further) := by
  have none : repeated.filter (fun name => name ∉ names) = [] := by
    rw [List.filter_eq_nil_iff]
    intro name among
    simpa using subset among
  rw [List.append_assoc, firstSeen_append, firstSeen_append names further, List.filter_append, none,
    List.nil_append]

/-! ## Member sets by their rules -/

/-- A member set lists what references reach. -/
structure Lists (references : List Reference) (members : MemberSet) : Prop where
  nodup_values : members.values.Nodup
  nodup_types : members.types.Nodup
  mem_values : ∀ name, name ∈ members.values ↔
    ∃ reference ∈ references, reference.kind ∈ [.value, .markup] ∧ reference.member = name
  mem_types : ∀ name, name ∈ members.types ↔
    ∃ reference ∈ references, reference.kind ∈ [.type, .argument, .heritage] ∧
      reference.member = name
  types_ordered : ListsFirstSeen (namesOf Reference.Kind.isType references) members.types
  /-- The names of plain values come first, and the names that only tags have come after them. -/
  values_ordered : ∃ plain tags, members.values = plain ++ tags ∧
    ListsFirstSeen (namesOf (· == .value) references) plain ∧
    ListsFirstSeen
      ((namesOf (· == .markup) references).filter fun name =>
        name ∉ namesOf (· == .value) references) tags

theorem isType_eq_false_iff (kind : Reference.Kind) :
    kind.isType = false ↔ kind ∈ [.value, .markup] := by
  cases kind <;> decide

theorem isType_eq_true_iff (kind : Reference.Kind) :
    kind.isType = true ↔ kind ∈ [.type, .argument, .heritage] := by
  cases kind <;> decide

section

variable {references later : List Reference} {members other : MemberSet}

theorem lists_ofReferences (references : List Reference) :
    Lists references (ofReferences references) where
  nodup_values := (firstSeen_listsFirstSeen _).nodup
  nodup_types := (firstSeen_listsFirstSeen _).nodup
  mem_values name := by
    have member := @mem_side_ofReferences false references name
    simp only [isType_eq_false_iff] at member
    exact member
  mem_types name := by
    have member := @mem_side_ofReferences true references name
    simp only [isType_eq_true_iff] at member
    exact member
  types_ordered := firstSeen_listsFirstSeen _
  values_ordered :=
    ⟨_, _, firstSeen_append _ _, firstSeen_listsFirstSeen _, firstSeen_listsFirstSeen _⟩

/-- **Only one member set lists given references.** -/
theorem Lists.unique (lists : Lists references members) (listsToo : Lists references other) :
    members = other := by
  obtain ⟨plain, tags, values, plainLists, tagsList⟩ := lists.values_ordered
  obtain ⟨plain', tags', values', plainLists', tagsList'⟩ := listsToo.values_ordered
  have sameValues : members.values = other.values := by
    rw [values, values', plainLists.unique plainLists', tagsList.unique tagsList']
  have sameTypes : members.types = other.types :=
    lists.types_ordered.unique listsToo.types_ordered
  cases members
  cases other
  exact congrArg₂ MemberSet.mk sameValues sameTypes

/-! ## References that are repeated -/

/-- A reference repeats one of the references: the name is on its side already, and as that of a
plain value if the reference is one. Any earlier reference of the same kind and name will do. -/
def Repeats (references : List Reference) (reference : Reference) : Prop :=
  ∃ earlier ∈ references, earlier.member = reference.member ∧
    earlier.kind.isType = reference.kind.isType ∧
    (reference.kind = .value → earlier.kind = .value)

theorem namesOf_append (keep : Reference.Kind → Bool) (references later : List Reference) :
    namesOf keep (references ++ later) = namesOf keep references ++ namesOf keep later := by
  rw [namesOf, List.filter_append, List.map_append]
  rfl

section

variable (repeats : ∀ reference ∈ later, Repeats references reference)

include repeats

theorem namesOf_isType_subset_of_repeats :
    namesOf Reference.Kind.isType later ⊆ namesOf Reference.Kind.isType references := by
  intro name among
  obtain ⟨reference, isLater, isType, rfl⟩ := mem_namesOf.mp among
  obtain ⟨earlier, member, name, side, _⟩ := repeats reference isLater
  exact mem_namesOf.mpr ⟨earlier, member, side.trans isType, name⟩

theorem namesOf_value_subset_of_repeats :
    namesOf (· == .value) later ⊆ namesOf (· == .value) references := by
  intro name among
  obtain ⟨reference, isLater, isValue, rfl⟩ := mem_namesOf.mp among
  obtain ⟨earlier, member, name, _, plain⟩ := repeats reference isLater
  exact mem_namesOf.mpr ⟨earlier, member, beq_iff_eq.mpr (plain (beq_iff_eq.mp isValue)), name⟩

theorem namesOf_markup_subset_of_repeats :
    namesOf (· == .markup) later ⊆ sideNames false references := by
  intro name among
  obtain ⟨reference, isLater, isMarkup, rfl⟩ := mem_namesOf.mp among
  obtain ⟨earlier, member, name, side, _⟩ := repeats reference isLater
  rw [beq_iff_eq.mp isMarkup] at side
  exact mem_sideNames.mpr ⟨earlier, member, side, name⟩

/-- **References that repeat earlier ones add nothing.** -/
theorem ofReferences_append_of_repeats :
    ofReferences (references ++ later) = ofReferences references := by
  refine congrArg₂ MemberSet.mk ?_ ?_
  · rw [namesOf_append, namesOf_append,
      firstSeen_append_of_subset (namesOf_value_subset_of_repeats repeats), ← List.append_assoc]
    have markup := firstSeen_append_of_subset (namesOf_markup_subset_of_repeats repeats) []
    rwa [List.append_nil, List.append_nil] at markup
  · have types := firstSeen_append_of_subset (namesOf_isType_subset_of_repeats repeats) []
    rwa [List.append_nil, List.append_nil, ← namesOf_append] at types

end

/-- **What is collected from references.** It is the one member set that lists them: each name once,
on the side of values or of types or on both, in order of first occurrence and with the names that
only tags have at the end. References that repeat earlier ones leave it as it is. -/
theorem ofReferences_exact (references : List Reference) :
    (∀ members, members = ofReferences references ↔ Lists references members) ∧
      ∀ later, (∀ reference ∈ later, Repeats references reference) →
        ofReferences (references ++ later) = ofReferences references := by
  refine ⟨fun members => ⟨?_, fun lists => ?_⟩, fun later repeats => ?_⟩
  · rintro rfl
    exact lists_ofReferences references
  · exact lists.unique (lists_ofReferences references)
  · exact ofReferences_append_of_repeats repeats

end

end Unqualify.MemberSet

namespace Unqualify

namespace Sample

/-- A reference to a member, wherever it stands. -/
def mention (kind : Reference.Kind) (member : String) : Reference :=
  ⟨kind, member, .mk { kind := "identifier", start := 0, stop := 0 } [], none⟩

/-- A name that is a tag before it is a value, and a type at last. -/
def mentions : List Reference :=
  [mention .markup "Suspense", mention .markup "memo", mention .value "memo",
   mention .heritage "memo", mention .value "lazy"]

end Sample

/-- A tag that is named again adds nothing, and neither does a tag with the name of a plain
value. -/
theorem MemberSet.ofReferences_exact_mentions :
    let later := [Sample.mention .markup "Suspense", Sample.mention .markup "lazy"]
    (∀ reference ∈ later, Repeats Sample.mentions reference) ∧
      Lists Sample.mentions ⟨["memo", "lazy", "Suspense"], ["memo"]⟩ ∧
      ofReferences (Sample.mentions ++ later) = ⟨["memo", "lazy", "Suspense"], ["memo"]⟩ := by
  intro later
  have repeats : ∀ reference ∈ later, Repeats Sample.mentions reference := by
    intro reference among
    rcases List.mem_pair.mp among with rfl | rfl
    · exact ⟨Sample.mention .markup "Suspense", by simp [Sample.mentions], rfl, rfl, nofun⟩
    · exact ⟨Sample.mention .value "lazy", by simp [Sample.mentions], rfl, rfl, nofun⟩
  have collected : ⟨["memo", "lazy", "Suspense"], ["memo"]⟩ = ofReferences Sample.mentions := by
    decide +kernel
  obtain ⟨exact, unchanged⟩ := ofReferences_exact Sample.mentions
  exact ⟨repeats, (exact _).mp collected, (unchanged later repeats).trans collected.symm⟩

end Unqualify
