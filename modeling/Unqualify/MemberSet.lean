import Unqualify.Reference

/-!
# Member sets

The names that references reach through the namespace, each once and in the order of first
occurrence: one list for values and one for types. A tag names a value, and the names of tags come
after those of plain values.
-/

set_option autoImplicit false

namespace Unqualify

/-- The value names and the type names reached through a namespace. -/
structure MemberSet where
  values : List String := []
  types : List String := []
  deriving DecidableEq, Repr

namespace MemberSet

/-- Whether a name is among the values. -/
def hasValue (members : MemberSet) (name : String) : Bool :=
  members.values.contains name

/-- Whether a name is among the types. -/
def hasType (members : MemberSet) (name : String) : Bool :=
  members.types.contains name

/-- Whether there is no name at all. -/
def isEmpty (members : MemberSet) : Bool :=
  members.values.isEmpty && members.types.isEmpty

/-- The names in order of first occurrence. -/
def firstSeen (names : List String) : List String :=
  names.foldl (fun seen name => if seen.contains name then seen else seen ++ [name]) []

/-- The names of the references of a kind that satisfies `keep`. -/
def namesOf (keep : Reference.Kind → Bool) (references : List Reference) : List String :=
  (references.filter fun reference => keep reference.kind).map (·.member)

/-- The names that references reach. -/
def ofReferences (references : List Reference) : MemberSet where
  values := firstSeen (namesOf (· == .value) references ++ namesOf (· == .markup) references)
  types := firstSeen (namesOf Reference.Kind.isType references)

end MemberSet

end Unqualify
