import Unqualify.Edit
import Unqualify.MemberSet

/-!
# Replacing references by bare names

A reference is replaced as a whole by the name of its member. Each kind asks that the reference
still stands in a place of its kind and that its name is a member of the matching side; a reference
that does not is left as it is.
-/

set_option autoImplicit false

namespace Unqualify

namespace Reference

/-- Whether the container satisfies `test`. -/
def containedIn (reference : Reference) (test : String → Bool) : Bool :=
  reference.container.any fun container => test container.kind

/-- Whether the reference stands in a place of its kind. -/
def inPlace (reference : Reference) : Bool :=
  match reference.kind with
  | .value => reference.node.kind == "member_expression"
  | .type => reference.node.kind == "nested_type_identifier"
  | .argument => reference.containedIn (· == "type_arguments")
  | .markup => reference.containedIn fun kind => "jsx_".toList.isPrefixOf kind.toList
  | .heritage => reference.containedIn (· == "extends_type_clause")

/-- Whether the name of the reference is a member of its side. -/
def isMember (reference : Reference) (members : MemberSet) : Bool :=
  if reference.kind.isType then members.hasType reference.member
  else members.hasValue reference.member

/-- The edit that leaves only the name of the member. -/
def bare (reference : Reference) : Edit :=
  ⟨reference.node.start, reference.node.stop, reference.member⟩

/-- The edits that replace the references to members. -/
def edits (references : List Reference) (members : MemberSet) : List Edit :=
  (references.filter fun reference => reference.inPlace && reference.isMember members).map bare

end Reference

end Unqualify
