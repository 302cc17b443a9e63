import Unqualify.Language
import Unqualify.Syntax.Node

/-!
# Qualified references

A qualified reference is a node that names a member through a namespace: `React.useState` as a
value, `React.FC` as a type, `<React.Fragment>` as a tag. It is read off the node and its ancestors
alone, and it falls into exactly one kind.

Look-alikes are no references: an optional chain `React?.x`, the operand of a type query
`typeof React.X`, an entry of a class's `implements` clause, and the inner part of a deeper
qualified name such as `React.JSX.Element`. Tags are read by their own rule, so a member expression
in tag position is no value.

`Reference.find` lists the references of a tree by their start. Values are looked for first, then
types, then tags, and of two references with the same range the first found is kept.
-/

set_option autoImplicit false

namespace Unqualify

/-- The syntactic category of a qualified reference. -/
inductive Reference.Kind where
  /-- A member read at run time. -/
  | value
  /-- A type name, possibly with type arguments. -/
  | type
  /-- The name of a markup tag. -/
  | markup
  /-- A type name that is itself a type argument. -/
  | argument
  /-- A type name in the `extends` clause of an interface. -/
  | heritage
  deriving DecidableEq, Repr

/-- Whether references of a kind name types; the others name values. -/
def Reference.Kind.isType : Reference.Kind → Bool
  | .value => false
  | .type => true
  | .markup => false
  | .argument => true
  | .heritage => true

/-- A node that names a member through the namespace. -/
structure Reference where
  kind : Reference.Kind
  /-- The name of the member. -/
  member : String
  /-- The qualified name as a whole. -/
  node : Node
  /-- The enclosing node whose slot the reference fills. -/
  container : Option Node

namespace Reference

/-- The range of the qualified name. -/
def range (reference : Reference) : Nat × Nat :=
  (reference.node.start, reference.node.stop)

/-- The kinds of nodes that hold a tag name. -/
def tagHolders : List String :=
  ["jsx_opening_element", "jsx_closing_element", "jsx_self_closing_element"]

/-- The kinds of nodes that hold a qualified name in type position. -/
def qualifiedTypeNames : List String :=
  ["nested_identifier", "nested_type_identifier"]

/-! ## Values -/

/-- The object and the property of a two-part member expression. -/
def memberParts? (node : Node) : Option (Node × Node) :=
  node.pair? (fun child => child.field == some "object" && child.kind == "identifier")
    (fun child => child.field == some "property" && child.kind == "property_identifier")

/-- Whether a node is reached by an optional chain. -/
def isOptionalChain (node : Node) : Bool :=
  node.children.any fun child => child.kind == "optional_chain"

/-- Whether the nearest ancestor that is no member expression is a type query. -/
def insideTypeQuery (ancestors : List Node) : Bool :=
  (ancestors.dropWhile fun ancestor => ancestor.kind == "member_expression").head?.any
    fun ancestor => ancestor.kind == "type_query"

/-- The value that a node names through `namespace`. -/
def value? (source : Bytes) (namespaceName : String) (occurrence : Occurrence) :
    Option Reference :=
  let node := occurrence.node
  if node.kind != "member_expression" then none
  else
    match memberParts? node with
    | none => none
    | some (object, property) =>
        if object.text source == namespaceName && !occurrence.parentIn tagHolders &&
            !occurrence.parentIn qualifiedTypeNames && !isOptionalChain node &&
            !insideTypeQuery occurrence.ancestors then
          some ⟨.value, property.text source, node, occurrence.parent?⟩
        else none

/-! ## Types -/

/-- The module and the name of a two-part type name. -/
def typeParts? (node : Node) : Option (Node × Node) :=
  node.pair? (fun child => child.field == some "module" && child.kind == "identifier")
    (fun child => child.field == some "name" && child.kind == "type_identifier")

/-- The kind and the container of a type name with the given ancestors. The name and the type
arguments that follow it fill one slot together, and the slot decides. -/
def classifyType? (node : Node) (ancestors : List Node) : Option (Kind × Node) :=
  let (holder, above) :=
    match ancestors with
    | [] => (node, [])
    | parent :: rest => if parent.kind == "generic_type" then (parent, rest) else (node, ancestors)
  match above with
  | [] => some (.type, holder)
  | slot :: _ =>
      if slot.kind == "type_query" || slot.kind == "implements_clause" then none
      else if slot.kind == "extends_type_clause" then some (.heritage, slot)
      else if slot.kind == "type_arguments" then some (.argument, slot)
      else some (.type, holder)

/-- The type that a node names through `namespace`. -/
def type? (source : Bytes) (namespaceName : String) (occurrence : Occurrence) :
    Option Reference :=
  let node := occurrence.node
  if node.kind != "nested_type_identifier" then none
  else
    match typeParts? node with
    | none => none
    | some (qualifier, name) =>
        if qualifier.text source == namespaceName then
          (classifyType? node occurrence.ancestors).map fun (kind, container) =>
            ⟨kind, name.text source, node, some container⟩
        else none

/-! ## Tags -/

/-- The object and the property of a two-part tag name. The fields are optional. -/
def tagParts? (tag : Node) : Option (Node × Node) :=
  if tag.kind != "member_expression" && tag.kind != "nested_identifier" then none
  else
    match tag.namedChildren with
    | [first, second] =>
        let object := (tag.child? "object").getD first
        let property := (tag.child? "property").getD second
        if object.kind == "identifier" &&
            (property.kind == "property_identifier" || property.kind == "identifier") then
          some (object, property)
        else none
    | _ => none

/-- The value that a tag names through `namespace`. -/
def markup? (source : Bytes) (namespaceName : String) (occurrence : Occurrence) :
    Option Reference :=
  let node := occurrence.node
  if occurrence.parentIn tagHolders && node.named && node.field == some "name" then
    match tagParts? node with
    | none => none
    | some (object, property) =>
        if object.text source == namespaceName then
          some ⟨.markup, property.text source, node, occurrence.parent?⟩
        else none
  else none

/-! ## All references of a tree -/

/-- The references without those whose range a reference before them has. -/
def distinct (references : List Reference) : List Reference :=
  references.foldl
    (fun kept reference =>
      if kept.any fun other => other.range == reference.range then kept else kept ++ [reference])
    []

/-- The references to members of `namespace` that a language admits, values before types before
tags. -/
def candidates (source : Bytes) (language : Language) (namespaceName : String) (root : Node) :
    List Reference :=
  let occurrences := root.occurrences
  occurrences.filterMap (value? source namespaceName) ++
    (if language.hasTypes then occurrences.filterMap (type? source namespaceName) else []) ++
    (if language.hasMarkup then occurrences.filterMap (markup? source namespaceName) else [])

/-- Every reference to a member of `namespace`, once, in document order. -/
def find (source : Bytes) (language : Language) (namespaceName : String) (root : Node) :
    List Reference :=
  (distinct (candidates source language namespaceName root)).mergeSort fun a b =>
    a.node.start ≤ b.node.start

end Reference

end Unqualify
