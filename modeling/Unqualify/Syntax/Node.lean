import Unqualify.Text.Utf8

/-!
# Concrete syntax trees

A node has a kind, the octet range it covers in the parsed text, the field it fills in its parent,
three marks and its children in document order. Tokens and comments are nodes as well: a token is
unnamed and its kind is its text.

A question about a node often depends on where it stands, so `Node.occurrences` lists every node of
a tree together with its ancestors, nearest first. The list is in document order: a node comes
before its children, and a child with all below it before the next child.
-/

set_option autoImplicit false

namespace Unqualify

/-- What a node says of itself, its children apart. -/
structure Label where
  /-- The grammar's name for the node, or the text of a token. -/
  kind : String
  /-- The field of the parent that the node fills. -/
  field : Option String := none
  /-- The offset of its first octet. -/
  start : Nat
  /-- The offset after its last octet. -/
  stop : Nat
  /-- Whether the node is more than a token. -/
  named : Bool := true
  /-- Whether the parser put the node in for text that is not there. -/
  missing : Bool := false
  /-- Whether the node has a fault at or below it. -/
  faulty : Bool := false
  deriving DecidableEq, Repr

/-- A syntax tree. -/
inductive Node where
  | mk (label : Label) (children : List Node)
  deriving Repr

namespace Node

/-- What the node says of itself. -/
def label : Node → Label
  | .mk label _ => label

/-- The children in document order. -/
def children : Node → List Node
  | .mk _ children => children

/-- The grammar's name for the node, or the text of a token. -/
def kind (node : Node) : String := node.label.kind

/-- The field of the parent that the node fills. -/
def field (node : Node) : Option String := node.label.field

/-- The offset of the node's first octet. -/
def start (node : Node) : Nat := node.label.start

/-- The offset after the node's last octet. -/
def stop (node : Node) : Nat := node.label.stop

/-- Whether the node is more than a token. -/
def named (node : Node) : Bool := node.label.named

/-- The children that are more than tokens. -/
def namedChildren (node : Node) : List Node :=
  node.children.filter named

/-- The first child that fills a field. -/
def child? (node : Node) (field : String) : Option Node :=
  node.children.find? fun child => child.field == some field

/-- The octets that the node covers. -/
def bytes (source : Bytes) (node : Node) : Bytes :=
  source.slice node.start node.stop

/-- The text that the node covers. A node whose ends do not lie between characters has none. -/
def text (source : Bytes) (node : Node) : String :=
  Utf8.decodeOrEmpty (node.bytes source)

/-- The first child that satisfies `head` together with the first later one that satisfies
`tail`. -/
def pair? (head tail : Node → Bool) (node : Node) : Option (Node × Node) :=
  match node.children.dropWhile fun child => !head child with
  | [] => none
  | first :: rest => (rest.find? tail).map fun second => (first, second)

end Node

/-! ## Nodes in their places -/

/-- A node of a tree with its ancestors, nearest first. -/
structure Occurrence where
  node : Node
  ancestors : List Node

namespace Occurrence

/-- The parent of the node. -/
def parent? (occurrence : Occurrence) : Option Node :=
  occurrence.ancestors.head?

/-- Whether the node has a parent of a kind among `kinds`. -/
def parentIn (occurrence : Occurrence) (kinds : List String) : Bool :=
  occurrence.parent?.any fun parent => kinds.contains parent.kind

end Occurrence

mutual
/-- The nodes at and below a node that has the given ancestors. -/
def Node.occurrencesBelow (ancestors : List Node) : Node → List Occurrence
  | .mk label children =>
      ⟨.mk label children, ancestors⟩ ::
        Node.occurrencesAmong (.mk label children :: ancestors) children

/-- The nodes at and below siblings that have the given ancestors. -/
def Node.occurrencesAmong (ancestors : List Node) : List Node → List Occurrence
  | [] => []
  | node :: rest => node.occurrencesBelow ancestors ++ Node.occurrencesAmong ancestors rest
end

/-- Every node of a tree in its place, in document order. -/
def Node.occurrences (root : Node) : List Occurrence :=
  root.occurrencesBelow []

end Unqualify
