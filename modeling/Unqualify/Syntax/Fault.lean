import Unqualify.Syntax.Node

/-!
# Faults in a syntax tree

A parser marks text that it cannot read as an error node, and text that it had to assume as a
missing node. `Node.firstFault?` looks for the first such node in document order. It goes below a
node only when the node is marked faulty, and answers with the node itself when the mark is there
and no fault is found below. The search goes as deep as the tree: that an interpreter may refuse to
recurse so far, at a limit that depends on who calls it, is left out.
-/

set_option autoImplicit false

namespace Unqualify

/-- Whether a node holds text that the parser could not read. -/
def Node.isError (node : Node) : Bool :=
  node.kind == "ERROR"

/-- Whether a node is itself a fault. -/
def Node.isFault (node : Node) : Bool :=
  node.isError || node.label.missing

mutual
/-- The first fault at or below a node. -/
def Node.firstFault? : Node → Option Node
  | .mk label children =>
      let node := Node.mk label children
      if node.isFault then some node
      else if label.faulty then some ((Node.firstFaultAmong? children).getD node)
      else none

/-- The first fault at or below siblings. -/
def Node.firstFaultAmong? : List Node → Option Node
  | [] => none
  | node :: rest =>
      match node.firstFault? with
      | some fault => some fault
      | none => Node.firstFaultAmong? rest
end

end Unqualify
