import Unqualify.Syntax.Node

/-!
# Outlines of syntax trees

An outline lists the nodes of a tree in document order, each with its depth. It is the flat form in
which trees are handed over by a parser. Reading goes through the rows from the last to the first:
the trees collected so far that lie deeper than a row are below it, so they become its children.
-/

set_option autoImplicit false

namespace Unqualify

/-- One node of an outline. -/
structure OutlineRow where
  depth : Nat
  label : Label
  deriving DecidableEq, Repr

/-- A row from its parts. An empty field stands for none, and the marks are the sum of one for a
named node, two for a missing one and four for a faulty one. -/
def OutlineRow.ofMarks (depth : Nat) (kind field : String) (start stop marks : Nat) :
    OutlineRow where
  depth := depth
  label :=
    { kind, start, stop
      field := if field == "" then none else some field
      named := marks % 2 == 1
      missing := marks / 2 % 2 == 1
      faulty := marks / 4 % 2 == 1 }

namespace Outline

/-- Puts a row in front of the trees of the rows after it, each of which has its depth. -/
def attach (row : OutlineRow) (later : List (Nat × Node)) : List (Nat × Node) :=
  let below := later.takeWhile fun tree => row.depth < tree.1
  let beside := later.dropWhile fun tree => row.depth < tree.1
  (row.depth, .mk row.label (below.map (·.2))) :: beside

/-- The trees that rows describe, each with its depth. -/
def forest (rows : List OutlineRow) : List (Nat × Node) :=
  rows.foldr attach []

/-- The tree that rows describe, if they describe one. -/
def tree? (rows : List OutlineRow) : Option Node :=
  match forest rows with
  | [(_, root)] => some root
  | _ => none

end Outline

mutual
/-- The rows of a tree whose root has the given depth. -/
def Node.outlineAt (depth : Nat) : Node → List OutlineRow
  | .mk label children => ⟨depth, label⟩ :: Node.outlinesAt (depth + 1) children

/-- The rows of trees whose roots have the given depth. -/
def Node.outlinesAt (depth : Nat) : List Node → List OutlineRow
  | [] => []
  | node :: rest => node.outlineAt depth ++ Node.outlinesAt depth rest
end

/-- The outline of a tree. -/
def Node.outline (root : Node) : List OutlineRow :=
  root.outlineAt 0

end Unqualify
