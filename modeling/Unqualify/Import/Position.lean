import Unqualify.Syntax.Place

/-!
# Where imports are inserted

New imports go in front of the first statement of a unit, below a hashbang line, directives such as
`"use client"` and header comments. Comments that touch the first statement belong to it, and the
imports go in front of them, unless the statement is itself an import. A comment that follows a
hashbang line or a directive on its row belongs to that line.
-/

set_option autoImplicit false

namespace Unqualify.ImportPosition

/-- Whether a node is a directive: a statement that is a string. -/
def isDirective (node : Node) : Bool :=
  node.kind == "expression_statement" &&
    match node.namedChildren with
    | [only] => only.kind == "string"
    | _ => false

/-- Whether a node stays above the imports whatever follows it. -/
def isPrologue (node : Node) : Bool :=
  node.kind == "hash_bang_line" || isDirective node

/-- Whether a comment starts on the row where a node that is no comment ends. -/
def isTrailing (source : Bytes) (previous : Option Node) (comment : Node) : Bool :=
  previous.any fun node =>
    node.kind != "comment" && comment.startRow source == node.stopRow source

/-- Whether a blank row lies between a node and the one before it. -/
def isDetached (source : Bytes) (previous : Option Node) (node : Node) : Bool :=
  previous.any fun before => before.stopRow source + 1 < node.startRow source

/-- The insertion point before the nodes that are left, where `block` is the first comment of the
run of comments that ends at `previous`. -/
def search (source : Bytes) (fallback : Nat) (block previous : Option Node) : List Node → Nat
  | [] => fallback
  | node :: rest =>
      if node.kind == "comment" then
        let block :=
          if isTrailing source previous node then none
          else if block.isNone || isDetached source previous node then some node
          else block
        search source fallback block (some node) rest
      else if isPrologue node then
        search source fallback none (some node) rest
      else
        match block with
        | some comment =>
            if node.kind != "import_statement" && !isDetached source previous node then
              comment.start
            else node.start
        | none => node.start

/-- The offset at which imports are inserted into a unit. -/
def find (source : Bytes) (root : Node) : Nat :=
  search source root.stop none none root.children

end Unqualify.ImportPosition
