import Unqualify.Syntax.Node

/-!
# Rows and columns

An offset lies on the row that is numbered by the line feeds before it, and its column counts the
octets after the last of them. Both count from zero.
-/

set_option autoImplicit false

namespace Unqualify

/-- The octet that ends a row. -/
def lineFeed : UInt8 := 0x0A

/-- A row and a column, both counted from zero. -/
structure Place where
  row : Nat
  column : Nat
  deriving DecidableEq, Repr

namespace Place

/-- The row of an offset. -/
def rowAt (source : Bytes) (offset : Nat) : Nat :=
  (source.take offset).count lineFeed

/-- The place of an offset. -/
def ofOffset (source : Bytes) (offset : Nat) : Place where
  row := rowAt source offset
  column := ((source.take offset).reverse.takeWhile fun octet => octet != lineFeed).length

end Place

/-- The row on which a node starts. -/
def Node.startRow (source : Bytes) (node : Node) : Nat :=
  Place.rowAt source node.start

/-- The row on which a node ends. -/
def Node.stopRow (source : Bytes) (node : Node) : Nat :=
  Place.rowAt source node.stop

end Unqualify
