import Unqualify.Text.Blank

/-!
# Paths

A path is an anchor and its parts. Empty parts and `.` say nothing and are dropped, while `..` is
kept, because what it means depends on links. The anchor is empty for a relative path, `//` for a
path with exactly two leading slashes, and `/` for any other absolute path.

Paths are compared part by part, so the files of a directory stand together and before the
directories whose names extend its name (`Path.precedes`).
-/

set_option autoImplicit false

namespace Unqualify

/-- A path without parts that say nothing. -/
structure Path where
  anchor : String := ""
  parts : List String := []
  deriving DecidableEq, Repr

namespace Path

/-- The anchor of a text: what its leading slashes say. -/
def anchorOf (cs : List Char) : String :=
  match (cs.takeWhile (· == '/')).length with
  | 0 => ""
  | 2 => "//"
  | _ => "/"

/-- Reads a path. -/
def ofText (text : String) : Path where
  anchor := anchorOf text.toList
  parts := ((Text.splitOn '/' text.toList).map String.ofList).filter fun part =>
    part != "" && part != "."

/-- The path as text; a path that says nothing at all is `.`. -/
def text (path : Path) : String :=
  let joined := "/".intercalate path.parts
  if path.anchor == "" && path.parts.isEmpty then "." else path.anchor ++ joined

/-- The path of an entry below a directory. -/
def below (path : Path) (parts : List String) : Path :=
  { path with parts := path.parts ++ parts }

/-- The suffix of a name: what follows its last dot, dot included, when there is something before
the dot and something after it. -/
def suffixOf (name : String) : String :=
  let cs := name.toList
  let tail := (cs.reverse.takeWhile (· != '.')).reverse
  let stem := cs.length - tail.length - 1
  if tail.isEmpty || stem == 0 || tail.length == cs.length then "" else String.ofList ('.' :: tail)

/-- The suffix of the last part. -/
def suffix (path : Path) : String :=
  match path.parts.getLast? with
  | some name => suffixOf name
  | none => ""

/-- Whether a list of parts comes before another: part by part in code point order, and a list
before those that extend it. -/
def precedes : List String → List String → Bool
  | [], _ => true
  | _ :: _, [] => false
  | a :: as, b :: bs => if a == b then precedes as bs else a < b

end Path

end Unqualify
