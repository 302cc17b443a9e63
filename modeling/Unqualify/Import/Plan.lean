import Unqualify.Import.Declaration
import Unqualify.MemberSet

/-!
# Planned imports

At most one import of types and one import of values take the place of the removed statements. Each
begins with the specifiers of the removed statements of its side, as they are written, and goes on
with the members that none of these binds.

A carried alias that binds the name of a member to something else is a clash, and there is no plan.
-/

set_option autoImplicit false

namespace Unqualify

/-- An import statement to be written. -/
structure PlannedImport where
  specifiers : List Specifier
  moduleName : String
  typeOnly : Bool := false
  deriving DecidableEq, Repr

namespace PlannedImport

/-- How the specifiers are written. -/
def names (planned : PlannedImport) : List String :=
  planned.specifiers.map (·.text)

/-- The statement as text. -/
def render (planned : PlannedImport) (quote : String := "'") (semicolon : Bool := true) : String :=
  (if planned.typeOnly then "import type" else "import") ++ " \x7b " ++
    ", ".intercalate planned.names ++ " \x7d from " ++ quote ++ planned.moduleName ++ quote ++
    (if semicolon then ";" else "")

/-- The specifiers of removed statements of one side, in order. -/
def carried (typeOnly : Bool) (removed : List ImportDeclaration) : List Specifier :=
  (removed.filter fun declaration => declaration.typeOnly == typeOnly).flatMap (·.specifiers)

/-- The carried specifiers, followed by the members that none of them binds. -/
def complete (carried : List Specifier) (members : List String) : List Specifier :=
  carried ++
    (members.filter fun name => !carried.any fun specifier => specifier.bound == name).map
      Specifier.plain

end PlannedImport

/-- A carried alias binds the name of a member to another export. -/
structure Clash where
  bound : String
  imported : String
  moduleName : String
  deriving DecidableEq, Repr

/-- The wording of a clash. -/
def Clash.message (clash : Clash) : String :=
  "'" ++ clash.bound ++ "' is bound to '" ++ clash.imported ++
    "' by the removed import and cannot also name the '" ++ clash.bound ++ "' member of '" ++
    clash.moduleName ++ "'"

namespace PlannedImport

/-- Whether a specifier is an alias that takes the name of a member. -/
def clashes (members : MemberSet) (specifier : Specifier) : Bool :=
  specifier.bound != specifier.imported &&
    (members.hasValue specifier.bound || members.hasType specifier.bound)

/-- The imports that take the place of the removed statements, types first. -/
def plan (members : MemberSet) (removed : List ImportDeclaration) (moduleName : String) :
    Except Clash (List PlannedImport) :=
  let carriedValues := carried false removed
  let carriedTypes := carried true removed
  match (carriedValues ++ carriedTypes).find? (clashes members) with
  | some specifier => .error ⟨specifier.bound, specifier.imported, moduleName⟩
  | none =>
      let values := complete carriedValues members.values
      let types := complete carriedTypes members.types
      .ok ([⟨types, moduleName, true⟩, ⟨values, moduleName, false⟩].filter fun planned =>
        !planned.specifiers.isEmpty)

end PlannedImport

end Unqualify
