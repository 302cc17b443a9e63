/-!
# Options of one transform

The namespace whose members are to be imported by name, the module they come from, and how the
imports are written. A style that is not given is detected from the unit.
-/

set_option autoImplicit false

namespace Unqualify

/-- The quotes around the module name of an import. -/
inductive Quote where
  | single
  | double
  deriving DecidableEq, Repr

namespace Quote

/-- The quote itself. -/
def mark : Quote → String
  | .single => "'"
  | .double => "\""

/-- The name a quote style goes by. -/
def name : Quote → String
  | .single => "single"
  | .double => "double"

/-- Every quote style, in the order in which choices are listed. -/
def all : List Quote := [.single, .double]

/-- The quote style of a name. -/
def ofName? (name : String) : Option Quote :=
  all.find? fun quote => quote.name == name

end Quote

/-- What one transform is asked to do. -/
structure Options where
  /-- The identifier that qualifies references. -/
  namespaceName : String := "React"
  /-- The module that the members are imported from. -/
  moduleName : String := "react"
  /-- The quotes of new imports, detected when not given. -/
  quote : Option Quote := none
  /-- Whether new imports end in a semicolon, detected when not given. -/
  semicolons : Option Bool := none
  deriving DecidableEq, Repr

end Unqualify
