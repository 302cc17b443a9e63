import Unqualify.Syntax.Node
import Unqualify.Text.Blank

/-!
# Import declarations

What an import statement of a unit says: the module it names, the names it binds outside of braces,
and the specifiers inside of them. A declaration is read from its node once, and planning works on
declarations alone.
-/

set_option autoImplicit false

namespace Unqualify

/-- A name in the braces of an import. -/
structure Specifier where
  /-- How it is written. -/
  text : String
  /-- The name it has in the module. -/
  imported : String
  /-- The name it binds in the unit. -/
  bound : String
  /-- Whether it has a `type` or `typeof` of its own. -/
  typeModifier : Bool := false
  deriving DecidableEq, Repr

namespace Specifier

/-- A name imported as it is. -/
def plain (name : String) : Specifier where
  text := name
  imported := name
  bound := name

/-- Reads a specifier. An alias binds instead of the name. -/
def ofNode (source : Bytes) (node : Node) : Specifier where
  text := node.text source
  imported := ((node.child? "name").getD node).text source
  bound := (((node.child? "alias").or (node.child? "name")).getD node).text source
  typeModifier := node.children.any fun child => child.kind == "type" || child.kind == "typeof"

end Specifier

/-- An import statement of a unit. -/
structure ImportDeclaration where
  start : Nat
  stop : Nat
  /-- How it is written. -/
  text : String
  /-- The module name with its quotes, if there is one. -/
  literal : Option String
  /-- Whether the statement imports types only. -/
  typeOnly : Bool
  /-- The names bound by a default import or by `* as`. -/
  heads : List String
  /-- The names in braces. -/
  specifiers : List Specifier
  deriving DecidableEq, Repr

namespace ImportDeclaration

/-- The node of the module name. -/
def literalNode? (node : Node) : Option Node :=
  (node.child? "source").or (node.namedChildren.find? fun child => child.kind == "string")

/-- The nodes of the clause between the keywords. -/
def clauseNodes (node : Node) : List Node :=
  match node.namedChildren.find? fun child => child.kind == "import_clause" with
  | some clause => clause.namedChildren
  | none => []

/-- The identifiers that a part of the clause binds outside of braces. -/
def headNodes (part : Node) : List Node :=
  if part.kind == "identifier" then [part]
  else if part.kind == "namespace_import" then
    part.namedChildren.filter fun child => child.kind == "identifier"
  else []

/-- The specifiers of a part of the clause. -/
def specifierNodes (part : Node) : List Node :=
  if part.kind == "named_imports" then
    part.namedChildren.filter fun child => child.kind == "import_specifier"
  else []

/-- Reads an import statement. -/
def ofNode (source : Bytes) (node : Node) : ImportDeclaration where
  start := node.start
  stop := node.stop
  text := node.text source
  literal := (literalNode? node).map (Node.text source)
  typeOnly := node.children.any fun child => child.kind == "type"
  heads := ((clauseNodes node).flatMap headNodes).map (Node.text source)
  specifiers := ((clauseNodes node).flatMap specifierNodes).map (Specifier.ofNode source)

/-- The import statements at the top level of a unit. -/
def ofRoot (source : Bytes) (root : Node) : List ImportDeclaration :=
  (root.namedChildren.filter fun child => child.kind == "import_statement").map (ofNode source)

/-- The module name, without quotes at either end. -/
def moduleName? (declaration : ImportDeclaration) : Option String :=
  declaration.literal.map fun literal =>
    String.ofList (Text.dropEndsWhile (fun c => c == '\'' || c == '"') literal.toList)

/-- Whether the statement imports from a module. -/
def isOf (declaration : ImportDeclaration) (moduleName : String) : Bool :=
  declaration.moduleName? == some moduleName

/-- Whether the statement binds a name outside of braces. -/
def binds (declaration : ImportDeclaration) (name : String) : Bool :=
  declaration.heads.contains name

/-- The names that the statement binds. -/
def boundNames (declaration : ImportDeclaration) : List String :=
  declaration.heads ++ declaration.specifiers.map (·.bound)

/-- The statements of a module that bind the namespace; these are to be removed. -/
def binding (declarations : List ImportDeclaration) (moduleName namespaceName : String) :
    List ImportDeclaration :=
  declarations.filter fun declaration =>
    declaration.isOf moduleName && declaration.binds namespaceName

end ImportDeclaration

end Unqualify
