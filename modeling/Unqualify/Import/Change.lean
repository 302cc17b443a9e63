import Unqualify.CodeStyle
import Unqualify.Edit
import Unqualify.Import.Plan
import Unqualify.Import.Position

/-!
# The change of the imports of a unit

The statements that bind the namespace are deleted, each with the rest of its line when nothing but
spaces and tabs is left there, and the planned imports are inserted as one block. The block follows
the style of the unit: quotes are those of the first import of the module, or else of the first
import, or else of the unit as a whole; semicolons are those of the first import, or else of the
unit as a whole.
-/

set_option autoImplicit false

namespace Unqualify

namespace ImportChange

/-- The end of a deletion that takes the blanks and the line end after it, if nothing else is left
on the line. The octets `rest` start at offset `stop`. -/
def removalStop (stop : Nat) (rest : Bytes) : Nat :=
  let isBlank (octet : UInt8) : Bool := octet == 0x20 || octet == 0x09
  let reached := stop + (rest.takeWhile isBlank).length
  match rest.dropWhile isBlank with
  | [] => reached
  | 0x0D :: 0x0A :: _ => reached + 2
  | 0x0A :: _ => reached + 1
  | _ => stop

/-- The deletion of an import statement. -/
def removal (source : Bytes) (declaration : ImportDeclaration) : Edit :=
  ⟨declaration.start, removalStop declaration.stop (source.drop declaration.stop), ""⟩

/-- The quote of new imports. -/
def quoteMark (declarations : List ImportDeclaration) (options : Options) (style : CodeStyle) :
    String :=
  match options.quote with
  | some quote => quote.mark
  | none =>
      let ofModule := declarations.filter fun declaration => declaration.isOf options.moduleName
      let preferred := if ofModule.isEmpty then declarations else ofModule
      match preferred.head?.bind (·.literal) with
      | some literal => String.ofList (literal.toList.take 1)
      | none => style.quote.mark

/-- Whether new imports end in a semicolon. -/
def semicolon (declarations : List ImportDeclaration) (options : Options) (style : CodeStyle) :
    Bool :=
  match options.semicolons with
  | some semicolons => semicolons
  | none =>
      match declarations with
      | first :: _ => (Text.trimEnd first.text).toList.getLast? == some ';'
      | [] => style.semicolons

/-- The text of a block of imports, each on its own line. -/
def block (planned : List PlannedImport) (quote : String) (semicolon : Bool) (newline : String) :
    String :=
  String.join (planned.map fun statement => statement.render quote semicolon ++ newline)

/-- The insertion of a block of imports. At the end of a unit whose last line is open, the block
starts on a new line. -/
def insertion (source : Bytes) (root : Node) (declarations : List ImportDeclaration)
    (options : Options) (planned : List PlannedImport) : Edit :=
  let style := CodeStyle.detect (Utf8.decodeOrEmpty source)
  let position := ImportPosition.find source root
  let text :=
    block planned (quoteMark declarations options style) (semicolon declarations options style)
      style.newline
  let lastLineOpen := source.getLast?.any fun octet => octet != lineFeed
  ⟨position, position,
    if position == source.length && lastLineOpen then style.newline ++ text else text⟩

end ImportChange

/-- The edits that change the imports of a unit, the insertion first, and the number of statements
that are removed. -/
structure ImportChange where
  edits : List Edit
  removed : Nat
  deriving DecidableEq, Repr

/-- Plans the change of the imports of a unit for the members that it reaches. -/
def ImportChange.plan (source : Bytes) (root : Node) (members : MemberSet) (options : Options) :
    Except Clash ImportChange :=
  let declarations := ImportDeclaration.ofRoot source root
  let removed :=
    ImportDeclaration.binding declarations options.moduleName options.namespaceName
  (PlannedImport.plan members removed options.moduleName).map fun planned =>
    let removals := removed.map (removal source)
    { edits :=
        if planned.isEmpty then removals
        else insertion source root declarations options planned :: removals
      removed := removed.length }

end Unqualify
