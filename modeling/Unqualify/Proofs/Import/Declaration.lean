import Unqualify.Import.Plan
import Unqualify.Proofs.Syntax.Occurrence

/-!
# Where import statements and their specifiers stand

An import statement of a unit is either removed or kept. Both sorts are read from children of the
root, in their order (`exists_filter_ofRoot_eq_map`), and the specifiers carried from the removed
statements of one side are read from all nodes of specifiers in these statements, in document order
(`carried_eq_map`).
-/

set_option autoImplicit false

namespace Unqualify.ImportDeclaration

/-- The import statements of a unit that are removed: those of the module that bind the
namespace. -/
def removedIn (source : Bytes) (root : Node) (moduleName namespaceName : String) :
    List ImportDeclaration :=
  binding (ofRoot source root) moduleName namespaceName

/-- The import statements of a unit that stay. -/
def keptIn (source : Bytes) (root : Node) (moduleName namespaceName : String) :
    List ImportDeclaration :=
  (ofRoot source root).filter fun declaration =>
    !(declaration.isOf moduleName && declaration.binds namespaceName)

/-- Whether a child of the root is an import statement that is removed. -/
def isRemoved (source : Bytes) (moduleName namespaceName : String) (statement : Node) : Bool :=
  statement.named && statement.kind == "import_statement" &&
    ((ofNode source statement).isOf moduleName && (ofNode source statement).binds namespaceName)

theorem removedIn_eq_map (source : Bytes) (root : Node) (moduleName namespaceName : String) :
    removedIn source root moduleName namespaceName =
      (root.children.filter (isRemoved source moduleName namespaceName)).map (ofNode source) := by
  rw [removedIn, binding, ofRoot, List.filter_map, Node.namedChildren, List.filter_filter,
    List.filter_filter]
  congr 1
  apply List.filter_congr
  intro statement _
  rw [isRemoved, Bool.and_comm statement.named]
  exact (Bool.and_assoc _ _ _).trans (Bool.and_comm _ _)

/-- The children of the root that are no removed import statements. -/
def keptChildren (source : Bytes) (root : Node) (moduleName namespaceName : String) : List Node :=
  root.children.filter fun child => !isRemoved source moduleName namespaceName child

/-- The nodes of the specifiers of an import statement. -/
def specifierNodesOf (statement : Node) : List Node :=
  (clauseNodes statement).flatMap specifierNodes

theorem specifierNodes_sublist_preorder (part : Node) :
    (specifierNodes part).Sublist part.preorder := by
  unfold specifierNodes
  split
  · have named : part.namedChildren.Sublist part.children := List.filter_sublist
    exact (List.filter_sublist.trans named).trans part.children_sublist_preorder
  · exact List.nil_sublist _

theorem specifierNodesOf_sublist_preorder (statement : Node) :
    (specifierNodesOf statement).Sublist statement.preorder := by
  unfold specifierNodesOf clauseNodes
  split
  next clause found =>
    have inClause : (clause.namedChildren.flatMap specifierNodes).Sublist clause.preorder :=
      Node.flatMap_sublist_preorder List.filter_sublist specifierNodes_sublist_preorder
    have member : clause ∈ statement.children :=
      (List.mem_filter.mp (List.mem_of_find?_eq_some found)).1
    exact inClause.trans (Node.preorder_sublist_of_mem member)
  next => exact List.nil_sublist _

/-- The import statements of a unit with a property are read from children of its root. -/
theorem exists_filter_ofRoot_eq_map (source : Bytes) (root : Node)
    (select : ImportDeclaration → Bool) :
    ∃ statements : List Node, statements.Sublist root.children ∧
      (∀ statement ∈ statements, statement.kind = "import_statement") ∧
      (ofRoot source root).filter select = statements.map (ofNode source) := by
  refine ⟨(root.namedChildren.filter fun child => child.kind == "import_statement").filter
    (select ∘ ofNode source), ?_, ?_, ?_⟩
  · exact (List.filter_sublist.trans List.filter_sublist).trans List.filter_sublist
  · intro statement member
    have inner := (List.mem_filter.mp member).1
    exact beq_iff_eq.mp (List.mem_filter.mp inner).2
  · rw [ofRoot, List.filter_map]

/-- A removed statement is read from a child of the root. -/
theorem exists_statement_of_mem_removedIn {source : Bytes} {root : Node}
    {moduleName namespaceName : String} {declaration : ImportDeclaration}
    (member : declaration ∈ removedIn source root moduleName namespaceName) :
    ∃ statement ∈ root.children, statement.kind = "import_statement" ∧
      declaration = ofNode source statement := by
  obtain ⟨statements, sublist, kinds, same⟩ := exists_filter_ofRoot_eq_map source root
    fun declaration => declaration.isOf moduleName && declaration.binds namespaceName
  rw [removedIn, binding, same] at member
  obtain ⟨statement, among, rfl⟩ := List.mem_map.mp member
  exact ⟨statement, sublist.subset among, kinds statement among, rfl⟩

/-! ## Specifiers of removed statements -/

/-- The nodes of the specifiers in the removed statements of one side. -/
def carriedNodes (source : Bytes) (root : Node) (moduleName namespaceName : String)
    (typeOnly : Bool) : List Node :=
  (root.children.filter fun statement =>
    isRemoved source moduleName namespaceName statement &&
      (ofNode source statement).typeOnly == typeOnly).flatMap specifierNodesOf

section

variable {source : Bytes} {root node : Node} {moduleName namespaceName : String} {typeOnly : Bool}

theorem carriedNodes_sublist_preorder (source : Bytes) (root : Node)
    (moduleName namespaceName : String) (typeOnly : Bool) :
    (carriedNodes source root moduleName namespaceName typeOnly).Sublist root.preorder :=
  Node.flatMap_sublist_preorder List.filter_sublist specifierNodesOf_sublist_preorder

/-- **The specifiers carried on one side are read from the nodes in the removed statements.** -/
theorem carried_eq_map (source : Bytes) (root : Node) (moduleName namespaceName : String)
    (typeOnly : Bool) :
    PlannedImport.carried typeOnly (removedIn source root moduleName namespaceName) =
      (carriedNodes source root moduleName namespaceName typeOnly).map
        (Specifier.ofNode source) := by
  rw [PlannedImport.carried, removedIn_eq_map, List.filter_map, List.filter_filter,
    List.flatMap_map, carriedNodes, List.map_flatMap]
  simp only [Function.comp_apply, Bool.and_comm (isRemoved _ _ _ _)]
  rfl

end

end Unqualify.ImportDeclaration
