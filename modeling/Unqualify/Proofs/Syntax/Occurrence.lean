import Mathlib.Data.List.Basic
import Mathlib.Data.List.Flatten
import Mathlib.Data.List.Pairwise
import Unqualify.Syntax.Node

/-!
# Nodes and their places

The list of occurrences of a tree is described here without its recursion. A node occurs at or below
another when it is that node, or occurs at or below one of its children (`mem_occurrencesBelow`),
and what lies below an occurrence of a tree is an occurrence of the tree (`occurrences_trans`).

A tree is well formed over a text when its ranges lie in the text and run forward, and when the
children of a node lie inside it, in order and without overlap. In such a tree a node covers all
that lies below it (`WellFormed.within`), and of two nodes one lies below the other or one ends
before the other starts (`WellFormed.nested_or_apart`).
-/

set_option autoImplicit false

namespace Unqualify

namespace Node

/-- Induction on a tree: what holds of a node when it holds of its children holds of every node. -/
@[elab_as_elim, induction_eliminator]
theorem inductionOn {motive : Node → Prop}
    (mk : ∀ (label : Label) (children : List Node), (∀ child ∈ children, motive child) →
      motive (.mk label children))
    (node : Node) : motive node := by
  match node with
  | .mk label children => exact mk label children fun child _ => inductionOn mk child

@[simp] theorem children_mk (label : Label) (children : List Node) :
    (Node.mk label children).children = children := rfl

/-! ## Occurrences -/

theorem occurrencesAmong_eq_flatMap (ancestors nodes : List Node) :
    occurrencesAmong ancestors nodes = nodes.flatMap (occurrencesBelow ancestors) := by
  induction nodes with
  | nil => rfl
  | cons node rest ih => rw [occurrencesAmong, ih, List.flatMap_cons]

theorem occurrencesBelow_eq (ancestors : List Node) (node : Node) :
    node.occurrencesBelow ancestors =
      ⟨node, ancestors⟩ :: node.children.flatMap (occurrencesBelow (node :: ancestors)) := by
  cases node with
  | mk label children => rw [occurrencesBelow, occurrencesAmong_eq_flatMap, children_mk]

/-- What occurs at or below a node is the node or occurs at or below a child. -/
theorem mem_occurrencesBelow {ancestors : List Node} {node : Node} {occurrence : Occurrence} :
    occurrence ∈ node.occurrencesBelow ancestors ↔
      occurrence = ⟨node, ancestors⟩ ∨
        ∃ child ∈ node.children, occurrence ∈ child.occurrencesBelow (node :: ancestors) := by
  rw [occurrencesBelow_eq, List.mem_cons, List.mem_flatMap]

/-- A node occurs below another one, and properly so. -/
def Inside (inner outer : Occurrence) : Prop :=
  ∃ child ∈ outer.node.children, inner ∈ child.occurrencesBelow (outer.node :: outer.ancestors)

theorem mem_occurrencesBelow_iff_inside {outer inner : Occurrence} :
    inner ∈ outer.node.occurrencesBelow outer.ancestors ↔ inner = outer ∨ Inside inner outer :=
  mem_occurrencesBelow

theorem self_mem_occurrencesBelow (ancestors : List Node) (node : Node) :
    ⟨node, ancestors⟩ ∈ node.occurrencesBelow ancestors :=
  mem_occurrencesBelow.mpr (.inl rfl)

theorem occurrencesBelow_trans {ancestors : List Node} {node : Node}
    {outer inner : Occurrence} (hOuter : outer ∈ node.occurrencesBelow ancestors)
    (hInner : inner ∈ outer.node.occurrencesBelow outer.ancestors) :
    inner ∈ node.occurrencesBelow ancestors := by
  induction node generalizing ancestors with
  | mk label children ih =>
      rcases mem_occurrencesBelow.mp hOuter with rfl | ⟨child, hChild, hBelow⟩
      · exact hInner
      · exact mem_occurrencesBelow.mpr (.inr ⟨child, hChild, ih child hChild hBelow⟩)

theorem occurrences_trans {root : Node} {outer inner : Occurrence}
    (hOuter : outer ∈ root.occurrences)
    (hInner : inner ∈ outer.node.occurrencesBelow outer.ancestors) : inner ∈ root.occurrences :=
  occurrencesBelow_trans hOuter hInner

theorem root_mem_occurrences (root : Node) : ⟨root, []⟩ ∈ root.occurrences :=
  self_mem_occurrencesBelow [] root

theorem child_mem_occurrences {root : Node} {occurrence : Occurrence} {child : Node}
    (hOccurrence : occurrence ∈ root.occurrences) (hChild : child ∈ occurrence.node.children) :
    ⟨child, occurrence.node :: occurrence.ancestors⟩ ∈ root.occurrences :=
  occurrences_trans hOccurrence
    (mem_occurrencesBelow.mpr (.inr ⟨child, hChild, self_mem_occurrencesBelow _ child⟩))

/-! ## Document order -/

/-- The nodes of a tree in document order. -/
def preorder (root : Node) : List Node :=
  root.occurrences.map (·.node)

theorem map_node_occurrencesBelow (ancestors : List Node) (node : Node) :
    (node.occurrencesBelow ancestors).map (·.node) = node.preorder := by
  induction node generalizing ancestors with
  | mk label children ih =>
      have below : ∀ above : List Node,
          (children.flatMap (occurrencesBelow above)).map (·.node) =
            children.flatMap preorder := by
        intro above
        rw [List.map_flatMap]
        exact List.flatMap_congr fun child hChild => ih child hChild above
      rw [preorder, occurrences, occurrencesBelow_eq, occurrencesBelow_eq]
      simp only [List.map_cons, children_mk, below]

theorem preorder_eq (node : Node) : node.preorder = node :: node.children.flatMap preorder := by
  rw [preorder, occurrences, occurrencesBelow_eq, List.map_cons, List.map_flatMap]
  simp only [map_node_occurrencesBelow]

/-- Lists taken from the children one after the other, each in document order, are together in
document order. -/
theorem flatMap_sublist_preorder {node : Node} {parts : List Node} {select : Node → List Node}
    (hParts : parts.Sublist node.children) (hSelect : ∀ part, (select part).Sublist part.preorder) :
    (parts.flatMap select).Sublist node.preorder := by
  have below : (parts.flatMap select).Sublist (node.children.flatMap preorder) :=
    (hParts.flatMap select).trans (.flatMap_right _ fun part _ => hSelect part)
  rw [preorder_eq]
  exact below.cons node

theorem preorder_sublist_of_mem {node child : Node} (hChild : child ∈ node.children) :
    child.preorder.Sublist node.preorder := by
  have single : ([child].flatMap preorder).Sublist node.preorder :=
    flatMap_sublist_preorder (List.singleton_sublist.mpr hChild) fun part => .refl part.preorder
  rwa [List.flatMap_singleton] at single

theorem children_sublist_preorder (node : Node) : node.children.Sublist node.preorder := by
  have self (part : Node) : [part].Sublist part.preorder := by
    rw [preorder_eq]
    exact (List.nil_sublist _).cons_cons part
  have all := flatMap_sublist_preorder (List.Sublist.refl node.children) self
  rwa [List.flatMap_singleton'] at all

/-! ## Well-formed trees -/

/-- A tree whose ranges fit together and lie in a text. -/
structure WellFormed (source : Bytes) (root : Node) : Prop where
  /-- The tree covers no more than the text. -/
  inSource : root.stop ≤ source.length
  /-- Ranges run forward. -/
  forward : ∀ occurrence ∈ root.occurrences, occurrence.node.start ≤ occurrence.node.stop
  /-- Children lie inside their parent. -/
  inParent : ∀ occurrence ∈ root.occurrences, ∀ child ∈ occurrence.node.children,
    occurrence.node.start ≤ child.start ∧ child.stop ≤ occurrence.node.stop
  /-- Children come in order and do not overlap. -/
  ordered : ∀ occurrence ∈ root.occurrences,
    occurrence.node.children.Pairwise fun before after => before.stop ≤ after.start

/-- A node covers what lies below it when every node there covers its children. -/
theorem within_of_inParent {ancestors : List Node} {node : Node}
    (inParent : ∀ outer ∈ node.occurrencesBelow ancestors, ∀ child ∈ outer.node.children,
      outer.node.start ≤ child.start ∧ child.stop ≤ outer.node.stop)
    {occurrence : Occurrence} (hOccurrence : occurrence ∈ node.occurrencesBelow ancestors) :
    node.start ≤ occurrence.node.start ∧ occurrence.node.stop ≤ node.stop := by
  induction node generalizing ancestors with
  | mk label children ih =>
      rcases mem_occurrencesBelow.mp hOccurrence with rfl | ⟨child, hChild, hBelow⟩
      · exact ⟨Nat.le_refl _, Nat.le_refl _⟩
      · have here := inParent _ (self_mem_occurrencesBelow _ _) child hChild
        have below := ih child hChild
          (fun outer hOuter =>
            inParent outer (mem_occurrencesBelow.mpr (.inr ⟨child, hChild, hOuter⟩)))
          hBelow
        exact ⟨Nat.le_trans here.1 below.1, Nat.le_trans below.2 here.2⟩

/-- **A node of a well-formed tree covers all that lies below it.** -/
theorem WellFormed.within {source : Bytes} {root : Node} (wellFormed : root.WellFormed source)
    {outer inner : Occurrence} (hOuter : outer ∈ root.occurrences)
    (hInner : inner ∈ outer.node.occurrencesBelow outer.ancestors) :
    outer.node.start ≤ inner.node.start ∧ inner.node.stop ≤ outer.node.stop :=
  within_of_inParent (fun _ between => wellFormed.inParent _ (occurrences_trans hOuter between))
    hInner

/-- Nodes of a well-formed tree lie in the text. -/
theorem WellFormed.inBounds {source : Bytes} {root : Node} (wellFormed : root.WellFormed source)
    {occurrence : Occurrence} (occurs : occurrence ∈ root.occurrences) :
    occurrence.node.start ≤ occurrence.node.stop ∧ occurrence.node.stop ≤ source.length := by
  have inRoot := (wellFormed.within (root_mem_occurrences root) occurs).2
  exact ⟨wellFormed.forward _ occurs, Nat.le_trans inRoot wellFormed.inSource⟩

/-- Two nodes of which one ends before the other starts. -/
def Apart (first second : Node) : Prop :=
  first.stop ≤ second.start ∨ second.stop ≤ first.start

instance : Std.Symm Apart := ⟨fun _ _ => Or.symm⟩

/-- Two children of a node lie apart. -/
theorem WellFormed.siblings_apart {source : Bytes} {root : Node}
    (wellFormed : root.WellFormed source) {occurrence : Occurrence}
    (occurs : occurrence ∈ root.occurrences) {first second : Node}
    (hFirst : first ∈ occurrence.node.children) (hSecond : second ∈ occurrence.node.children)
    (different : first ≠ second) : Apart first second := by
  have apart : occurrence.node.children.Pairwise Apart :=
    (wellFormed.ordered _ occurs).imp .inl
  exact apart.forall hFirst hSecond different

theorem WellFormed.nested_or_apart_below {source : Bytes} {root : Node}
    (wellFormed : root.WellFormed source) {node : Node} {ancestors : List Node}
    (occurs : ⟨node, ancestors⟩ ∈ root.occurrences) {first second : Occurrence}
    (hFirst : first ∈ node.occurrencesBelow ancestors)
    (hSecond : second ∈ node.occurrencesBelow ancestors) :
    first ∈ second.node.occurrencesBelow second.ancestors ∨
      second ∈ first.node.occurrencesBelow first.ancestors ∨ Apart first.node second.node := by
  induction node generalizing ancestors with
  | mk label children ih =>
      rcases mem_occurrencesBelow.mp hFirst with rfl | ⟨left, isLeft, inLeft⟩
      · exact .inr (.inl hSecond)
      rcases mem_occurrencesBelow.mp hSecond with rfl | ⟨right, isRight, inRight⟩
      · exact .inl hFirst
      have leftOccurs := child_mem_occurrences occurs isLeft
      have rightOccurs := child_mem_occurrences occurs isRight
      by_cases same : left = right
      · subst same
        exact ih left isLeft leftOccurs inLeft inRight
      · -- Different children lie apart, and with them all that lies below them.
        have coversFirst := wellFormed.within leftOccurs inLeft
        have coversSecond := wellFormed.within rightOccurs inRight
        have apart := wellFormed.siblings_apart occurs isLeft isRight same
        dsimp only at coversFirst coversSecond
        unfold Apart at *
        exact .inr (.inr (by omega))

/-- **Of two nodes of a well-formed tree one lies below the other, or they lie apart.** -/
theorem WellFormed.nested_or_apart {source : Bytes} {root : Node}
    (wellFormed : root.WellFormed source) {first second : Occurrence}
    (hFirst : first ∈ root.occurrences) (hSecond : second ∈ root.occurrences) :
    first ∈ second.node.occurrencesBelow second.ancestors ∨
      second ∈ first.node.occurrencesBelow first.ancestors ∨ Apart first.node second.node :=
  wellFormed.nested_or_apart_below (root_mem_occurrences root) hFirst hSecond

end Node

/-! ## Small trees

Nodes by hand, for the trees of single units. -/

namespace Sample

def token (text : String) (start stop : Nat) : Node :=
  .mk { kind := text, start, stop, named := false } []

def branch (kind : String) (start stop : Nat) (children : List Node) : Node :=
  .mk { kind, start, stop } children

def filling (field kind : String) (start stop : Nat) (children : List Node) : Node :=
  .mk { kind, field := some field, start, stop } children

end Sample

end Unqualify
