import Mathlib.Data.List.TakeWhile
import Unqualify.Import.Position
import Unqualify.Proofs.Syntax.Occurrence

/-!
# What lies before the imports

The children of a unit divide into its header, the comments, hashbang lines and directives that it
begins with, and the statements, which begin with the first child of another kind. New imports come
in front of every statement (`find_le_start`), so only a part of the header can come before them.
-/

set_option autoImplicit false

namespace Unqualify.ImportPosition

/-! ## Header and statements -/

/-- Whether a node can come before the imports. -/
def isHeader (node : Node) : Bool :=
  node.kind == "comment" || isPrologue node

/-- The children that a unit begins with and that can come before the imports. -/
def header (root : Node) : List Node :=
  root.children.takeWhile isHeader

/-- The children from the first statement on. -/
def statements (root : Node) : List Node :=
  root.children.dropWhile isHeader

theorem mem_children_iff {root child : Node} :
    child ∈ root.children ↔ child ∈ header root ∨ child ∈ statements root := by
  rw [header, statements, ← List.mem_append, List.takeWhile_append_dropWhile]

/-- What a node of the header is. -/
theorem isHeader_cases {node : Node} (isPart : isHeader node = true) :
    node.kind = "comment" ∨ node.kind = "hash_bang_line" ∨
      node.kind = "expression_statement" ∧
        ∀ child ∈ node.children, child.named = false ∨ child.kind = "string" := by
  rw [isHeader, isPrologue, isDirective, Bool.or_eq_true, Bool.or_eq_true, Bool.and_eq_true,
    beq_iff_eq, beq_iff_eq, beq_iff_eq] at isPart
  rcases isPart with comment | hashbang | ⟨statement, string⟩
  · exact .inl comment
  · exact .inr (.inl hashbang)
  · refine .inr (.inr ⟨statement, ?_⟩)
    intro child member
    cases named : child.named with
    | false => exact .inl rfl
    | true =>
        have among : child ∈ node.namedChildren := List.mem_filter.mpr ⟨member, named⟩
        split at string
        next only alone =>
          rw [alone, List.mem_singleton] at among
          exact .inr (among ▸ beq_iff_eq.mp string)
        next => exact absurd string Bool.false_ne_true

/-! ## The search -/

/-- The run of comments that a comment continues or begins. -/
def extendBlock (source : Bytes) (block previous : Option Node) (comment : Node) : Option Node :=
  if isTrailing source previous comment then none
  else if block.isNone || isDetached source previous comment then some comment
  else block

theorem search_comment {node : Node} (comment : node.kind = "comment") (source : Bytes)
    (fallback : Nat) (block previous : Option Node) (rest : List Node) :
    search source fallback block previous (node :: rest) =
      search source fallback (extendBlock source block previous node) (some node) rest := by
  rw [search.eq_def]
  dsimp only
  rw [if_pos (beq_iff_eq.mpr comment)]
  rfl

theorem search_prologue {node : Node} (other : node.kind ≠ "comment")
    (prologue : isPrologue node = true) (source : Bytes) (fallback : Nat)
    (block previous : Option Node) (rest : List Node) :
    search source fallback block previous (node :: rest) =
      search source fallback none (some node) rest := by
  rw [search.eq_def]
  dsimp only
  rw [if_neg (by simpa using other), if_pos prologue]

/-- At the first statement the search ends, with the statement or with the comments that touch
it. -/
theorem search_statement {node : Node} (statement : isHeader node = false) (source : Bytes)
    (fallback : Nat) (block previous : Option Node) (rest : List Node) :
    search source fallback block previous (node :: rest) =
      match block with
      | some comment =>
          if node.kind != "import_statement" && !isDetached source previous node then comment.start
          else node.start
      | none => node.start := by
  rw [isHeader, Bool.or_eq_false_iff, beq_eq_false_iff_ne] at statement
  rw [search.eq_def]
  dsimp only
  rw [if_neg (by simpa using statement.1)]
  exact if_neg (by simp [statement.2])

theorem mem_extendBlock {source : Bytes} {block previous : Option Node} {comment first : Node}
    (begins : first ∈ extendBlock source block previous comment) :
    first = comment ∨ first ∈ block := by
  rw [extendBlock] at begins
  split at begins
  · exact nomatch begins
  split at begins
  · exact .inl (Option.mem_some_iff.mp begins).symm
  · exact .inr begins

/-- The search ends at the fallback or at the start of a node that it has seen. -/
theorem search_eq (source : Bytes) (fallback : Nat) (block previous : Option Node)
    (nodes : List Node) :
    search source fallback block previous nodes = fallback ∨
      ∃ node, (node ∈ block ∨ node ∈ nodes) ∧
        search source fallback block previous nodes = node.start := by
  induction nodes generalizing block previous with
  | nil => exact .inl rfl
  | cons node rest ih =>
      by_cases comment : node.kind = "comment"
      · rw [search_comment comment]
        rcases ih (extendBlock source block previous node) (some node) with
          ended | ⟨found, seen | seen, ended⟩
        · exact .inl ended
        · rcases mem_extendBlock seen with rfl | earlier
          · exact .inr ⟨found, .inr List.mem_cons_self, ended⟩
          · exact .inr ⟨found, .inl earlier, ended⟩
        · exact .inr ⟨found, .inr (List.mem_cons_of_mem _ seen), ended⟩
      by_cases prologue : isPrologue node = true
      · rw [search_prologue comment prologue]
        rcases ih none (some node) with ended | ⟨found, seen | seen, ended⟩
        · exact .inl ended
        · exact nomatch seen
        · exact .inr ⟨found, .inr (List.mem_cons_of_mem _ seen), ended⟩
      · rw [search_statement (by simp [isHeader, comment, prologue])]
        split
        next first =>
          split
          · exact .inr ⟨first, .inl rfl, rfl⟩
          · exact .inr ⟨node, .inr List.mem_cons_self, rfl⟩
        next => exact .inr ⟨node, .inr List.mem_cons_self, rfl⟩

/-- The search ends no later than at the first statement. The run of comments that it remembers
begins before the nodes that are left. -/
theorem search_le_start {source : Bytes} {fallback : Nat} {block previous : Option Node}
    {nodes : List Node} (sorted : nodes.Pairwise fun a b => a.start ≤ b.start)
    (ahead : ∀ comment ∈ block, ∀ node ∈ nodes, comment.start ≤ node.start) {node : Node}
    (behind : node ∈ nodes.dropWhile isHeader) :
    search source fallback block previous nodes ≤ node.start := by
  induction nodes generalizing block previous with
  | nil => exact nomatch behind
  | cons next rest ih =>
      obtain ⟨first, sorted⟩ := List.pairwise_cons.mp sorted
      by_cases comment : next.kind = "comment"
      · -- A new run begins here, and an old one began before: both lie before what is left.
        rw [List.dropWhile_cons_of_pos (by simp [isHeader, comment])] at behind
        rw [search_comment comment]
        refine ih sorted ?_ behind
        intro begins seen other member
        rcases mem_extendBlock seen with rfl | earlier
        · exact first other member
        · exact ahead begins earlier other (List.mem_cons_of_mem _ member)
      by_cases prologue : isPrologue next = true
      · rw [List.dropWhile_cons_of_pos (by simp [isHeader, prologue])] at behind
        rw [search_prologue comment prologue]
        exact ih sorted (fun _ seen => nomatch seen) behind
      · have statement : isHeader next = false := by simp [isHeader, comment, prologue]
        rw [List.dropWhile_cons_of_neg (by simp [statement])] at behind
        have here : next.start ≤ node.start := by
          rcases List.mem_cons.mp behind with rfl | later
          · exact Nat.le_refl _
          · exact first node later
        rw [search_statement statement]
        split
        next begins =>
          split
          · exact ahead begins rfl node (by simpa using behind)
          · exact here
        next => exact here

/-! ## The insertion point -/

section Position

variable {source : Bytes} {root : Node} (wellFormed : root.WellFormed source)

include wellFormed

/-- The children of a well-formed tree start one after the other. -/
theorem pairwise_start_children : root.children.Pairwise fun a b => a.start ≤ b.start := by
  have here := Node.root_mem_occurrences root
  apply (wellFormed.ordered _ here).imp_of_mem
  intro a b hA _ apart
  exact Nat.le_trans (wellFormed.forward _ (Node.child_mem_occurrences here hA)) apart

/-- **New imports come in front of every statement.** -/
theorem find_le_start {statement : Node} (member : statement ∈ statements root) :
    find source root ≤ statement.start := by
  refine search_le_start (pairwise_start_children wellFormed) ?_ member
  exact fun _ seen => nomatch seen

/-- New imports are inserted in the text. -/
theorem find_le_length : find source root ≤ source.length := by
  refine Nat.le_trans ?_ wellFormed.inSource
  rcases search_eq source root.stop none none root.children with ended | ⟨node, seen, ended⟩
  · exact Nat.le_of_eq ended
  · have member : node ∈ root.children := by
      rcases seen with none | member
      · exact nomatch none
      · exact member
    have here := Node.root_mem_occurrences root
    have forward := wellFormed.forward _ (Node.child_mem_occurrences here member)
    have inside := (wellFormed.inParent _ here node member).2
    rw [find, ended]
    exact Nat.le_trans forward inside

/-- New imports are not inserted inside a top-level node. -/
theorem find_le_start_or_stop_le_find {child : Node} (isChild : child ∈ root.children) :
    find source root ≤ child.start ∨ child.stop ≤ find source root := by
  have here := Node.root_mem_occurrences root
  rcases search_eq source root.stop none none root.children with ended | ⟨node, seen, ended⟩
  · rw [find, ended]
    exact .inr (wellFormed.inParent _ here child isChild).2
  · rw [find, ended]
    have isNode : node ∈ root.children := seen.resolve_left (Option.some_ne_none node).symm
    by_cases same : node = child
    · exact .inl (Nat.le_of_eq (congrArg Node.start same))
    · have forward := wellFormed.forward _ (Node.child_mem_occurrences here isNode)
      rcases wellFormed.siblings_apart here isNode isChild same with before | after
      · exact .inl (Nat.le_trans forward before)
      · exact .inr after

end Position

end Unqualify.ImportPosition
