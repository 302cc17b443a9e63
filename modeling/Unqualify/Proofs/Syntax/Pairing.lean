import Mathlib.Data.List.Forall2
import Unqualify.Proofs.Syntax.Occurrence

/-!
# Two trees side by side

Two trees are walked together, and the nodes met at the same place are paired. A child has a
counterpart when the other node has a child at the same position. When no node of the second tree
has more children than its counterpart, every node of the second tree has one
(`exists_pair_of_mem_occurrencesBelow`), and when nodes that have children keep their kinds, places
are reached through the same kinds of nodes (`map_kind_ancestors`).

A copy of a tree agrees with it in everything but the ranges of its nodes, and covers the same
texts. What is looked up among children is looked up alike among the children of a copy
(`rel_find?`, `rel_pair?`).
-/

set_option autoImplicit false

namespace Unqualify

namespace Node

/-! ## Pairs -/

mutual
/-- The nodes at and below two nodes that have the given ancestors, paired by their places. -/
def pairsBelow (above aboveOther : List Node) : Node → Node → List (Occurrence × Occurrence)
  | .mk label children, other =>
      (⟨.mk label children, above⟩, ⟨other, aboveOther⟩) ::
        pairsAmong (.mk label children :: above) (other :: aboveOther) children other.children

/-- The nodes at and below siblings and their counterparts, paired by their places. -/
def pairsAmong (above aboveOther : List Node) :
    List Node → List Node → List (Occurrence × Occurrence)
  | [], _ => []
  | _ :: _, [] => []
  | node :: rest, other :: others =>
      node.pairsBelow above aboveOther other ++ pairsAmong above aboveOther rest others
end

theorem pairsAmong_eq_flatMap (above aboveOther nodes others : List Node) :
    pairsAmong above aboveOther nodes others =
      (nodes.zip others).flatMap fun pair => pair.1.pairsBelow above aboveOther pair.2 := by
  induction nodes generalizing others with
  | nil => rw [pairsAmong, List.zip_nil_left, List.flatMap_nil]
  | cons node rest ih =>
      cases others with
      | nil => rw [pairsAmong, List.zip_nil_right, List.flatMap_nil]
      | cons other others => rw [pairsAmong, ih, List.zip_cons_cons, List.flatMap_cons]

theorem mem_pairsAmong {above aboveOther nodes others : List Node}
    {pair : Occurrence × Occurrence} :
    pair ∈ pairsAmong above aboveOther nodes others ↔
      ∃ siblings ∈ nodes.zip others, pair ∈ siblings.1.pairsBelow above aboveOther siblings.2 := by
  rw [pairsAmong_eq_flatMap, List.mem_flatMap]

/-- A pair at or below two nodes consists of these nodes, or lies at or below two of their
children. -/
theorem mem_pairsBelow {above aboveOther : List Node} {node other : Node}
    {pair : Occurrence × Occurrence} :
    pair ∈ node.pairsBelow above aboveOther other ↔
      pair = (⟨node, above⟩, ⟨other, aboveOther⟩) ∨
        ∃ siblings ∈ node.children.zip other.children,
          pair ∈ siblings.1.pairsBelow (node :: above) (other :: aboveOther) siblings.2 := by
  cases node with
  | mk label children => rw [pairsBelow, List.mem_cons, mem_pairsAmong, children_mk]

theorem self_mem_pairsBelow (above aboveOther : List Node) (node other : Node) :
    (⟨node, above⟩, ⟨other, aboveOther⟩) ∈ node.pairsBelow above aboveOther other :=
  mem_pairsBelow.mpr (.inl rfl)

theorem pairsBelow_trans {above aboveOther : List Node} {node other : Node}
    {outer inner : Occurrence × Occurrence}
    (hOuter : outer ∈ node.pairsBelow above aboveOther other)
    (hInner : inner ∈ outer.1.node.pairsBelow outer.1.ancestors outer.2.ancestors outer.2.node) :
    inner ∈ node.pairsBelow above aboveOther other := by
  induction node generalizing above aboveOther other with
  | mk label children ih =>
      rcases mem_pairsBelow.mp hOuter with rfl | ⟨siblings, paired, below⟩
      · exact hInner
      · have isChild : siblings.1 ∈ children := (List.of_mem_zip paired).1
        exact mem_pairsBelow.mpr (.inr ⟨siblings, paired, ih siblings.1 isChild below⟩)

/-- Children at the same position of paired nodes are paired. -/
theorem children_mem_pairsBelow {above aboveOther : List Node} {node other : Node}
    {pair : Occurrence × Occurrence} (isPair : pair ∈ node.pairsBelow above aboveOther other)
    {siblings : Node × Node} (paired : siblings ∈ pair.1.node.children.zip pair.2.node.children) :
    (⟨siblings.1, pair.1.node :: pair.1.ancestors⟩, ⟨siblings.2, pair.2.node :: pair.2.ancestors⟩) ∈
      node.pairsBelow above aboveOther other :=
  pairsBelow_trans isPair
    (mem_pairsBelow.mpr (.inr ⟨siblings, paired, self_mem_pairsBelow _ _ siblings.1 siblings.2⟩))

theorem fst_mem_occurrencesBelow {above aboveOther : List Node} {node other : Node}
    {pair : Occurrence × Occurrence} (isPair : pair ∈ node.pairsBelow above aboveOther other) :
    pair.1 ∈ node.occurrencesBelow above := by
  induction node generalizing above aboveOther other with
  | mk label children ih =>
      rcases mem_pairsBelow.mp isPair with rfl | ⟨siblings, paired, below⟩
      · exact self_mem_occurrencesBelow above _
      · have isChild : siblings.1 ∈ children := (List.of_mem_zip paired).1
        exact mem_occurrencesBelow.mpr (.inr ⟨siblings.1, isChild, ih siblings.1 isChild below⟩)

theorem exists_mem_zip_of_mem_right {nodes others : List Node}
    (fewer : others.length ≤ nodes.length)
    {other : Node} (member : other ∈ others) : ∃ node, (node, other) ∈ nodes.zip others := by
  rw [← List.map_snd_zip fewer] at member
  obtain ⟨⟨node, _⟩, paired, rfl⟩ := List.mem_map.mp member
  exact ⟨node, paired⟩

/-- **Every node of the second tree has a counterpart when none has more children than its
counterpart.** -/
theorem exists_pair_of_mem_occurrencesBelow {above aboveOther : List Node} {node other : Node}
    (fewer : ∀ pair ∈ node.pairsBelow above aboveOther other,
      pair.2.node.children.length ≤ pair.1.node.children.length)
    {place : Occurrence} (occurs : place ∈ other.occurrencesBelow aboveOther) :
    ∃ origin, (origin, place) ∈ node.pairsBelow above aboveOther other := by
  induction node generalizing above aboveOther other with
  | mk label children ih =>
      rcases mem_occurrencesBelow.mp occurs with rfl | ⟨child, isChild, below⟩
      · exact ⟨_, self_mem_pairsBelow above aboveOther _ other⟩
      · obtain ⟨origin, paired⟩ := exists_mem_zip_of_mem_right
          (fewer _ (self_mem_pairsBelow above aboveOther _ other)) isChild
        obtain ⟨found, isPair⟩ := ih origin (List.of_mem_zip paired).1
          (fun pair isPair => fewer pair (mem_pairsBelow.mpr (.inr ⟨_, paired, isPair⟩))) below
        exact ⟨found, mem_pairsBelow.mpr (.inr ⟨_, paired, isPair⟩)⟩

/-- **Counterparts are reached through nodes of the same kinds when nodes that have children keep
their kinds.** -/
theorem map_kind_ancestors {above aboveOther : List Node} {node other : Node}
    (kept : ∀ pair ∈ node.pairsBelow above aboveOther other,
      pair.2.node.children ≠ [] → pair.2.node.kind = pair.1.node.kind)
    (kinds : aboveOther.map kind = above.map kind) {pair : Occurrence × Occurrence}
    (isPair : pair ∈ node.pairsBelow above aboveOther other) :
    pair.2.ancestors.map kind = pair.1.ancestors.map kind := by
  induction node generalizing above aboveOther other with
  | mk label children ih =>
      rcases mem_pairsBelow.mp isPair with rfl | ⟨siblings, paired, below⟩
      · exact kinds
      · obtain ⟨isChild, isOther⟩ := List.of_mem_zip paired
        have here :=
          kept _ (self_mem_pairsBelow above aboveOther _ other) (List.ne_nil_of_mem isOther)
        refine ih siblings.1 isChild ?_ ?_ below
        · intro inner isInner
          exact kept inner (mem_pairsBelow.mpr (.inr ⟨siblings, paired, isInner⟩))
        · rw [List.map_cons, List.map_cons, kinds]
          exact congrArg (· :: above.map kind) here

/-! ## Looking up among related nodes -/

section Related

variable {R : Node → Node → Prop} {nodes others : List Node}

/-- What is found among related nodes by tests that agree on them is related by what the relation
and the tests give together. -/
theorem rel_find? {S : Node → Node → Prop} {p q : Node → Bool}
    (agree : ∀ node other, R node other → p node = q other)
    (passes : ∀ node ∈ nodes, ∀ other, R node other → p node = true → S node other)
    (related : List.Forall₂ R nodes others) : Option.Rel S (nodes.find? p) (others.find? q) := by
  induction related with
  | nil => exact .none
  | @cons node other _ _ here _ ih =>
      rw [List.find?_cons, List.find?_cons, ← agree node other here]
      cases passed : p node with
      | true => exact .some (passes node List.mem_cons_self other here passed)
      | false => exact ih fun node member => passes node (List.mem_cons_of_mem _ member)

theorem rel_or {first second first' second' : Option Node} (firsts : Option.Rel R first first')
    (seconds : Option.Rel R second second') :
    Option.Rel R (first.or second) (first'.or second') := by
  cases firsts with
  | none => exact seconds
  | some here => exact .some here

theorem rel_dropWhile {p q : Node → Bool} (agree : ∀ node other, R node other → p node = q other)
    (related : List.Forall₂ R nodes others) :
    List.Forall₂ R (nodes.dropWhile p) (others.dropWhile q) := by
  induction related with
  | nil => exact .nil
  | @cons node other _ _ here rest ih =>
      rw [List.dropWhile_cons, List.dropWhile_cons, agree node other here]
      split
      · exact ih
      · exact .cons here rest

theorem rel_pair? {head tail : Node → Bool} {node other : Node}
    (heads : ∀ node other, R node other → head node = head other)
    (tails : ∀ node other, R node other → tail node = tail other)
    (related : List.Forall₂ R node.children other.children) :
    Option.Rel (fun parts others => R parts.1 others.1 ∧ R parts.2 others.2)
      (node.pair? head tail) (other.pair? head tail) := by
  have agree : ∀ node other, R node other → (!head node) = !head other :=
    fun node other here => congrArg (! ·) (heads node other here)
  have left := rel_dropWhile agree related
  rw [pair?, pair?]
  generalize node.children.dropWhile _ = after at left ⊢
  generalize other.children.dropWhile _ = afterOther at left ⊢
  cases left with
  | nil => exact .none
  | @cons _ _ rest others first related =>
      have second := rel_find? tails (fun _ _ _ here _ => here) related
      dsimp only
      generalize rest.find? tail = found at second ⊢
      generalize others.find? tail = foundOther at second ⊢
      cases second with
      | none => exact .none
      | some second => exact .some ⟨first, second⟩

theorem rel_namedChildren {node other : Node}
    (named : ∀ node other, R node other → node.named = other.named)
    (related : List.Forall₂ R node.children other.children) :
    List.Forall₂ R node.namedChildren other.namedChildren := by
  refine List.rel_filter ?_ related
  intro node other here
  exact Bool.eq_iff_iff.mp (named node other here)

end Related

/-! ## Copies -/

/-- Two nodes that say the same of themselves, their ranges apart. -/
def SameButRange (node other : Node) : Prop :=
  other.label = { node.label with start := other.start, stop := other.stop }

instance (node other : Node) : Decidable (node.SameButRange other) :=
  inferInstanceAs (Decidable (_ = _))

namespace SameButRange

variable {node other : Node} (same : node.SameButRange other)

include same

theorem kind_eq : other.kind = node.kind :=
  (congrArg Label.kind same :)

theorem field_eq : other.field = node.field :=
  (congrArg Label.field same :)

theorem named_eq : other.named = node.named :=
  (congrArg Label.named same :)

theorem faulty_eq : other.label.faulty = node.label.faulty :=
  (congrArg Label.faulty same :)

end SameButRange

/-- A tree over one text is copied to a tree over another: the copy says and covers the same,
wherever it stands. -/
inductive CopiedTo (source output : Bytes) : Node → Node → Prop where
  | mk {node copy : Node} (same : node.SameButRange copy)
      (text : copy.text output = node.text source)
      (children : List.Forall₂ (CopiedTo source output) node.children copy.children) :
      CopiedTo source output node copy

namespace CopiedTo

variable {source output : Bytes} {node copy : Node}

theorem same (copied : CopiedTo source output node copy) : node.SameButRange copy := by
  cases copied with
  | mk same => exact same

theorem text_eq (copied : CopiedTo source output node copy) :
    copy.text output = node.text source := by
  cases copied with
  | mk _ text => exact text

theorem children (copied : CopiedTo source output node copy) :
    List.Forall₂ (CopiedTo source output) node.children copy.children := by
  cases copied with
  | mk _ _ children => exact children

end CopiedTo

end Node

end Unqualify
