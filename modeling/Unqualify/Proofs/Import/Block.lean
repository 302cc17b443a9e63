import Mathlib.Data.List.Chain
import Mathlib.Data.List.DropRight
import Mathlib.Data.List.Infix
import Unqualify.Proofs.Import.Position

/-!
# The comments in front of the first statement

The search for the insertion point goes through the header of a unit once and remembers the node
before and the first comment of a run. Here the insertion point is described without the search.

The comments that a header ends with belong to no directive, except the first of them when it stands
on the row where the node before it ends; the others are loose (`looseComments`). From the end, the
loose comments run up as long as each of them touches the one before it: no blank row lies between
them (`LongestRun`). New imports go in front of that run when it touches the first statement and
this is no import, and in front of the statement otherwise (`find_exact`).

The invariant of the search is that what it remembers is the last node seen and the first comment of
the run that the nodes seen so far end with (`Remembers`).
-/

set_option autoImplicit false

namespace Unqualify.ImportPosition

/-! ## Loose comments and their runs -/

/-- Whether a node is a comment. -/
def isComment (node : Node) : Bool :=
  node.kind == "comment"

/-- The comments that a header ends with. -/
def lastComments (header : List Node) : List Node :=
  header.rtakeWhile isComment

/-- The last node of a header that is no comment. -/
def lastPrologue? (header : List Node) : Option Node :=
  (header.rdropWhile isComment).getLast?

/-- The comments that a header ends with, without the first when it starts on the row where the node
before it ends. -/
def looseComments (source : Bytes) (header : List Node) : List Node :=
  match lastComments header with
  | [] => []
  | first :: rest =>
      if (lastPrologue? header).any fun node => first.startRow source == node.stopRow source
      then rest
      else first :: rest

/-- A node starts at most one row below the row where the node before it ends. -/
def Touches (source : Bytes) (before after : Node) : Prop :=
  after.startRow source ≤ before.stopRow source + 1

/-- The longest end of a list of comments in which each comment touches the one before it. -/
structure LongestRun (source : Bytes) (comments run : List Node) : Prop where
  suffix : run <:+ comments
  touching : run.IsChain (Touches source)
  longest : ∀ other, other <:+ comments → other.IsChain (Touches source) → other.length ≤ run.length

/-- A run of comments touches a statement that is no import, so that it belongs to the statement. -/
def BelongsTo (source : Bytes) (run : List Node) (statement : Node) : Prop :=
  statement.kind ≠ "import_statement" ∧ ∃ last ∈ run.getLast?, Touches source last statement

section Runs

variable {source : Bytes} {comments run other : List Node} {node : Node}

/-- Comments that touch each other are a run as a whole. -/
theorem longestRun_self (touching : run.IsChain (Touches source)) : LongestRun source run run where
  suffix := List.suffix_rfl
  touching := touching
  longest _ suffix _ := suffix.length_le

/-- There is one longest run. -/
theorem LongestRun.unique (longest : LongestRun source comments run)
    (longestToo : LongestRun source comments other) : run = other := by
  have shorter := longestToo.longest run longest.suffix longest.touching
  have longer := longest.longest other longestToo.suffix longestToo.touching
  exact (List.suffix_of_suffix_length_le longest.suffix longestToo.suffix shorter).eq_of_length
    (Nat.le_antisymm shorter longer)

/-- The last comment is always in the run. -/
theorem LongestRun.ne_nil (longest : LongestRun source comments run) (nonempty : comments ≠ []) :
    run ≠ [] := by
  rintro rfl
  have last : [comments.getLast nonempty] <:+ comments :=
    ⟨comments.dropLast, List.dropLast_append_getLast nonempty⟩
  exact absurd (longest.longest _ last (List.isChain_singleton _)) (by simp)

theorem LongestRun.getLast?_eq (longest : LongestRun source comments run) :
    run.getLast? = comments.getLast? := by
  by_cases none : comments = []
  · rw [none] at longest ⊢
    rw [List.suffix_nil.mp longest.suffix]
  · obtain ⟨before, rfl⟩ := longest.suffix
    exact (List.getLast?_append_of_ne_nil before (longest.ne_nil none)).symm

/-- A comment that touches the last one goes on with the run. -/
theorem LongestRun.concat_of_touches (longest : LongestRun source comments run)
    (touches : ∀ last ∈ comments.getLast?, Touches source last node) :
    LongestRun source (comments ++ [node]) (run ++ [node]) where
  suffix := List.suffix_concat_iff.mpr (.inr ⟨run, rfl, longest.suffix⟩)
  touching := by
    refine List.isChain_append.mpr ⟨longest.touching, List.isChain_singleton node, ?_⟩
    intro last isLast next isNext
    rw [longest.getLast?_eq] at isLast
    rw [← Option.some.inj isNext]
    exact touches last isLast
  longest other suffix touching := by
    rcases List.suffix_concat_iff.mp suffix with rfl | ⟨front, rfl, inFront⟩
    · exact Nat.zero_le _
    · have shorter := longest.longest front inFront (List.isChain_append.mp touching).1
      simpa using shorter

/-- Behind a blank row a new run begins. -/
theorem longestRun_singleton_of_detached {last : Node} (isLast : last ∈ comments.getLast?)
    (detached : ¬ Touches source last node) : LongestRun source (comments ++ [node]) [node] where
  suffix := List.suffix_append comments [node]
  touching := List.isChain_singleton node
  longest other suffix touching := by
    rcases List.suffix_concat_iff.mp suffix with rfl | ⟨front, rfl, inFront⟩
    · exact Nat.zero_le _
    · by_cases none : front = []
      · rw [none]
        exact Nat.le_refl _
      · -- A longer run would end with the last comment and the node, which do not touch.
        obtain ⟨before, rfl⟩ := inFront
        rw [List.getLast?_append_of_ne_nil before none] at isLast
        exact absurd ((List.isChain_append.mp touching).2.2 last isLast node rfl) detached

end Runs

/-! ## The loose comments of a longer header -/

section Loose

variable {source : Bytes} {seen : List Node} {node : Node}

theorem lastComments_suffix (header : List Node) : lastComments header <:+ header :=
  List.rtakeWhile_suffix _ _

theorem looseComments_suffix (source : Bytes) (header : List Node) :
    looseComments source header <:+ lastComments header := by
  rw [looseComments]
  match lastComments header with
  | [] => exact List.suffix_rfl
  | first :: rest =>
      dsimp only
      split
      · exact List.suffix_cons first rest
      · exact List.suffix_rfl

/-- A loose comment at the end of a header is its last node. -/
theorem getLast?_eq_of_loose (nonempty : looseComments source seen ≠ []) :
    seen.getLast? = (looseComments source seen).getLast? := by
  obtain ⟨before, split⟩ := (looseComments_suffix source seen).trans (lastComments_suffix seen)
  have last := List.getLast?_append_of_ne_nil before nonempty
  rwa [split] at last

theorem looseComments_concat_of_not_isComment (other : isComment node = false) :
    looseComments source (seen ++ [node]) = [] := by
  have none : lastComments (seen ++ [node]) = [] :=
    List.rtakeWhile_concat_neg _ _ _ (by simp [other])
  rw [looseComments, none]

/-- A comment is loose unless it trails the node before it, and then no comment is. -/
theorem looseComments_concat_of_isComment (comment : isComment node = true) :
    looseComments source (seen ++ [node]) =
      if isTrailing source seen.getLast? node then [] else looseComments source seen ++ [node] := by
  have sameLast : lastPrologue? (seen ++ [node]) = lastPrologue? seen := by
    rw [lastPrologue?, lastPrologue?, List.rdropWhile_concat_pos _ _ _ comment]
  have oneMore : lastComments (seen ++ [node]) = lastComments seen ++ [node] :=
    List.rtakeWhile_concat_pos _ _ _ comment
  have whole : seen.rdropWhile isComment ++ lastComments seen = seen :=
    List.rdropWhile_append_rtakeWhile
  rw [looseComments, looseComments, sameLast, oneMore]
  match before : lastComments seen with
  | [] =>
      -- The node before is no comment, if there is one: it is the last node of the prologue.
      rw [before, List.append_nil] at whole
      have last : lastPrologue? seen = seen.getLast? := congrArg List.getLast? whole
      have trails : isTrailing source seen.getLast? node =
          (lastPrologue? seen).any fun prologue =>
            node.startRow source == prologue.stopRow source := by
        rw [last]
        cases isLast : seen.getLast? with
        | none => rfl
        | some prologue =>
            obtain ⟨front, rfl⟩ := List.getLast?_eq_some_iff.mp isLast
            have other := List.rtakeWhile_eq_nil_iff.mp before (List.concat_ne_nil prologue front)
            rw [List.getLast_concat, isComment, beq_iff_eq] at other
            rw [isTrailing, Option.any_some, Option.any_some, bne_iff_ne.mpr other, Bool.true_and]
      rw [trails]
      rfl
  | first :: rest =>
      -- The node before is a comment, so this one does not trail, and the first comment stays the
      -- first.
      have isLast : seen.getLast? = (first :: rest).getLast? := by
        rw [before] at whole
        rw [← whole]
        exact List.getLast?_append_of_ne_nil _ (List.cons_ne_nil first rest)
      have trails : isTrailing source seen.getLast? node = false := by
        rw [isLast, List.getLast?_eq_some_getLast (List.cons_ne_nil first rest), isTrailing,
          Option.any_some]
        have member :
            (first :: rest).getLast (List.cons_ne_nil first rest) ∈ lastComments seen := by
          rw [before]
          exact List.getLast_mem _
        have kind : isComment _ = true := List.mem_rtakeWhile_imp member
        rw [isComment] at kind
        rw [bne, kind, Bool.not_true, Bool.false_and]
      rw [trails, if_neg Bool.false_ne_true]
      dsimp only [List.cons_append]
      split <;> rfl

end Loose

/-! ## What the search remembers -/

/-- What the search remembers of the nodes it has seen: the last of them, and the first comment of
the run that they end with. -/
structure Remembers (source : Bytes) (seen : List Node) (block previous : Option Node) : Prop where
  previous_eq : previous = seen.getLast?
  block_eq : ∃ run, LongestRun source (looseComments source seen) run ∧ block = run.head?

section Search

variable {source : Bytes} {seen : List Node} {block previous : Option Node} {node : Node}

theorem remembers_nil : Remembers source [] none none :=
  ⟨rfl, [], longestRun_self List.isChain_nil, rfl⟩

/-- After a hashbang line or a directive there is no run. -/
theorem remembers_prologue (other : isComment node = false) :
    Remembers source (seen ++ [node]) none (some node) where
  previous_eq := List.getLast?_concat.symm
  block_eq := by
    rw [looseComments_concat_of_not_isComment other]
    exact ⟨[], longestRun_self List.isChain_nil, rfl⟩

/-- A comment that trails ends the run; another one begins a run or goes on with it. -/
theorem Remembers.comment (remembers : Remembers source seen block previous)
    (comment : isComment node = true) :
    Remembers source (seen ++ [node]) (extendBlock source block previous node) (some node) where
  previous_eq := List.getLast?_concat.symm
  block_eq := by
    obtain ⟨rfl, run, longest, rfl⟩ := remembers
    rw [looseComments_concat_of_isComment comment, extendBlock]
    split
    next => exact ⟨[], longestRun_self List.isChain_nil, rfl⟩
    next =>
      by_cases none : looseComments source seen = []
      · rw [none] at longest ⊢
        rw [List.suffix_nil.mp longest.suffix]
        exact ⟨[node], longestRun_self (List.isChain_singleton node), rfl⟩
      · obtain ⟨first, rest, rfl⟩ := List.exists_cons_of_ne_nil (longest.ne_nil none)
        obtain ⟨last, isLast⟩ : ∃ last, (looseComments source seen).getLast? = some last :=
          ⟨_, List.getLast?_eq_some_getLast none⟩
        rw [getLast?_eq_of_loose none, isLast, isDetached, Option.any_some]
        by_cases touches : Touches source last node
        · refine ⟨first :: rest ++ [node], longest.concat_of_touches ?_, ?_⟩
          · intro other isOther
            rw [isLast] at isOther
            rwa [← Option.some.inj isOther]
          · rw [decide_eq_false (Nat.not_lt.mpr touches)]
            rfl
        · refine ⟨[node], longestRun_singleton_of_detached isLast touches, ?_⟩
          rw [decide_eq_true (Nat.lt_of_not_le touches)]
          rfl

/-- **The search keeps its invariant through a header.** -/
theorem Remembers.header {nodes : List Node} (remembers : Remembers source seen block previous)
    (header : ∀ node ∈ nodes, isHeader node = true) (fallback : Nat) (rest : List Node) :
    ∃ block' previous', Remembers source (seen ++ nodes) block' previous' ∧
      search source fallback block previous (nodes ++ rest) =
        search source fallback block' previous' rest := by
  induction nodes generalizing seen block previous with
  | nil => exact ⟨block, previous, by rwa [List.append_nil], rfl⟩
  | cons node nodes ih =>
      obtain ⟨here, later⟩ := List.forall_mem_cons.mp header
      rw [List.append_cons seen node nodes, List.cons_append]
      by_cases comment : node.kind = "comment"
      · rw [search_comment comment]
        exact ih (remembers.comment (beq_iff_eq.mpr comment)) later
      · have prologue : isPrologue node = true := by
          rw [isHeader, Bool.or_eq_true, beq_iff_eq] at here
          exact here.resolve_left comment
        rw [search_prologue comment prologue]
        exact ih (remembers_prologue (beq_eq_false_iff_ne.mpr comment)) later

end Search

/-! ## The insertion point -/

section Exact

variable {source : Bytes} {root statement : Node} {rest run : List Node}

/-- The search comes to the statements with what it remembers of the header. -/
theorem exists_remembers_header (source : Bytes) (root : Node) :
    ∃ block previous, Remembers source (header root) block previous ∧
      find source root = search source root.stop block previous (statements root) := by
  have all : ∀ node ∈ header root, isHeader node = true := fun _ => List.mem_takeWhile_imp
  have start : Remembers source [] none none := remembers_nil
  obtain ⟨block, previous, remembers, searched⟩ := start.header all root.stop (statements root)
  refine ⟨block, previous, remembers, ?_⟩
  rw [find, ← searched, header, statements, List.takeWhile_append_dropWhile]

theorem exists_longestRun (source : Bytes) (root : Node) :
    ∃ run, LongestRun source (looseComments source (header root)) run := by
  obtain ⟨_, _, ⟨_, run, longest, _⟩, _⟩ := exists_remembers_header source root
  exact ⟨run, longest⟩

/-- Without statements new imports go to the end. -/
theorem find_eq_stop (none : statements root = []) : find source root = root.stop := by
  obtain ⟨block, previous, _, searched⟩ := exists_remembers_header source root
  rw [searched, none]
  rfl

theorem isHeader_first_statement (first : statements root = statement :: rest) :
    isHeader statement = false := by
  have stopped := List.head?_dropWhile_not isHeader root.children
  rw [statements] at first
  rwa [first] at stopped

/-- New imports go in front of the run of comments that belongs to the first statement, and in front
of the statement when the run does not belong to it. -/
theorem find_eq_of_longestRun (first : statements root = statement :: rest)
    (longest : LongestRun source (looseComments source (header root)) run) :
    (BelongsTo source run statement → ∃ comment, run.head? = some comment ∧
        find source root = comment.start) ∧
      (¬ BelongsTo source run statement → find source root = statement.start) := by
  obtain ⟨block, previous, ⟨rfl, other, longestToo, rfl⟩, searched⟩ :=
    exists_remembers_header source root
  obtain rfl := longest.unique longestToo
  rw [searched, first, search_statement (isHeader_first_statement first)]
  cases run with
  | nil =>
      refine ⟨?_, fun _ => rfl⟩
      rintro ⟨_, last, impossible, _⟩
      exact nomatch impossible
  | cons comment comments =>
      have nonempty : looseComments source (header root) ≠ [] := by
        intro none
        rw [none] at longest
        exact nomatch List.suffix_nil.mp longest.suffix
      -- The last comment of the run is the node before the statement.
      have same : (header root).getLast? = (comment :: comments).getLast? :=
        (getLast?_eq_of_loose nonempty).trans longest.getLast?_eq.symm
      rw [same, List.getLast?_eq_some_getLast (List.cons_ne_nil comment comments)]
      have belongs_iff : BelongsTo source (comment :: comments) statement ↔
          (statement.kind != "import_statement" && !isDetached source
            (some ((comment :: comments).getLast (List.cons_ne_nil comment comments))) statement) =
              true := by
        simp only [BelongsTo, List.getLast?_eq_some_getLast (List.cons_ne_nil comment comments),
          Option.mem_some_iff, exists_eq_left', Bool.and_eq_true, bne_iff_ne, Bool.not_eq_true',
          isDetached, Option.any_some, decide_eq_false_iff_not, Nat.not_lt, Touches]
      rw [belongs_iff]
      constructor
      · intro belongs
        exact ⟨comment, rfl, if_pos belongs⟩
      · intro apart
        exact if_neg apart

/-- **Where new imports go.** Without a statement it is the end of the unit. Otherwise it is the
start of the run of loose comments in front of the first statement when the run belongs to it, and
the start of the statement when not. So only comments, hashbang lines and directives come before new
imports, they are not inserted inside a top-level node, and they come no later than any import. -/
theorem find_exact (wellFormed : root.WellFormed source) :
    (statements root = [] → find source root = root.stop) ∧
      (∀ statement rest, statements root = statement :: rest →
        ∃ run, LongestRun source (looseComments source (header root)) run ∧
          (BelongsTo source run statement →
            ∃ first, run.head? = some first ∧ find source root = first.start) ∧
          (¬ BelongsTo source run statement → find source root = statement.start)) ∧
      (∀ child ∈ root.children, child.start < find source root → isHeader child = true) ∧
      (∀ child ∈ root.children,
        ¬ (child.start < find source root ∧ find source root < child.stop)) ∧
      ∀ child ∈ root.children, child.kind = "import_statement" →
        find source root ≤ child.start := by
  have late {child : Node} (isChild : child ∈ root.children) (other : isHeader child = false) :
      find source root ≤ child.start := by
    rcases mem_children_iff.mp isChild with inHeader | isStatement
    · exact absurd ((List.mem_takeWhile_imp inHeader).symm.trans other) (by decide)
    · exact find_le_start wellFormed isStatement
  refine ⟨find_eq_stop, ?_, ?_, ?_, ?_⟩
  · intro statement rest first
    obtain ⟨run, longest⟩ := exists_longestRun source root
    exact ⟨run, longest, find_eq_of_longestRun first longest⟩
  · intro child isChild above
    by_contra other
    exact Nat.not_le_of_lt above (late isChild (Bool.eq_false_iff.mpr other))
  · rintro child isChild ⟨starts, stops⟩
    rcases find_le_start_or_stop_le_find wellFormed isChild with before | after <;> omega
  · intro child isChild isImport
    exact late isChild (by simp [isHeader, isPrologue, isDirective, isImport])

end Exact

end Unqualify.ImportPosition

namespace Unqualify

namespace Sample

/-- A unit with a comment behind its directive, a comment of its own and a doc comment. -/
def headedText : String :=
  "'use client'; // a\n// b\n\n/** d */\nlet x;\n"

def headedRoot : Node :=
  branch "program" 0 41 [
    branch "expression_statement" 0 13 [branch "string" 0 12 [], token ";" 12 13],
    branch "comment" 14 18 [], branch "comment" 19 23 [], branch "comment" 25 33 [],
    branch "lexical_declaration" 34 40 []]

theorem wellFormed_headed : headedRoot.WellFormed (Utf8.encode headedText) where
  inSource := by decide +kernel
  forward := by decide +kernel
  inParent := by decide +kernel
  ordered := by decide +kernel

end Sample

/-- New imports go in front of the doc comment, which is a run of its own. -/
theorem ImportPosition.find_exact_headed :
    find (Utf8.encode Sample.headedText) Sample.headedRoot = 25 ∧
      ∃ run, LongestRun (Utf8.encode Sample.headedText)
          (looseComments (Utf8.encode Sample.headedText) (header Sample.headedRoot)) run ∧
        ∃ first, run.head? = some first ∧ first.start = 25 := by
  have place : find (Utf8.encode Sample.headedText) Sample.headedRoot = 25 := by decide +kernel
  obtain ⟨run, longest, inFront, behind⟩ :=
    (find_exact Sample.wellFormed_headed).2.1 (Sample.branch "lexical_declaration" 34 40 []) [] rfl
  by_cases belongs : BelongsTo (Utf8.encode Sample.headedText) run
      (Sample.branch "lexical_declaration" 34 40 [])
  · obtain ⟨first, begins, found⟩ := inFront belongs
    exact ⟨place, run, longest, first, begins, found.symm.trans place⟩
  · exact absurd (place.symm.trans (behind belongs)) (by decide)

end Unqualify
