import Unqualify.Proofs.Import.Block

/-!
# Comments on the row of a directive

A comment that follows a hashbang line or a directive on its row belongs to that line, and new
imports should not come between the two. The search looks at one comment for this, the first: a
second comment on the row counts as loose, and when the comments from there on belong to the first
statement, new imports are inserted in the middle of the row (`TrailedTwice`). That is the only way
in which they come to stand on the row of a hashbang line or a directive in front of a comment
(`inserted_on_prologue_row_iff`).
-/

set_option autoImplicit false

namespace Unqualify

/-- Rows go up with offsets. -/
theorem Place.rowAt_mono (source : Bytes) {earlier later : Nat} (le : earlier ≤ later) :
    rowAt source earlier ≤ rowAt source later :=
  (List.take_sublist_take_left le).count_le lineFeed

namespace ImportPosition

/-! ## The parts of a header -/

/-- The children of a unit that has a hashbang line or a directive and a statement: what comes
before the last of the former, the comments behind it, and the first statement with all that
follows. -/
structure Layout (root : Node) (above : List Node) (prologue : Node) (comments : List Node)
    (statement : Node) (rest : List Node) : Prop where
  children_eq : root.children = above ++ prologue :: (comments ++ statement :: rest)
  isHeader_above : ∀ node ∈ above, isHeader node = true
  isPrologue : isPrologue prologue = true
  isComment : ∀ comment ∈ comments, isComment comment = true
  isStatement : isHeader statement = false

/-- Two comments or more follow the last hashbang line or directive on the row where it ends, and
those from the second on touch each other and belong to the first statement. -/
def TrailedTwice (source : Bytes) (root : Node) : Prop :=
  ∃ above prologue trailing run statement rest,
    Layout root above prologue (trailing :: run) statement rest ∧
      trailing.startRow source = prologue.stopRow source ∧
      (∃ second ∈ run.head?, second.startRow source = prologue.stopRow source) ∧
      run.IsChain (Touches source) ∧ BelongsTo source run statement

theorem isComment_eq_false_of_isPrologue {node : Node} (prologue : isPrologue node = true) :
    isComment node = false := by
  rw [isComment, beq_eq_false_iff_ne]
  intro comment
  simp [isPrologue, isDirective, comment] at prologue

section Layout

variable {source : Bytes} {root prologue statement : Node} {above comments rest : List Node}

namespace Layout

section

variable (layout : Layout root above prologue comments statement rest)

include layout

theorem header_and_statements :
    header root = above ++ prologue :: comments ∧ statements root = statement :: rest := by
  have all : ∀ node ∈ above ++ prologue :: comments, isHeader node = true := by
    intro node member
    rcases List.mem_append.mp member with isAbove | behind
    · exact layout.isHeader_above node isAbove
    rcases List.mem_cons.mp behind with rfl | isComment
    · rw [isHeader, layout.isPrologue, Bool.or_true]
    · have comment := layout.isComment node isComment
      rw [ImportPosition.isComment] at comment
      rw [isHeader, comment, Bool.true_or]
  have split : root.children = (above ++ prologue :: comments) ++ statement :: rest := by
    rw [layout.children_eq, List.append_assoc, List.cons_append]
  have stops : ¬ isHeader statement = true := by simp [layout.isStatement]
  rw [header, statements, split, List.takeWhile_append_of_pos all, List.dropWhile_append_of_pos all,
    List.takeWhile_cons_of_neg stops, List.dropWhile_cons_of_neg stops, List.append_nil]
  exact ⟨rfl, rfl⟩

theorem lastComments_eq : lastComments (header root) = comments := by
  have other := isComment_eq_false_of_isPrologue layout.isPrologue
  have all : ∀ comment ∈ comments.reverse, ImportPosition.isComment comment = true :=
    fun comment member => layout.isComment comment (List.mem_reverse.mp member)
  rw [lastComments, layout.header_and_statements.1, List.rtakeWhile, List.reverse_append,
    List.reverse_cons, List.append_assoc, List.takeWhile_append_of_pos all, List.cons_append,
    List.takeWhile_cons_of_neg (by simp [other]), List.append_nil, List.reverse_reverse]

theorem lastPrologue?_eq : lastPrologue? (header root) = some prologue := by
  have same : (header root).rdropWhile ImportPosition.isComment ++ comments =
      (above ++ [prologue]) ++ comments :=
    calc
      _ = (header root).rdropWhile ImportPosition.isComment ++ lastComments (header root) := by
        rw [layout.lastComments_eq]
      _ = header root := List.rdropWhile_append_rtakeWhile
      _ = _ := by rw [layout.header_and_statements.1, List.append_cons]
  rw [lastPrologue?, List.append_cancel_right same, List.getLast?_concat]

end

/-- The loose comments, when the first comment is on the row of the hashbang line or directive. -/
theorem looseComments_eq {trailing : Node}
    (layout : Layout root above prologue (trailing :: comments) statement rest)
    (trails : trailing.startRow source = prologue.stopRow source) :
    looseComments source (header root) = comments := by
  rw [looseComments, layout.lastComments_eq, layout.lastPrologue?_eq]
  exact if_pos (beq_iff_eq.mpr trails)

end Layout

/-- A header with a node that is no comment is laid out around the last of them. -/
theorem exists_layout (first : statements root = statement :: rest)
    (last : lastPrologue? (header root) = some prologue) :
    ∃ above, Layout root above prologue (lastComments (header root)) statement rest := by
  obtain ⟨above, upTo⟩ := List.getLast?_eq_some_iff.mp last
  have whole : (above ++ [prologue]) ++ lastComments (header root) = header root := by
    rw [← upTo]
    exact List.rdropWhile_append_rtakeWhile
  have inHeader {node : Node} (member : node ∈ above ++ [prologue]) : isHeader node = true := by
    have among : node ∈ header root := by
      rw [← whole]
      exact List.mem_append_left _ member
    exact List.mem_takeWhile_imp among
  have other : isComment prologue = false := by
    have ends := List.rdropWhile_last_not isComment (header root) (by rw [upTo]; simp)
    simp only [upTo, List.getLast_concat] at ends
    exact Bool.eq_false_iff.mpr ends
  refine ⟨above, ?_, fun node member => inHeader (List.mem_append_left _ member), ?_,
    fun comment => List.mem_rtakeWhile_imp, isHeader_first_statement first⟩
  · calc
      root.children = header root ++ statements root := List.takeWhile_append_dropWhile.symm
      _ = ((above ++ [prologue]) ++ lastComments (header root)) ++ statement :: rest := by
        rw [whole, first]
      _ = _ := by simp only [List.append_assoc, List.cons_append, List.nil_append]
  · have part := inHeader (List.mem_append_right above (List.mem_singleton.mpr rfl))
    rw [isComment] at other
    rwa [isHeader, other, Bool.false_or] at part

/-! ## Rows -/

section Rows

variable (wellFormed : root.WellFormed source)

include wellFormed

/-- Of two parts of the children of a unit, all of the first ends before the second starts. -/
theorem stop_le_start_of_append {before after : List Node} (split : root.children = before ++ after)
    {first second : Node} (inBefore : first ∈ before) (inAfter : second ∈ after) :
    first.stop ≤ second.start := by
  have ordered := wellFormed.ordered _ (Node.root_mem_occurrences root)
  dsimp only at ordered
  rw [split] at ordered
  exact (List.pairwise_append.mp ordered).2.2 first inBefore second inAfter

theorem startRow_le_stopRow {child : Node} (isChild : child ∈ root.children) :
    child.startRow source ≤ child.stopRow source :=
  Place.rowAt_mono source
    (wellFormed.forward _ (Node.child_mem_occurrences (Node.root_mem_occurrences root) isChild))

/-- Comments come behind the hashbang line or directive. -/
theorem Layout.stop_le_start (layout : Layout root above prologue comments statement rest)
    {comment : Node} (member : comment ∈ comments) : prologue.stop ≤ comment.start := by
  have split : root.children = (above ++ [prologue]) ++ (comments ++ statement :: rest) := by
    rw [layout.children_eq, List.append_cons]
  exact stop_le_start_of_append wellFormed split (by simp) (List.mem_append_left _ member)

/-- When the run that belongs to the first statement begins on the row of the last hashbang line or
directive, one comment comes before it on that row. -/
theorem Layout.trailedTwice {run : List Node} {first : Node}
    (layout : Layout root above prologue comments statement rest)
    (longest : LongestRun source (looseComments source (header root)) run)
    (belongs : BelongsTo source run statement) (begins : run.head? = some first)
    (same : first.startRow source = prologue.stopRow source) : TrailedTwice source root := by
  have suffix : run <:+ comments := by
    rw [← layout.lastComments_eq]
    exact longest.suffix.trans (looseComments_suffix source (header root))
  have isFirst : first ∈ comments := suffix.subset (List.mem_of_head? begins)
  have behind {comment : Node} (member : comment ∈ comments) :
      comment ∈ root.children ∧ prologue.stopRow source ≤ comment.startRow source := by
    refine ⟨?_, Place.rowAt_mono source (layout.stop_le_start wellFormed member)⟩
    rw [layout.children_eq]
    simp [member]
  cases comments with
  | nil => exact nomatch isFirst
  | cons trailing later =>
      -- The first comment starts between the end of the directive and the run, so on the same row.
      have trails : trailing.startRow source = prologue.stopRow source := by
        have low := (behind List.mem_cons_self).2
        have high : trailing.startRow source ≤ first.startRow source := by
          rcases List.mem_cons.mp isFirst with rfl | inLater
          · exact Nat.le_refl _
          · have split : root.children =
                (above ++ [prologue, trailing]) ++ (later ++ statement :: rest) := by
              rw [layout.children_eq]
              simp
            have inFront : trailing ∈ above ++ [prologue, trailing] := by simp
            have ends :=
              stop_le_start_of_append wellFormed split inFront (List.mem_append_left _ inLater)
            exact Nat.le_trans (startRow_le_stopRow wellFormed (behind List.mem_cons_self).1)
              (Place.rowAt_mono source ends)
        omega
      rw [layout.looseComments_eq trails] at longest
      have whole : run = later := by
        obtain ⟨before, split⟩ := longest.suffix
        rcases List.eq_nil_or_concat before with rfl | ⟨front, between, rfl⟩
        · exact split
        · -- A comment between the two would touch the run, and so be part of it.
          obtain ⟨more, rfl⟩ := List.head?_eq_some_iff.mp begins
          have member : between ∈ trailing :: later := by simp [← split]
          have touches : Touches source between first := by
            have low := (behind member).2
            have forward := startRow_le_stopRow wellFormed (behind member).1
            unfold Touches
            omega
          have longer := longest.longest (between :: first :: more)
            ⟨front, by rw [← split]; simp⟩ (List.isChain_cons_cons.mpr ⟨touches, longest.touching⟩)
          exact absurd longer (by simp)
      subst whole
      exact ⟨above, prologue, trailing, run, statement, rest, layout, trails, ⟨first, begins, same⟩,
        longest.touching, belongs⟩

end Rows

/-- New imports go in front of the second of two comments that trail. -/
theorem Layout.find_eq_start {trailing second : Node}
    (layout : Layout root above prologue (trailing :: comments) statement rest)
    (trails : trailing.startRow source = prologue.stopRow source)
    (begins : comments.head? = some second) (touching : comments.IsChain (Touches source))
    (belongs : BelongsTo source comments statement) : find source root = second.start := by
  have longest : LongestRun source (looseComments source (header root)) comments := by
    rw [layout.looseComments_eq trails]
    exact longestRun_self touching
  obtain ⟨first, isFirst, found⟩ :=
    (find_eq_of_longestRun layout.header_and_statements.2 longest).1 belongs
  rw [found, Option.some.inj (isFirst.symm.trans begins)]

end Layout

/-! ## New imports on the row of a directive -/

/-- New imports are inserted in front of a comment on the row where a hashbang line or directive
before it ends. -/
def InsertedBehindPrologue (source : Bytes) (root : Node) : Prop :=
  ∃ comment ∈ root.children, isComment comment = true ∧ find source root = comment.start ∧
    ∃ prologue ∈ root.children, isPrologue prologue = true ∧ prologue.stop ≤ comment.start ∧
      comment.startRow source = prologue.stopRow source

section Inserted

variable {source : Bytes} {root : Node} (wellFormed : root.WellFormed source)

theorem LongestRun.mem_lastComments {run : List Node} {comment : Node}
    (longest : LongestRun source (looseComments source (header root)) run)
    (member : comment ∈ run) :
    comment ∈ lastComments (header root) :=
  (longest.suffix.trans (looseComments_suffix source (header root))).subset member

include wellFormed

/-- On the row of the last hashbang line or directive, and above the first statement, new imports
stand in front of a run of comments. -/
theorem trailedTwice_of_rowAt_find {prologue statement : Node} {rest : List Node}
    (last : lastPrologue? (header root) = some prologue)
    (first : statements root = statement :: rest)
    (later : prologue.stopRow source < statement.startRow source)
    (same : Place.rowAt source (find source root) = prologue.stopRow source) :
    TrailedTwice source root := by
  obtain ⟨run, longest⟩ := exists_longestRun source root
  obtain ⟨inFront, behind⟩ := find_eq_of_longestRun first longest
  obtain ⟨above, layout⟩ := exists_layout first last
  by_cases belongs : BelongsTo source run statement
  · obtain ⟨comment, begins, found⟩ := inFront belongs
    rw [found] at same
    exact layout.trailedTwice wellFormed longest belongs begins same
  · rw [behind belongs] at same
    exact absurd same (Nat.ne_of_gt later)

/-- Two comments that trail bring new imports onto the row of the last hashbang line or
directive. -/
theorem TrailedTwice.insertedBehindPrologue (trailed : TrailedTwice source root) :
    InsertedBehindPrologue source root ∧
      ∀ prologue, lastPrologue? (header root) = some prologue →
        Place.rowAt source (find source root) = prologue.stopRow source := by
  obtain ⟨above, prologue, trailing, run, statement, rest, layout, trails, ⟨second, begins, same⟩,
    touching, belongs⟩ := trailed
  have found := layout.find_eq_start trails begins touching belongs
  have isSecond : second ∈ trailing :: run := List.mem_cons_of_mem _ (List.mem_of_head? begins)
  constructor
  · refine ⟨second, ?_, layout.isComment second isSecond, found, prologue, ?_, layout.isPrologue,
      layout.stop_le_start wellFormed isSecond, same⟩
    · rw [layout.children_eq]
      exact List.mem_append_right _ (List.mem_cons_of_mem _ (List.mem_append_left _ isSecond))
    · simp [layout.children_eq]
  · intro other isLast
    rw [layout.lastPrologue?_eq] at isLast
    rw [found, ← Option.some.inj isLast]
    exact same

variable (written : ∀ child ∈ root.children, child.start < child.stop)

include written

/-- Two children that start at one offset are the same. -/
theorem eq_of_start_eq {first second : Node} (isFirst : first ∈ root.children)
    (isSecond : second ∈ root.children) (same : first.start = second.start) : first = second := by
  by_contra different
  have nonempty := written first isFirst
  have nonemptyToo := written second isSecond
  rcases wellFormed.siblings_apart (Node.root_mem_occurrences root) isFirst isSecond different with
    before | after <;> omega

/-- The last hashbang line or directive of a header ends no earlier than any of them in front of new
imports. -/
theorem exists_layout_of_isPrologue {prologue statement : Node} {rest : List Node}
    (first : statements root = statement :: rest) (isChild : prologue ∈ root.children)
    (isPrologue : isPrologue prologue = true) (before : prologue.stop ≤ find source root) :
    ∃ above last, Layout root above last (lastComments (header root)) statement rest ∧
      prologue.stopRow source ≤ last.stopRow source := by
  have inHeader : prologue ∈ header root := by
    refine (mem_children_iff.mp isChild).resolve_right fun isStatement => ?_
    have late := find_le_start wellFormed isStatement
    have nonempty := written prologue isChild
    omega
  have other := isComment_eq_false_of_isPrologue isPrologue
  cases isLast : lastPrologue? (header root) with
  | none =>
      have all := List.rdropWhile_eq_nil_iff.mp (List.getLast?_eq_none_iff.mp isLast)
      exact absurd ((all prologue inHeader).symm.trans other) (by decide)
  | some last =>
      obtain ⟨above, layout⟩ := exists_layout first isLast
      refine ⟨above, last, layout, ?_⟩
      rw [layout.header_and_statements.1] at inHeader
      rcases List.mem_append.mp inHeader with isAbove | behind
      · have isChildToo : last ∈ root.children := by simp [layout.children_eq]
        have ends :=
          stop_le_start_of_append wellFormed layout.children_eq isAbove List.mem_cons_self
        exact Nat.le_trans (Place.rowAt_mono source ends)
          (startRow_le_stopRow wellFormed isChildToo)
      rcases List.mem_cons.mp behind with rfl | isComment
      · exact Nat.le_refl _
      · exact absurd ((layout.isComment prologue isComment).symm.trans other) (by decide)

theorem InsertedBehindPrologue.trailedTwice (inserted : InsertedBehindPrologue source root) :
    TrailedTwice source root := by
  obtain ⟨comment, isChild, kind, found, prologue, isPrologueToo, isPrologue, before, same⟩ :=
    inserted
  cases first : statements root with
  | nil =>
      -- The end of the unit lies behind the comment.
      have inside := (wellFormed.inParent _ (Node.root_mem_occurrences root) comment isChild).2
      have nonempty := written comment isChild
      rw [find_eq_stop first] at found
      dsimp only at inside
      omega
  | cons statement rest =>
      obtain ⟨run, longest⟩ := exists_longestRun source root
      obtain ⟨inFront, behind⟩ := find_eq_of_longestRun first longest
      by_cases belongs : BelongsTo source run statement
      · obtain ⟨head, begins, starts⟩ := inFront belongs
        have listed := longest.mem_lastComments (List.mem_of_head? begins)
        have isHead : head ∈ root.children :=
          mem_children_iff.mpr (.inl ((lastComments_suffix _).subset listed))
        obtain rfl := eq_of_start_eq wellFormed written isHead isChild (starts.symm.trans found)
        obtain ⟨above, last, layout, ends⟩ := exists_layout_of_isPrologue wellFormed written first
          isPrologueToo isPrologue (before.trans (Nat.le_of_eq found.symm))
        have low := Place.rowAt_mono source (layout.stop_le_start wellFormed listed)
        exact layout.trailedTwice wellFormed longest belongs begins
          (Nat.le_antisymm (same.trans_le ends) low)
      · -- A statement is no comment.
        have isStatement : statement ∈ root.children :=
          mem_children_iff.mpr (.inr (by rw [first]; exact List.mem_cons_self))
        obtain rfl := eq_of_start_eq wellFormed written isStatement isChild
          ((behind belongs).symm.trans found)
        have other := isHeader_first_statement first
        rw [isComment] at kind
        rw [isHeader, kind, Bool.true_or] at other
        exact absurd other (by decide)

/-- **When new imports come to stand on the row of a hashbang line or directive.** They are inserted
in front of a comment on the row where a hashbang line or directive before it ends exactly when two
comments or more follow the last of these on its row and those from the second on belong to the
first statement. When the first statement starts on a later row, exactly then they are inserted on
the row of the last hashbang line or directive. -/
theorem inserted_on_prologue_row_iff :
    (InsertedBehindPrologue source root ↔ TrailedTwice source root) ∧
      ∀ prologue statement rest, lastPrologue? (header root) = some prologue →
        statements root = statement :: rest →
        prologue.stopRow source < statement.startRow source →
        (Place.rowAt source (find source root) = prologue.stopRow source ↔
          TrailedTwice source root) := by
  refine ⟨⟨?_, ?_⟩, fun prologue statement rest last first later => ⟨?_, ?_⟩⟩
  · exact InsertedBehindPrologue.trailedTwice wellFormed written
  · exact fun trailed => (trailed.insertedBehindPrologue wellFormed).1
  · exact trailedTwice_of_rowAt_find wellFormed last first later
  · exact fun trailed => (trailed.insertedBehindPrologue wellFormed).2 prologue last

end Inserted

end ImportPosition

namespace Sample

/-- A unit with two comments behind its directive, on one row. -/
def trailedText : String :=
  "'use client'; /* a */ /* b */\nexport const a = React.x;\n"

def trailedDirective : Node :=
  branch "expression_statement" 0 13 [branch "string" 0 12 [], token ";" 12 13]

def trailedExport : Node :=
  branch "export_statement" 30 55 [
    token "export" 30 36,
    filling "declaration" "lexical_declaration" 37 55 [
      token "const" 37 42,
      branch "variable_declarator" 43 54 [
        filling "name" "identifier" 43 44 [], token "=" 45 46,
        filling "value" "member_expression" 47 54 [
          filling "object" "identifier" 47 52 [], token "." 52 53,
          filling "property" "property_identifier" 53 54 []]],
      token ";" 54 55]]

def trailedRoot : Node :=
  branch "program" 0 56
    [trailedDirective, branch "comment" 14 21 [], branch "comment" 22 29 [], trailedExport]

theorem wellFormed_trailed : trailedRoot.WellFormed (Utf8.encode trailedText) where
  inSource := by decide +kernel
  forward := by decide +kernel
  inParent := by decide +kernel
  ordered := by decide +kernel

end Sample

namespace ImportPosition

/-- The second comment behind the directive is moved away from it, and a comment that is alone there
stays with it. -/
theorem inserted_on_prologue_row_iff_trailed :
    TrailedTwice (Utf8.encode Sample.trailedText) Sample.trailedRoot ∧
      ¬ TrailedTwice (Utf8.encode Sample.headedText) Sample.headedRoot := by
  constructor
  · refine (inserted_on_prologue_row_iff Sample.wellFormed_trailed (by decide)).1.mp ?_
    unfold InsertedBehindPrologue
    decide +kernel
  · intro trailed
    refine absurd
      ((inserted_on_prologue_row_iff Sample.wellFormed_headed (by decide)).1.mpr trailed) ?_
    unfold InsertedBehindPrologue
    decide +kernel

/-- New imports are inserted on the row of a directive, in front of the second comment there,
although the first statement starts on a later row. -/
theorem inserted_between_trailing_comments :
    let source := Utf8.encode Sample.trailedText
    let root := Sample.trailedRoot
    (root.WellFormed source ∧ ∀ child ∈ root.children, child.start < child.stop) ∧
      (find source root = 22 ∧ InsertedBehindPrologue source root) ∧
      ∃ prologue statement rest, lastPrologue? (header root) = some prologue ∧
        statements root = statement :: rest ∧
        prologue.stopRow source < statement.startRow source ∧
        Place.rowAt source (find source root) = prologue.stopRow source := by
  intro source root
  refine ⟨⟨Sample.wellFormed_trailed, by decide⟩, ⟨by decide +kernel, ?_⟩, Sample.trailedDirective,
    Sample.trailedExport, [], rfl, rfl, by decide +kernel, by decide +kernel⟩
  unfold InsertedBehindPrologue
  decide +kernel

end ImportPosition

end Unqualify
