import Unqualify.Proofs.Diff.Hunk
import Unqualify.Proofs.Text.Line

/-!
# A unified diff as a patch

A diff consists of two lines for the names and of the hunks of the script between the lines of two
texts, each line without the line feed at its end (`unified_of_ne`). No line has another line feed,
so the diff is read line by line as it has been written, and the hunks that are read are those of
the script (`ofText?_unified`).

When each line of the two texts ends in a line feed and nothing else ends a line, nothing is lost by
leaving the line feeds out: the diff is then a patch that makes the second text of the first
(`unified_is_patch`).
-/

set_option autoImplicit false

namespace Unqualify

namespace Diff

/-! ## Lines without their line feed -/

theorem closeLine_append_lineFeed (line : String) : closeLine (line ++ "\n") = line := by
  simp [closeLine]

theorem closeLine_of_last_ne {line : String} (last : line.toList.getLast? ≠ some '\n') :
    closeLine line = line := by
  rw [closeLine]
  split
  next rest reversed =>
    rw [← List.head?_reverse, reversed] at last
    exact absurd rfl last
  next => rfl

/-- A line ends in a line feed, or closing it changes nothing. -/
theorem closeLine_cases (line : String) :
    line = closeLine line ++ "\n" ∨
      closeLine line = line ∧ line.toList.getLast? ≠ some '\n' := by
  by_cases last : line.toList.getLast? = some '\n'
  · obtain ⟨content, split⟩ := List.getLast?_eq_some_iff.mp last
    have whole : line = String.ofList content ++ "\n" := by
      rw [← String.toList_inj, split]
      simp
    exact .inl (by rw [whole, closeLine_append_lineFeed])
  · exact .inr ⟨closeLine_of_last_ne last, last⟩

theorem closeLine_append {start : String} (free : '\n' ∉ start.toList) (line : String) :
    closeLine (start ++ line) = start ++ closeLine line := by
  rcases closeLine_cases line with ended | ⟨same, last⟩
  · conv_lhs => rw [ended, ← String.append_assoc, closeLine_append_lineFeed]
  · rw [same]
    apply closeLine_of_last_ne
    rw [String.toList_append, List.getLast?_append]
    cases none : line.toList.getLast? with
    | none =>
        intro isLast
        exact free (List.mem_of_getLast? isLast)
    | some c => rw [none] at last; exact last

theorem closeLine_of_notMem {line : String} (free : '\n' ∉ line.toList) : closeLine line = line :=
  closeLine_of_last_ne fun last => free (List.mem_of_getLast? last)

/-! ## Hunks as text -/

theorem rangeText_eq (start count : Nat) :
    rangeText start count = (Patch.Range.after start count).text := by
  rw [rangeText, Patch.Range.text, Patch.Range.after]
  by_cases none : count = 0
  · subst none
    have zero : "," ++ Nat.repr 0 = ",0" := by decide +kernel
    simp [String.append_assoc, zero]
  · by_cases single : count = 1 <;> simp [none, single]

theorem notMem_toDigits (number : Nat) : '\n' ∉ Nat.toDigits 10 number := by
  intro member
  exact absurd (Nat.isDigit_of_mem_toDigits (by decide) (by decide) member) (by decide)

theorem notMem_text (range : Patch.Range) : '\n' ∉ range.text.toList := by
  rw [Patch.Range.text]
  split <;> simp [notMem_toDigits]

theorem notMem_head (hunk : Patch.Hunk) : '\n' ∉ hunk.head.toList := by
  simp [Patch.Hunk.head, notMem_text]

theorem map_closeLine_marked (script : List Segment) :
    (script.flatMap Segment.marked).map closeLine = (shownEdits script).map Patch.editText := by
  have marks (edit : LineEdit) :
      closeLine (Patch.editText edit) = Patch.editText (edit.map closeLine) := by
    cases edit <;> exact closeLine_append (by decide) _
  have each (segment : Segment) : segment.marked = segment.edits.map Patch.editText := by
    cases segment <;> simp [Segment.marked, Segment.edits, Patch.editText, Function.comp_def]
  have all : script.flatMap Segment.marked = (script.flatMap Segment.edits).map Patch.editText := by
    rw [List.map_flatMap]
    exact List.flatMap_congr fun segment _ => each segment
  simp only [all, shownEdits, List.map_map, Function.comp_def, marks]

theorem map_closeLine_hunks (hunks : List Hunk) :
    (hunks.flatMap Hunk.marked).map closeLine =
      (hunks.map Hunk.shown).flatMap Patch.Hunk.texts := by
  have each (hunk : Hunk) : hunk.marked.map closeLine = hunk.shown.texts := by
    have head : "@@ -" ++ rangeText hunk.oldStart hunk.oldCount ++ " +" ++
        rangeText hunk.newStart hunk.newCount ++ " @@" = hunk.shown.head := by
      rw [rangeText_eq, rangeText_eq]
      rfl
    rw [Hunk.marked, head, List.map_cons, closeLine_of_notMem (notMem_head _), map_closeLine_marked]
    rfl
  rw [List.map_flatMap, List.flatMap_map]
  exact List.flatMap_congr fun hunk _ => each hunk

/-! ## Diffs as text -/

/-- The edits that lead from one text to another, as a diff shows them. -/
def shownBetween (before after : String) : List LineEdit :=
  shownEdits (script (Text.lines before) (Text.lines after))

/-- The hunks that a diff of two texts shows. -/
def shownHunks (before after : String) : List Patch.Hunk :=
  (hunks (script (Text.lines before) (Text.lines after))).map Hunk.shown

theorem unified_of_ne (file : String) {before after : String} (different : before ≠ after) :
    unified file before after =
      "\n".intercalate (["--- a/" ++ file, "+++ b/" ++ file].map closeLine ++
        (shownHunks before after).flatMap Patch.Hunk.texts) := by
  rw [unified, if_neg (by simpa using different)]
  dsimp only
  rw [List.map_append, map_closeLine_hunks]
  rfl

/-- **A diff is empty exactly when the texts are equal.** -/
theorem unified_eq_empty_iff {file before after : String} :
    unified file before after = "" ↔ before = after := by
  constructor
  · intro empty
    by_contra different
    have characters := congrArg String.toList (unified_of_ne file different)
    rw [empty] at characters
    simp at characters
  · rintro rfl
    rw [unified, if_pos (beq_self_eq_true before)]

/-! ## Reading a diff -/

theorem notMem_closeLine {text line : String} (member : line ∈ Text.lines text) :
    '\n' ∉ (closeLine line).toList := by
  obtain ⟨cs, split, rfl⟩ := List.mem_map.mp member
  have free := Text.notMem_dropLast_of_mem_splitLinesFrom List.not_mem_nil split
  rcases closeLine_cases (String.ofList cs) with ended | ⟨whole, last⟩
  · rw [← String.toList_ofList (l := cs), ended, String.toList_append] at free
    simpa using free
  · rw [String.toList_ofList] at last
    rw [whole, String.toList_ofList]
    exact fun inside => free (List.mem_dropLast_of_mem_of_ne_getLast? inside (Ne.symm last))

theorem flatMap_linesOn_shownBetween (side : Side) (before after : String) :
    (shownBetween before after).flatMap (LineEdit.linesOn side) =
      (side.pick (Text.lines before) (Text.lines after)).map closeLine := by
  rw [shownBetween, flatMap_linesOn_shownEdits]
  cases side with
  | old => exact congrArg _ (flatMap_oldLines_script _ _)
  | new => exact congrArg _ (flatMap_newLines_script _ _)

theorem shows_shownHunks (before after : String) :
    Patch.Shows (fun _ => 0) (shownHunks before after) (shownBetween before after) :=
  shows_hunks _

/-- No line that a diff shows has a line feed. -/
theorem notMem_of_mem_shownHunks {before after : String} {text : String}
    (shown : text ∈ (shownHunks before after).flatMap Patch.Hunk.texts) : '\n' ∉ text.toList := by
  obtain ⟨hunk, member, inHunk⟩ := List.mem_flatMap.mp shown
  rcases List.mem_cons.mp inHunk with rfl | isEdit
  · exact notMem_head hunk
  obtain ⟨edit, among, rfl⟩ := List.mem_map.mp isEdit
  have isShown := (shows_shownHunks before after).mem_edits member among
  -- The line is one of the lines of one of the two texts, closed.
  have free (side : Side) {line : String} (ofEdit : line ∈ edit.linesOn side) :
      '\n' ∉ line.toList := by
    have ofTexts := List.mem_flatMap.mpr ⟨edit, isShown, ofEdit⟩
    rw [flatMap_linesOn_shownBetween] at ofTexts
    obtain ⟨whole, ofText, rfl⟩ := List.mem_map.mp ofTexts
    cases side <;> exact notMem_closeLine ofText
  cases edit with
  | kept line => simpa [Patch.editText] using free .old (.head _)
  | removed line => simpa [Patch.editText] using free .old (.head _)
  | added line => simpa [Patch.editText] using free .new (.head _)

/-- The two lines above the hunks, when the name has no line feed. -/
theorem map_closeLine_names {file : String} (inLine : '\n' ∉ file.toList) :
    ["--- a/" ++ file, "+++ b/" ++ file].map closeLine =
      ["--- " ++ ("a/" ++ file), "+++ " ++ ("b/" ++ file)] := by
  have joined : "--- a/" ++ file = "--- " ++ ("a/" ++ file) ∧
      "+++ b/" ++ file = "+++ " ++ ("b/" ++ file) := by
    rw [← String.append_assoc, ← String.append_assoc]
    exact ⟨rfl, rfl⟩
  rw [List.map_cons, List.map_singleton, closeLine_of_notMem (by simp [inLine]),
    closeLine_of_notMem (by simp [inLine]), joined.1, joined.2]

/-- **A diff is read as a patch with the hunks of the script.** -/
theorem ofText?_unified {file before after : String} (inLine : '\n' ∉ file.toList)
    (different : before ≠ after) :
    Patch.ofText? (unified file before after) =
      some ⟨"a/" ++ file, "b/" ++ file, shownHunks before after⟩ := by
  have cut : Text.splitOn '\n' (unified file before after).toList =
      (("--- " ++ ("a/" ++ file)) :: ("+++ " ++ ("b/" ++ file)) ::
        (shownHunks before after).flatMap Patch.Hunk.texts).map String.toList := by
    rw [unified_of_ne file different, map_closeLine_names inLine]
    refine Text.splitOn_toList_intercalate (by simp) fun text member => ?_
    rcases List.mem_append.mp member with isName | isShown
    · rcases List.mem_cons.mp isName with rfl | isSecond
      · simp [inLine]
      · rw [List.mem_singleton.mp isSecond]
        simp [inLine]
    · exact notMem_of_mem_shownHunks isShown
  have named (start rest : String) :
      (start ++ rest).toList.dropPrefix? start.toList = some rest.toList := by
    rw [String.toList_append, Patch.dropPrefix?_append]
  rw [Patch.ofText?, cut, List.map_map]
  simp only [List.map_cons, Function.comp_apply, String.ofList_toList]
  rw [named, named]
  have texts : ((shownHunks before after).flatMap Patch.Hunk.texts).map
      (String.ofList ∘ String.toList) = (shownHunks before after).flatMap Patch.Hunk.texts := by
    simp [Function.comp_def]
  rw [texts, Patch.readHunks_texts (shows_shownHunks before after).counts]
  simp only [Option.bind_eq_bind, Option.bind_some, String.ofList_toList]
  rfl

end Diff

/-! ## Texts in which line feeds end the lines -/

namespace Patch

/-- The rows of a text are the lines of which it consists, when each ends in a line feed. -/
theorem ofRows_rows {text : String} (ends : text = "" ∨ text.toList.getLast? = some '\n') :
    ofRows (rows text) = text := by
  have whole := Text.flatMap_dropLast_splitOn '\n' text.toList
  rw [Text.getLast?_splitOn (by simpa using ends), List.append_nil] at whole
  rw [← String.toList_inj, ofRows, String.toList_join, rows, List.map_map, List.flatMap_map]
  simpa using whole

theorem lines_ofRows {rows : List String}
    (free : ∀ row ∈ rows, ∀ c ∈ row.toList, Text.isLineBreak c = false) :
    Text.lines (ofRows rows) = rows.map (· ++ "\n") := by
  have split : Text.splitLines (ofRows rows).toList = rows.map (·.toList ++ ['\n']) := by
    rw [ofRows, String.toList_join, List.flatMap_map]
    induction rows with
    | nil => rfl
    | cons row rows ih =>
        have later := ih fun other member => free other (List.mem_cons_of_mem _ member)
        have here := Text.splitLinesFrom_append (free row List.mem_cons_self) []
        rw [Text.splitLines] at later
        simp only [String.toList_append, List.flatMap_cons, List.map_cons] at later ⊢
        rw [Text.splitLines, List.append_assoc]
        exact (here _).trans (congrArg _ later)
  rw [Text.lines, split, List.map_map]
  refine List.map_congr_left fun row _ => ?_
  rw [Function.comp_apply, String.ofList_append, String.ofList_toList]

end Patch

namespace Diff

/-- The lines of such a text without their line feeds. -/
theorem map_closeLine_lines {text : String} (plain : Text.LineFeedsOnly text) :
    (Text.lines text).map closeLine = Patch.rows text := by
  have whole := Patch.ofRows_rows plain.ends
  have free : ∀ row ∈ Patch.rows text, ∀ c ∈ row.toList, Text.isLineBreak c = false := by
    intro row member c among
    -- A row is a part between line feeds, and its characters are some of the text's.
    have inText : c ∈ text.toList := by
      rw [← whole, Patch.ofRows, String.toList_join, List.flatMap_map]
      exact List.mem_flatMap.mpr ⟨row, member, by simp [among]⟩
    obtain ⟨part, isPart, rfl⟩ := List.mem_map.mp member
    rw [String.toList_ofList] at among
    have parted := Text.notMem_of_mem_splitOn (List.dropLast_subset _ isPart)
    by_contra isBreak
    rw [plain.only c inText (Bool.eq_true_of_not_eq_false isBreak)] at among
    exact parted among
  conv_lhs => rw [← whole, Patch.lines_ofRows free, List.map_map]
  have closed (row : String) : (closeLine ∘ (· ++ "\n")) row = row := closeLine_append_lineFeed row
  exact (List.map_congr_left fun row _ => closed row).trans (List.map_id' _)

/-- **A diff is a patch.** Its hunks lead from the lines of the one text to those of the other, and
applied to the first text it gives the second. -/
theorem unified_is_patch {file before after : String} (inLine : '\n' ∉ file.toList)
    (plainBefore : Text.LineFeedsOnly before) (plainAfter : Text.LineFeedsOnly after) :
    (unified file before after = "" ↔ before = after) ∧
      (before ≠ after → ∃ patch, Patch.ofText? (unified file before after) = some patch ∧
        patch.oldName = "a/" ++ file ∧ patch.newName = "b/" ++ file ∧
        Patch.Leads patch.hunks (Side.pick (Patch.rows before) (Patch.rows after)) ∧
        patch.applyTo before = some after) := by
  refine ⟨unified_eq_empty_iff,
    fun different => ⟨_, ofText?_unified inLine different, rfl, rfl, ?_⟩⟩
  have shows := shows_shownHunks before after
  have sides (side : Side) : (shownBetween before after).flatMap (LineEdit.linesOn side) =
      side.pick (Patch.rows before) (Patch.rows after) := by
    rw [flatMap_linesOn_shownBetween, ← map_closeLine_lines plainBefore,
      ← map_closeLine_lines plainAfter]
    cases side <;> rfl
  constructor
  · rw [← funext sides]
    exact shows.leads
  · have applied := shows.applyFrom_eq
    rw [sides .old, sides .new] at applied
    rw [Patch.applyTo]
    exact (congrArg _ applied).trans (congrArg some (Patch.ofRows_rows plainAfter.ends))

theorem unified_is_patch_hooks :
    let before := "React.useId();\n"
    let after := "useId();\n"
    Text.LineFeedsOnly before ∧ Text.LineFeedsOnly after ∧
      ∃ patch, Patch.ofText? (unified "src/app.ts" before after) = some patch ∧
        patch.oldName = "a/src/app.ts" ∧ patch.newName = "b/src/app.ts" ∧
        patch.applyTo before = some after := by
  intro before after
  have plainBefore : Text.LineFeedsOnly before :=
    ⟨.inr (by decide +kernel), by simp [before, Text.isLineBreak]⟩
  have plainAfter : Text.LineFeedsOnly after :=
    ⟨.inr (by decide +kernel), by simp [after, Text.isLineBreak]⟩
  obtain ⟨_, isPatch⟩ :=
    unified_is_patch (by decide +kernel : '\n' ∉ "src/app.ts".toList) plainBefore
    plainAfter
  obtain ⟨patch, read, oldName, newName, _, applied⟩ := isPatch (by decide +kernel)
  exact ⟨plainBefore, plainAfter, patch, read, oldName, newName, applied⟩

end Diff

end Unqualify
