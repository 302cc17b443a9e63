import Unqualify.Proofs.Diff.Patch

/-!
# The hunks of a script

A script is parted into hunks at long runs of kept lines. What falls away is kept on both sides, and
the starts of the hunks count it, so that the hunks show all that the script does (`shows_hunks`). A
diff shows each line without the line feed at its end, and so the same is said of the lines without
it.
-/

set_option autoImplicit false

namespace Unqualify.Diff

/-! ## Edits as they are shown -/

/-- The same edit of another line. -/
def LineEdit.map (change : String → String) : LineEdit → LineEdit
  | kept line => kept (change line)
  | removed line => removed (change line)
  | added line => added (change line)

theorem LineEdit.linesOn_map (change : String → String) (side : Side) (edit : LineEdit) :
    (edit.map change).linesOn side = (edit.linesOn side).map change := by
  cases side <;> cases edit <;> rfl

/-- The edits of a script as they are shown. -/
def shownEdits (script : List Segment) : List LineEdit :=
  (script.flatMap Segment.edits).map (LineEdit.map closeLine)

theorem shownEdits_append (first second : List Segment) :
    shownEdits (first ++ second) = shownEdits first ++ shownEdits second := by
  rw [shownEdits, List.flatMap_append, List.map_append]
  rfl

theorem shownEdits_keep (lines : List String) (script : List Segment) :
    shownEdits (.keep lines :: script) = (lines.map closeLine).map .kept ++ shownEdits script := by
  rw [shownEdits, List.flatMap_cons, List.map_append, Segment.edits, List.map_map, List.map_map]
  rfl

theorem flatMap_linesOn_edits (side : Side) (script : List Segment) :
    (script.flatMap Segment.edits).flatMap (LineEdit.linesOn side) =
      script.flatMap (Segment.linesOn side) := by
  rw [List.flatMap_assoc]
  exact List.flatMap_congr fun segment _ => segment.flatMap_edits side

theorem flatMap_linesOn_shownEdits (side : Side) (script : List Segment) :
    (shownEdits script).flatMap (LineEdit.linesOn side) =
      (script.flatMap (Segment.linesOn side)).map closeLine := by
  rw [shownEdits, List.flatMap_map, ← flatMap_linesOn_edits, List.map_flatMap]
  exact List.flatMap_congr fun edit _ => edit.linesOn_map closeLine side

/-! ## Hunks as they are shown -/

namespace Hunk

/-- How many lines of a list come before a hunk. -/
def position (hunk : Hunk) : Side → Nat
  | .old => hunk.oldStart
  | .new => hunk.newStart

/-- How many lines of a list are in a hunk. -/
def count (hunk : Hunk) : Side → Nat
  | .old => hunk.oldCount
  | .new => hunk.newCount

/-- A hunk as it is shown. -/
def shown (hunk : Hunk) : Patch.Hunk where
  old := .after hunk.oldStart hunk.oldCount
  new := .after hunk.newStart hunk.newCount
  edits := shownEdits hunk.body

theorem range_shown (hunk : Hunk) (side : Side) :
    hunk.shown.range side = .after (hunk.position side) (hunk.count side) := by
  cases side <;> rfl

theorem length_linesOn_shown (hunk : Hunk) (side : Side) :
    (hunk.shown.linesOn side).length = hunk.count side := by
  rw [Patch.Hunk.linesOn, shown, flatMap_linesOn_shownEdits, List.length_map]
  cases side <;> rfl

theorem position_openAfter (hunk : Hunk) (skipped : Nat) (side : Side) :
    (hunk.openAfter skipped).position side = hunk.position side + hunk.count side + skipped := by
  cases side <;> rfl

theorem position_push (hunk : Hunk) (segment : Segment) :
    (hunk.push segment).position = hunk.position := by
  funext side
  cases side <;> rfl

/-- A hunk shows its own edits in front of what comes after it. -/
theorem shows_cons (hunk : Hunk) {hunks : List Patch.Hunk} {edits : List LineEdit}
    (later : Patch.Shows (fun side => hunk.position side + hunk.count side) hunks edits) :
    Patch.Shows hunk.position (hunk.shown :: hunks) (shownEdits hunk.body ++ edits) := by
  have ranges (side : Side) : hunk.shown.range side =
      .after (hunk.position side + ([] : List String).length) (hunk.shown.linesOn side).length := by
    rw [range_shown, length_linesOn_shown]
    rfl
  refine .hunk [] ranges ?_
  simpa [range_shown] using later

end Hunk

/-- The middle of kept lines that are too many for one hunk. -/
theorem shownEdits_long {lines : List String} (long : 2 * contextSize < lines.length)
    (before script : List Segment) :
    shownEdits (before ++ .keep lines :: script) =
      shownEdits (before ++ [.keep (lines.take contextSize)]) ++
        ((((lines.drop contextSize).take (lines.length - 2 * contextSize)).map closeLine).map
            .kept ++
          shownEdits (.keep (lines.drop (lines.length - contextSize)) :: script)) := by
  have size : contextSize + (lines.length - 2 * contextSize) = lines.length - contextSize := by
    unfold contextSize at *
    omega
  have split := take_append_take_append_drop lines contextSize (lines.length - 2 * contextSize)
  rw [size] at split
  have closed := congrArg (List.map LineEdit.kept) (congrArg (List.map closeLine) split)
  simp only [List.map_append] at closed
  simp only [shownEdits_append, shownEdits_keep, ← closed, List.append_assoc]
  rfl

/-- **Parting a script into hunks shows all of it.** -/
theorem shows_partFrom (current : Hunk) (script : List Segment) :
    Patch.Shows current.position ((partFrom current script).map Hunk.shown)
      (shownEdits (current.body ++ script)) := by
  fun_induction partFrom current script with
  | case1 current empty =>
      rw [List.isEmpty_iff.mp empty]
      exact .rest []
  | case2 current nonempty =>
      rw [shownEdits_append]
      exact current.shows_cons (.rest [])
  | case3 current lines rest long closed next ih =>
      rw [shownEdits_long long, List.map_cons]
      refine closed.shows_cons (.skip _ ?_)
      rw [Hunk.position_push] at ih
      have starts : (fun side => closed.position side + closed.count side +
          (((lines.drop contextSize).take (lines.length - 2 * contextSize)).map closeLine).length) =
            next.position := by
        funext side
        rw [List.length_map, List.length_take, List.length_drop, Hunk.position_openAfter]
        unfold contextSize at *
        omega
      rw [starts]
      exact ih
  | case4 current lines rest short ih =>
      rw [Hunk.position_push, Hunk.push, List.append_assoc] at ih
      exact ih
  | case5 current old new rest ih =>
      rw [Hunk.position_push, Hunk.push, List.append_assoc] at ih
      exact ih

/-- What falls away at the end of a script are kept lines. -/
theorem exists_shortenEnd (script : List Segment) :
    ∃ lines : List String,
      shownEdits script = shownEdits (shortenEnd script) ++ lines.map .kept := by
  rw [shortenEnd]
  split
  next lines last =>
    obtain ⟨before, rfl⟩ := List.getLast?_eq_some_iff.mp last
    refine ⟨(lines.drop contextSize).map closeLine, ?_⟩
    have split : lines.map closeLine = (lines.take contextSize).map closeLine ++
        (lines.drop contextSize).map closeLine := by
      rw [← List.map_append, List.take_append_drop]
    rw [List.dropLast_concat, shownEdits_append, shownEdits_append, shownEdits_keep,
      shownEdits_keep, split, List.map_append]
    simp [shownEdits]
  next => exact ⟨[], (List.append_nil _).symm⟩

/-- The hunks into which a script is parted show it, also when kept lines at its end are
shortened. -/
theorem shows_partFrom_shortenEnd (current : Hunk) (empty : current.body = [])
    (script : List Segment) :
    Patch.Shows current.position ((partFrom current (shortenEnd script)).map Hunk.shown)
      (shownEdits script) := by
  obtain ⟨lines, split⟩ := exists_shortenEnd script
  have shows := shows_partFrom current (shortenEnd script)
  rw [empty, List.nil_append] at shows
  rw [split]
  exact shows.append_kept lines

/-- **The hunks of a script show all that it does.** -/
theorem shows_hunks (script : List Segment) :
    Patch.Shows (fun _ => 0) ((hunks script).map Hunk.shown) (shownEdits script) := by
  have starts (skipped : Nat) :
      (⟨skipped, skipped, []⟩ : Hunk).position = fun _ => 0 + skipped := by
    funext side
    cases side <;> exact (Nat.zero_add skipped).symm
  rw [hunks.eq_def]
  split
  next lines rest =>
    -- The kept lines that fall away at the start are counted by the first hunk.
    have skipped : (lines.take (lines.length - contextSize)).length = lines.length - contextSize :=
      List.length_take_of_le (Nat.sub_le _ _)
    have split : (lines.map closeLine).map LineEdit.kept =
        ((lines.take (lines.length - contextSize)).map closeLine).map .kept ++
          ((lines.drop (lines.length - contextSize)).map closeLine).map .kept := by
      rw [← List.map_append, ← List.map_append, List.take_append_drop]
    rw [shownEdits_keep, split, List.append_assoc, ← shownEdits_keep]
    apply Patch.Shows.skip
    rw [List.length_map, skipped, ← starts]
    exact shows_partFrom_shortenEnd _ rfl _
  next =>
    rw [← starts 0]
    exact shows_partFrom_shortenEnd _ rfl _

end Unqualify.Diff
