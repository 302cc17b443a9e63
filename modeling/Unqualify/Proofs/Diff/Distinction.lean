import Unqualify.Proofs.Diff.Unified

/-!
# Which texts a diff tells apart

A diff shows lines without the line feeds at their ends. But for these, the script can be told from
it: the kept lines that it leaves out are lines of the first text (`shownHunks_eq_iff`). So two
texts have the same diff from a third one exactly when the edits that lead to them are shown alike
(`same_diff_iff`).

Such texts have the same lines but for the line feeds at their ends. They are equal when a line feed
ends each line but the last in both of them, and the last in both or in neither. Otherwise they need
not be: a line feed at the end of a text that comes or goes is not shown (`final_line_feed_lost`).
-/

set_option autoImplicit false

namespace Unqualify

namespace Diff

/-! ## Scripts of other lines -/

/-- The same segment of other lines. -/
def Segment.map (alter : String → String) : Segment → Segment
  | .keep lines => .keep (lines.map alter)
  | .change old new => .change (old.map alter) (new.map alter)

/-- The same hunk of other lines. -/
def Hunk.map (alter : String → String) (hunk : Hunk) : Hunk :=
  { hunk with body := hunk.body.map (Segment.map alter) }

variable (alter : String → String)

theorem Segment.isKeep_map (segment : Segment) : (segment.map alter).isKeep = segment.isKeep := by
  cases segment <;> rfl

theorem Segment.oldLines_map (segment : Segment) :
    (segment.map alter).oldLines = segment.oldLines.map alter := by
  cases segment <;> rfl

theorem Segment.newLines_map (segment : Segment) :
    (segment.map alter).newLines = segment.newLines.map alter := by
  cases segment <;> rfl

theorem Segment.edits_map (segment : Segment) :
    (segment.map alter).edits = segment.edits.map (LineEdit.map alter) := by
  cases segment <;> simp [map, edits, LineEdit.map, Function.comp_def]

theorem Alternates.map {script : List Segment} (alternates : Alternates script) :
    Alternates (script.map (Segment.map alter)) where
  alternate := by
    rw [List.isChain_map]
    exact alternates.alternate.imp fun first second apart => by
      rwa [Segment.isKeep_map, Segment.isKeep_map]
  nonempty segment member := by
    obtain ⟨whole, isPart, rfl⟩ := List.mem_map.mp member
    have some := alternates.nonempty whole isPart
    cases whole <;> simp_all [Segment.map]

namespace Hunk

theorem oldCount_map (hunk : Hunk) : (hunk.map alter).oldCount = hunk.oldCount := by
  simp [oldCount, map, List.flatMap_map, Segment.oldLines_map, List.length_flatMap]

theorem newCount_map (hunk : Hunk) : (hunk.map alter).newCount = hunk.newCount := by
  simp [newCount, map, List.flatMap_map, Segment.newLines_map, List.length_flatMap]

theorem push_map (hunk : Hunk) (segment : Segment) :
    (hunk.map alter).push (segment.map alter) = (hunk.push segment).map alter := by
  simp [push, map]

theorem openAfter_map (hunk : Hunk) (skipped : Nat) :
    (hunk.map alter).openAfter skipped = (hunk.openAfter skipped).map alter := by
  rw [openAfter, oldCount_map, newCount_map]
  rfl

end Hunk

theorem partFrom_map (current : Hunk) (script : List Segment) :
    partFrom (current.map alter) (script.map (Segment.map alter)) =
      (partFrom current script).map (Hunk.map alter) := by
  fun_induction partFrom current script with
  | case1 current empty => simp [partFrom, Hunk.map, empty]
  | case2 current nonempty => simp [partFrom, Hunk.map, nonempty]
  | case3 current lines rest long closed next ih =>
      have close : (current.map alter).push (.keep ((lines.map alter).take contextSize)) =
          closed.map alter := by
        rw [← List.map_take]
        exact current.push_map alter (.keep _)
      have go : (next.map alter).push
          (.keep ((lines.map alter).drop (lines.length - contextSize))) =
            (next.push (.keep (lines.drop (lines.length - contextSize)))).map alter := by
        rw [← List.map_drop]
        exact next.push_map alter (.keep _)
      rw [List.map_cons, Segment.map, partFrom, List.length_map, if_pos long, List.map_cons, ← ih,
        ← go]
      simp only [close, Hunk.openAfter_map]
      rfl
  | case4 current lines rest short ih =>
      rw [List.map_cons, Segment.map, partFrom, List.length_map, if_neg short, ← ih,
        ← Hunk.push_map]
      rfl
  | case5 current old new rest ih =>
      rw [List.map_cons, Segment.map, partFrom, ← ih, ← Hunk.push_map]
      rfl

theorem shortenEnd_map (script : List Segment) :
    shortenEnd (script.map (Segment.map alter)) = (shortenEnd script).map (Segment.map alter) := by
  cases last : script.getLast? with
  | none => simp [shortenEnd, List.getLast?_map, last]
  | some segment =>
      cases segment <;> simp [shortenEnd, List.getLast?_map, last, Segment.map, List.map_take]

/-- **Hunks are parted by the numbers of lines alone.** -/
theorem hunks_map (script : List Segment) :
    hunks (script.map (Segment.map alter)) = (hunks script).map (Hunk.map alter) := by
  match script with
  | [] => rfl
  | .change old new :: rest =>
      rw [hunks, hunks, ← partFrom_map, ← shortenEnd_map]
      · rfl
      · nofun
      · nofun
  | .keep lines :: rest =>
      rw [List.map_cons, Segment.map, hunks, hunks, ← partFrom_map, ← shortenEnd_map]
      simp only [List.length_map, List.map_cons, Segment.map, List.map_drop]
      rfl

/-! ## Hunks and the edits that they show -/

/-- A hunk as it is written when its lines are shown as they are. -/
def Hunk.plain (hunk : Hunk) : Patch.Hunk where
  old := .after hunk.oldStart hunk.oldCount
  new := .after hunk.newStart hunk.newCount
  edits := hunk.body.flatMap Segment.edits

theorem flatMap_edits_map (script : List Segment) :
    (script.map (Segment.map alter)).flatMap Segment.edits =
      (script.flatMap Segment.edits).map (LineEdit.map alter) := by
  rw [List.flatMap_map, List.map_flatMap]
  exact List.flatMap_congr fun segment _ => segment.edits_map alter

theorem Hunk.shown_eq (hunk : Hunk) : hunk.shown = (hunk.map closeLine).plain := by
  rw [shown, plain, oldCount_map, newCount_map, Hunk.map, flatMap_edits_map]
  rfl

theorem map_shown_hunks (script : List Segment) :
    (hunks script).map Hunk.shown =
      (hunks (script.map (Segment.map closeLine))).map Hunk.plain := by
  rw [hunks_map, List.map_map]
  exact List.map_congr_left fun hunk _ => hunk.shown_eq

/-- **The hunks tell as much as all the edits.** -/
theorem shownHunks_eq_iff (before first second : String) :
    shownHunks before first = shownHunks before second ↔
      shownBetween before first = shownBetween before second := by
  constructor
  · intro same
    have shows := shows_shownHunks before second
    rw [← same] at shows
    have old (after : String) : (shownBetween before after).flatMap (LineEdit.linesOn .old) =
        (Text.lines before).map closeLine :=
      flatMap_linesOn_shownBetween .old before after
    exact (shows_shownHunks before first).unique shows ((old first).trans (old second).symm)
  · intro same
    simp only [shownBetween, shownEdits, ← flatMap_edits_map] at same
    rw [shownHunks, shownHunks, map_shown_hunks, map_shown_hunks,
      ((alternates_script _ _).map closeLine).eq_of_flatMap_edits
        ((alternates_script _ _).map closeLine) same]

/-! ## Diffs of the same file -/

/-- **Two diffs of a file are equal when they show the same hunks, and only then.** -/
theorem unified_eq_iff_of_ne (file : String) {before first second : String}
    (ofFirst : before ≠ first)
    (ofSecond : before ≠ second) :
    unified file before first = unified file before second ↔
      shownHunks before first = shownHunks before second := by
  rw [unified_of_ne file ofFirst, unified_of_ne file ofSecond, Text.intercalate_append (by simp),
    Text.intercalate_append (by simp)]
  constructor
  · intro same
    have free (after : String) :
        ∀ text ∈ "" :: (shownHunks before after).flatMap Patch.Hunk.texts, '\n' ∉ text.toList :=
      List.forall_mem_cons.mpr ⟨by simp, fun _ => notMem_of_mem_shownHunks⟩
    have texts :=
      Text.eq_of_intercalate_eq (List.cons_ne_nil _ _) (List.cons_ne_nil _ _) (free first)
      (free second) ((String.append_right_inj _).mp same)
    have read := congrArg Patch.readHunks (List.cons.inj texts).2
    rw [Patch.readHunks_texts (shows_shownHunks before first).counts,
      Patch.readHunks_texts (shows_shownHunks before second).counts] at read
    exact Option.some.inj read
  · intro same
    rw [same]

/-! ## Lines but for the line feeds at their ends -/

theorem eq_of_closeLine_eq {first second : String} (same : closeLine first = closeLine second)
    (alike : Text.EndAlike first second) : first = second := by
  have feed (line : String) : (line ++ "\n").toList.getLast? = some '\n' := by simp
  rcases closeLine_cases first with ended | ⟨whole, last⟩
  · rcases closeLine_cases second with ended' | ⟨_, last'⟩
    · rw [ended, ended', same]
    · exact absurd (alike.mp (by rw [ended]; exact feed _)) last'
  · rcases closeLine_cases second with ended' | ⟨whole', _⟩
    · exact absurd (alike.mpr (by rw [ended']; exact feed _)) last
    · rw [← whole, same, whole']

theorem eq_of_map_closeLine_eq {first second : List String}
    (same : first.map closeLine = second.map closeLine)
    (feedsFirst : ∀ line ∈ first.dropLast, line.toList.getLast? = some '\n')
    (feedsSecond : ∀ line ∈ second.dropLast, line.toList.getLast? = some '\n')
    (alike : ∀ last ∈ first.getLast?, ∀ last' ∈ second.getLast?, Text.EndAlike last last') :
    first = second := by
  induction first generalizing second with
  | nil => exact (List.map_eq_nil_iff.mp same.symm).symm
  | cons line first ih =>
      obtain ⟨line', second', rfl, here, later⟩ := List.map_eq_cons_iff.mp same.symm
      cases first with
      | nil =>
          obtain rfl := List.map_eq_nil_iff.mp later
          rw [eq_of_closeLine_eq here.symm (alike line rfl line' rfl)]
      | cons next first =>
          obtain ⟨next', second, rfl, _, _⟩ := List.map_eq_cons_iff.mp later
          have ended := iff_of_true (feedsFirst line List.mem_cons_self)
            (feedsSecond line' List.mem_cons_self)
          rw [eq_of_closeLine_eq here.symm ended,
            ih later.symm (fun other member => feedsFirst other (List.mem_cons_of_mem _ member))
              (fun other member => feedsSecond other (List.mem_cons_of_mem _ member))
              (by simpa using alike)]

/-- Texts in which a line feed ends each line but the last, and the last in both or in neither, are
equal when their lines are but for line feeds at the ends. -/
theorem eq_of_lines_closed {first second : String}
    (same : (Text.lines first).map closeLine = (Text.lines second).map closeLine)
    (feedsFirst : Text.LineFeedsBetween first) (feedsSecond : Text.LineFeedsBetween second)
    (alike : Text.EndAlike first second) : first = second := by
  refine Text.eq_of_lines_eq (eq_of_map_closeLine_eq same feedsFirst feedsSecond ?_)
  intro last isLast last' isLast'
  rwa [Text.EndAlike, ← Text.getLast?_of_lines isLast, ← Text.getLast?_of_lines isLast']

/-! ## Telling texts apart -/

/-- The edits that lead from a text to two others are shown alike. -/
def ShownAlike (before first second : String) : Prop :=
  before ≠ first ∧ before ≠ second ∧ shownBetween before first = shownBetween before second

theorem ShownAlike.lines_closed {before first second : String}
    (alike : ShownAlike before first second) :
    (Text.lines first).map closeLine = (Text.lines second).map closeLine := by
  have lines := congrArg (List.flatMap (LineEdit.linesOn .new)) alike.2.2
  rwa [flatMap_linesOn_shownBetween, flatMap_linesOn_shownBetween] at lines

theorem unified_eq_iff (file before first second : String) :
    unified file before first = unified file before second ↔
      first = second ∨ ShownAlike before first second := by
  constructor
  · intro same
    by_cases ofFirst : before = first
    · have empty := same.symm.trans (unified_eq_empty_iff.mpr ofFirst)
      exact .inl (ofFirst.symm.trans (unified_eq_empty_iff.mp empty))
    · by_cases ofSecond : before = second
      · have empty := same.trans (unified_eq_empty_iff.mpr ofSecond)
        exact absurd (unified_eq_empty_iff.mp empty) ofFirst
      · have hunks := (unified_eq_iff_of_ne file ofFirst ofSecond).mp same
        exact .inr ⟨ofFirst, ofSecond, (shownHunks_eq_iff before first second).mp hunks⟩
  · rintro (rfl | ⟨ofFirst, ofSecond, shown⟩)
    · rfl
    · exact (unified_eq_iff_of_ne file ofFirst ofSecond).mpr
        ((shownHunks_eq_iff before first second).mpr shown)

/-- **Two texts have the same diff from a third one exactly when they are equal or the edits that
lead to them are shown alike.** The lines of such texts are the same but for line feeds at their
ends. The texts are the same when a line feed ends each line but the last in both of them, and the
last in both or in neither. -/
theorem same_diff_iff (file before first second : String) :
    (unified file before first = unified file before second ↔
      first = second ∨ ShownAlike before first second) ∧
    (unified file before first = unified file before second →
      (Text.lines first).map closeLine = (Text.lines second).map closeLine) ∧
    (Text.LineFeedsBetween first → Text.LineFeedsBetween second → Text.EndAlike first second →
      (unified file before first = unified file before second ↔ first = second)) := by
  have lines (same : unified file before first = unified file before second) :
      (Text.lines first).map closeLine = (Text.lines second).map closeLine := by
    rcases (unified_eq_iff file before first second).mp same with rfl | alike
    · rfl
    · exact alike.lines_closed
  refine ⟨unified_eq_iff file before first second, lines,
    fun feedsFirst feedsSecond alike => ⟨?_, ?_⟩⟩
  · exact fun same => eq_of_lines_closed (lines same) feedsFirst feedsSecond alike
  · rintro rfl
    rfl

theorem same_diff_iff_hooks :
    let first := "useId();\n"
    let second := "useId();\n\n"
    Text.LineFeedsBetween first ∧ Text.LineFeedsBetween second ∧ Text.EndAlike first second ∧
      unified "src/app.ts" "React.useId();\n" first ≠
        unified "src/app.ts" "React.useId();\n" second := by
  intro first second
  have feedsFirst : Text.LineFeedsBetween first := by decide +kernel
  have feedsSecond : Text.LineFeedsBetween second := by decide +kernel
  have alike : Text.EndAlike first second := by decide +kernel
  obtain ⟨_, _, told⟩ := same_diff_iff "src/app.ts" "React.useId();\n" first second
  refine ⟨feedsFirst, feedsSecond, alike, ?_⟩
  rw [ne_eq, told feedsFirst feedsSecond alike]
  decide +kernel

/-- A line feed at the end of a text is not shown, nor is one after a carriage return. -/
theorem final_line_feed_lost :
    ("a" ≠ "a\n" ∧ unified "f" "b\n" "a" = unified "f" "b\n" "a\n") ∧
      "a\rb\n" ≠ "a\r\nb\n" ∧ unified "f" "x\n" "a\rb\n" = unified "f" "x\n" "a\r\nb\n" := by
  decide +kernel

end Diff

end Unqualify
