import Mathlib.Data.List.Chain
import Mathlib.Data.List.TakeWhile
import Unqualify.Diff.Unified

/-!
# What a script says

A script speaks of every line of the old list and of every line of the new one, in order
(`flatMap_oldLines_script`, `flatMap_newLines_script`). The search for long runs matters for this in
one point only: it never leaves the new list (`newStart_longestFrom_le`). Whatever it answers within
the list, the run around that place agrees on both sides (`agree_around`).

Kept lines and changes alternate in a script, and none of them is empty (`alternates_script`). So a
script is known once it is known what it does with each line (`Alternates.eq_of_flatMap_edits`).
-/

set_option autoImplicit false

namespace Unqualify.Diff

/-! ## Lines that agree -/

theorem take_commonPrefix (first second : List String) :
    first.take (commonPrefix first second) = second.take (commonPrefix first second) := by
  fun_induction commonPrefix first second with
  | case1 a as b bs same ih =>
      rw [List.take_succ_cons, List.take_succ_cons, ih, beq_iff_eq.mp same]
  | case2 => rfl
  | case3 => rfl

theorem commonPrefix_le (first second : List String) :
    commonPrefix first second ≤ first.length ∧ commonPrefix first second ≤ second.length := by
  fun_induction commonPrefix first second with
  | case1 a as b bs same ih =>
      simp only [List.length_cons]
      omega
  | case2 => exact ⟨Nat.zero_le _, Nat.zero_le _⟩
  | case3 => exact ⟨Nat.zero_le _, Nat.zero_le _⟩

/-- The last lines before a place, as the first lines of what is before it in reverse. -/
theorem take_reverse_take {lines : List String} {place size : Nat} (inside : place ≤ lines.length)
    (fits : size ≤ place) :
    ((lines.take place).reverse.take size).reverse = (lines.drop (place - size)).take size := by
  rw [List.take_reverse, List.reverse_reverse, List.length_take_of_le inside, List.drop_take,
    Nat.sub_sub_self fits]

/-- **The lines around two places agree**, wherever in the two lists the places are. -/
theorem agree_around {old new : List String} {oldPlace newPlace : Nat}
    (inOld : oldPlace ≤ old.length) (inNew : newPlace ≤ new.length) :
    (old.drop (Run.around old new oldPlace newPlace).oldStart).take
        (Run.around old new oldPlace newPlace).size =
      (new.drop (Run.around old new oldPlace newPlace).newStart).take
        (Run.around old new oldPlace newPlace).size := by
  have shared := take_commonPrefix (old.take oldPlace).reverse (new.take newPlace).reverse
  have bounds := commonPrefix_le (old.take oldPlace).reverse (new.take newPlace).reverse
  simp only [List.length_reverse, List.length_take_of_le inOld, List.length_take_of_le inNew]
    at bounds
  simp only [Run.around]
  generalize commonPrefix (old.take oldPlace).reverse (new.take newPlace).reverse = before at *
  have joined (lines : List String) {place : Nat} (fits : before ≤ place) (after : Nat) :
      (lines.drop (place - before)).take (before + after) =
        (lines.drop (place - before)).take before ++ (lines.drop place).take after := by
    rw [List.take_add, List.drop_drop, Nat.sub_add_cancel fits]
  rw [joined old bounds.1, joined new bounds.2, ← take_reverse_take inOld bounds.1,
    ← take_reverse_take inNew bounds.2, shared, take_commonPrefix]

/-! ## The search stays in the new list -/

theorem mem_runsEnding {places : List Nat} {earlier : List (Nat × Nat)} {run : Nat × Nat}
    (found : run ∈ runsEnding places earlier) : run.1 ∈ places ∧ 0 < run.2 := by
  induction places generalizing earlier with
  | nil => exact nomatch found
  | cons place places ih =>
      rw [runsEnding] at found
      rcases List.mem_cons.mp found with rfl | later
      · refine ⟨List.mem_cons_self, ?_⟩
        dsimp only
        split
        · split <;> omega
        · exact Nat.one_pos
      · exact ⟨List.mem_cons_of_mem _ (ih later).1, (ih later).2⟩

theorem newStart_longerRun_le {index stop : Nat} {best : Run} {runs : List (Nat × Nat)}
    (inside : best.newStart ≤ stop) (each : ∀ run ∈ runs, run.1 < stop ∧ 0 < run.2) :
    (longerRun index best runs).newStart ≤ stop := by
  induction runs generalizing best with
  | nil => exact inside
  | cons run runs ih =>
      have here := each run List.mem_cons_self
      refine ih ?_ fun other member => each other (List.mem_cons_of_mem _ member)
      dsimp only
      split
      · dsimp only
        omega
      · exact inside

theorem newStart_longestFrom_le {start stop index : Nat} {best : Run} {earlier : List (Nat × Nat)}
    {old : List Sighted} (inside : best.newStart ≤ stop) :
    (longestFrom start stop index best earlier old).newStart ≤ stop := by
  induction old generalizing index best earlier with
  | nil => exact inside
  | cons line rest ih =>
      refine ih (newStart_longerRun_le inside fun run found => ?_)
      obtain ⟨isPlace, nonempty⟩ := mem_runsEnding found
      have before := List.mem_takeWhile_imp isPlace
      exact ⟨of_decide_eq_true before, nonempty⟩

/-- **The longest run is one that both lists have.** -/
theorem agree_longestRun {start : Nat} {old : List Sighted} {new : List String}
    (bounds : (longestRun start old new).oldStart + (longestRun start old new).size ≤ old.length) :
    ((old.drop (longestRun start old new).oldStart).take (longestRun start old new).size).map
      (·.text) =
      (new.drop (longestRun start old new).newStart).take (longestRun start old new).size := by
  rw [List.map_take, List.map_drop]
  rw [longestRun] at bounds ⊢
  apply agree_around
  · simp only [Run.around] at bounds
    have before := commonPrefix_le ((old.map (·.text)).take
      (longestFrom start (start + new.length) 0 ⟨0, start, 0⟩ [] old).oldStart).reverse (new.take
      ((longestFrom start (start + new.length) 0 ⟨0, start, 0⟩ [] old).newStart - start)).reverse
    simp only [List.length_reverse, List.length_take] at before
    rw [List.length_map]
    omega
  · have inside : (longestFrom start (start + new.length) 0 ⟨0, start, 0⟩ [] old).newStart ≤
        start + new.length := newStart_longestFrom_le (Nat.le_add_right _ _)
    omega

/-! ## Lines of a script -/

theorem take_append_take_append_drop {α : Type} (items : List α) (start size : Nat) :
    items.take start ++ ((items.drop start).take size ++ items.drop (start + size)) = items := by
  rw [← List.drop_drop, List.take_append_drop, List.take_append_drop]

theorem flatMap_segments (start : Nat) (old : List Sighted) (new : List String) :
    (segments start old new).flatMap Segment.oldLines = old.map (·.text) ∧
      (segments start old new).flatMap Segment.newLines = new := by
  fun_induction segments start old new with
  | case1 start old new run bounds before after =>
      have agree : ((old.drop run.oldStart).take run.size).map (·.text) =
          (new.drop run.newStart).take run.size := agree_longestRun bounds.2
      simp only [List.flatMap_append, List.flatMap_cons, Segment.oldLines, Segment.newLines]
      constructor
      · rw [before.1, after.1, ← List.map_append, ← List.map_append, take_append_take_append_drop]
      · rw [before.2, after.2, agree, take_append_take_append_drop]
  | case2 start old new run bounds =>
      simp [Segment.oldLines, Segment.newLines]

theorem flatMap_joinSegment (lines : Segment → List String) (none : lines (.change [] []) = [])
    (joins : ∀ first second,
      lines (.keep (first ++ second)) = lines (.keep first) ++ lines (.keep second))
    (segment : Segment) (script : List Segment) :
    (joinSegment segment script).flatMap lines = lines segment ++ script.flatMap lines := by
  fun_cases joinSegment segment script with
  | case1 => rw [none, List.nil_append]
  | case2 first second rest => rw [List.flatMap_cons, List.flatMap_cons, joins, List.append_assoc]
  | case3 => rw [List.flatMap_cons]

theorem flatMap_foldr_joinSegment (lines : Segment → List String)
    (none : lines (.change [] []) = [])
    (joins : ∀ first second,
      lines (.keep (first ++ second)) = lines (.keep first) ++ lines (.keep second))
    (parts : List Segment) :
    (parts.foldr joinSegment []).flatMap lines = parts.flatMap lines := by
  induction parts with
  | nil => rfl
  | cons segment parts ih =>
      rw [List.foldr_cons, flatMap_joinSegment lines none joins, ih, List.flatMap_cons]

/-- **A script speaks of the old lines.** -/
theorem flatMap_oldLines_script (old new : List String) :
    (script old new).flatMap Segment.oldLines = old := by
  rw [script, flatMap_foldr_joinSegment _ rfl fun _ _ => rfl, (flatMap_segments _ _ _).1,
    List.map_map]
  exact List.map_id old

/-- **A script speaks of the new lines.** -/
theorem flatMap_newLines_script (old new : List String) :
    (script old new).flatMap Segment.newLines = new := by
  rw [script, flatMap_foldr_joinSegment _ rfl fun _ _ => rfl, (flatMap_segments _ _ _).2]

/-! ## Kept lines and changes alternate -/

/-- Whether a segment keeps its lines. -/
def Segment.isKeep : Segment → Bool
  | .keep _ => true
  | .change _ _ => false

/-- Kept lines and changes alternate, and no segment is empty. -/
structure Alternates (script : List Segment) : Prop where
  alternate : script.IsChain fun first second => first.isKeep ≠ second.isKeep
  nonempty : ∀ segment ∈ script, segment ≠ .keep [] ∧ segment ≠ .change [] []

/-- Changes with kept lines between every two of them. -/
inductive Spans : List Segment → Prop where
  | change (old new : List String) : Spans [.change old new]
  | keep (old new : List String) {lines : List String} {rest : List Segment} (some : lines ≠ [])
      (later : Spans rest) : Spans (.change old new :: .keep lines :: rest)

theorem Spans.append {first second : List Segment} {lines : List String} (before : Spans first)
    (some : lines ≠ []) (after : Spans second) : Spans (first ++ .keep lines :: second) := by
  induction before with
  | change old new => exact .keep old new some after
  | keep old new between _ ih => exact .keep old new between ih

theorem spans_segments (start : Nat) (old : List Sighted) (new : List String) :
    Spans (segments start old new) := by
  fun_induction segments start old new with
  | case1 start old new run bounds before after =>
      refine before.append ?_ after
      rw [← List.length_pos_iff, List.length_map, List.length_take, List.length_drop]
      omega
  | case2 start old new run bounds => exact .change _ _

theorem alternates_cons_iff {segment : Segment} {script : List Segment} :
    Alternates (segment :: script) ↔
      (segment ≠ .keep [] ∧ segment ≠ .change [] []) ∧
        (∀ next ∈ script.head?, segment.isKeep ≠ next.isKeep) ∧ Alternates script := by
  constructor
  · rintro ⟨alternate, nonempty⟩
    obtain ⟨here, later⟩ := List.isChain_cons.mp alternate
    exact ⟨nonempty _ List.mem_cons_self, here, later,
      fun other member => nonempty other (List.mem_cons_of_mem _ member)⟩
  · rintro ⟨some, here, later⟩
    refine ⟨List.isChain_cons.mpr ⟨here, later.alternate⟩, fun other member => ?_⟩
    rcases List.mem_cons.mp member with rfl | among
    · exact some
    · exact later.nonempty other among

theorem alternates_nil : Alternates [] :=
  ⟨.nil, nofun⟩

theorem Alternates.joinSegment_change {script : List Segment} (alternates : Alternates script)
    (starts : ∀ next ∈ script.head?, next.isKeep = true) (old new : List String) :
    Alternates (joinSegment (.change old new) script) := by
  by_cases empty : Segment.change old new = .change [] []
  · rw [empty]
    exact alternates
  · have joined : joinSegment (.change old new) script = .change old new :: script := by
      rw [joinSegment]
      · exact empty
      · nofun
    rw [joined]
    refine alternates_cons_iff.mpr ⟨⟨nofun, empty⟩, fun next first => ?_, alternates⟩
    rw [starts next first]
    exact Bool.false_ne_true

theorem Alternates.joinSegment_keep {script : List Segment} (alternates : Alternates script)
    {lines : List String} (some : lines ≠ []) :
    Alternates (joinSegment (.keep lines) script) ∧
      ∀ next ∈ (joinSegment (.keep lines) script).head?, next.isKeep = true := by
  have apart {rest : List Segment} (starts : ∀ next ∈ rest.head?, next.isKeep = false)
      (later : Alternates rest) {lines : List String} (some : lines ≠ []) :
      Alternates (.keep lines :: rest) := by
    refine alternates_cons_iff.mpr ⟨⟨by simpa using some, nofun⟩, fun next first => ?_, later⟩
    rw [starts next first]
    exact Bool.false_ne_true.symm
  match script, alternates with
  | [], alternates => exact ⟨apart (by simp) alternates some, by simp [joinSegment, Segment.isKeep]⟩
  | .change old new :: rest, alternates =>
      exact ⟨apart (by simp [Segment.isKeep]) alternates some,
        by simp [joinSegment, Segment.isKeep]⟩
  | .keep more :: rest, alternates =>
      obtain ⟨_, here, later⟩ := alternates_cons_iff.mp alternates
      refine ⟨apart (fun next first => ?_) later (by simp [some]),
        by simp [joinSegment, Segment.isKeep]⟩
      simpa [Segment.isKeep] using (here next first).symm

/-- **Kept lines and changes alternate in a script.** -/
theorem alternates_script (old new : List String) : Alternates (script old new) := by
  have spans := spans_segments 0 (old.map (Sighted.of new)) new
  rw [script]
  generalize segments 0 (old.map (Sighted.of new)) new = parts at spans
  induction spans with
  | change old new => exact alternates_nil.joinSegment_change nofun old new
  | keep old new some later ih =>
      obtain ⟨alternates, starts⟩ := ih.joinSegment_keep some
      exact alternates.joinSegment_change starts old new

/-! ## A script line by line -/

/-- The two lists between which a script leads. -/
inductive Side where
  | old
  | new
  deriving DecidableEq, Repr

/-- That one of two things which belongs to a side. -/
def Side.pick {α : Type} (old new : α) : Side → α
  | .old => old
  | .new => new

/-- The lines of one of the two lists that a segment speaks of. -/
def Segment.linesOn : Side → Segment → List String
  | .old => Segment.oldLines
  | .new => Segment.newLines

/-- What is done with one line. -/
inductive LineEdit where
  | kept (line : String)
  | removed (line : String)
  | added (line : String)
  deriving DecidableEq, Repr

/-- The line of one of the two lists that an edit speaks of, if there is one. -/
def LineEdit.linesOn : Side → LineEdit → List String
  | _, kept line => [line]
  | .old, removed line => [line]
  | .new, removed _ => []
  | .old, added _ => []
  | .new, added line => [line]

/-- Whether an edit keeps its line. -/
def LineEdit.isKept : LineEdit → Bool
  | kept _ => true
  | removed _ => false
  | added _ => false

/-- The lines of a segment, each with what is done to it. -/
def Segment.edits : Segment → List LineEdit
  | .keep lines => lines.map .kept
  | .change old new => old.map .removed ++ new.map .added

theorem Segment.flatMap_edits (side : Side) (segment : Segment) :
    segment.edits.flatMap (LineEdit.linesOn side) = segment.linesOn side := by
  cases side <;> cases segment <;>
    simp [edits, linesOn, oldLines, newLines, List.flatMap_append, List.flatMap_map,
      LineEdit.linesOn]

theorem Segment.isKept_of_mem_edits {segment : Segment} {edit : LineEdit}
    (member : edit ∈ segment.edits) :
    edit.isKept = segment.isKeep := by
  cases segment with
  | keep lines =>
      obtain ⟨line, _, rfl⟩ := List.mem_map.mp member
      rfl
  | change old new =>
      rcases List.mem_append.mp member with isOld | isNew
      · obtain ⟨line, _, rfl⟩ := List.mem_map.mp isOld
        rfl
      · obtain ⟨line, _, rfl⟩ := List.mem_map.mp isNew
        rfl

theorem Segment.edits_eq_nil_iff {segment : Segment} :
    segment.edits = [] ↔ segment = .keep [] ∨ segment = .change [] [] := by
  cases segment <;> simp [edits]

/-- Two segments of one sort with the same edits are the same. -/
theorem Segment.eq_of_edits_eq {first second : Segment} (sort : first.isKeep = second.isKeep)
    (same : first.edits = second.edits) : first = second := by
  have lines (side : Side) : first.linesOn side = second.linesOn side := by
    rw [← first.flatMap_edits, same, second.flatMap_edits]
  have old : first.oldLines = second.oldLines := lines .old
  have new : first.newLines = second.newLines := lines .new
  cases first <;> cases second <;> simp_all [isKeep, oldLines, newLines]

theorem Alternates.exists_edit {segment : Segment} {script : List Segment}
    (alternates : Alternates (segment :: script)) :
    ∃ edit more, segment.edits = edit :: more ∧ edit.isKept = segment.isKeep := by
  obtain ⟨nonempty, _⟩ := alternates_cons_iff.mp alternates
  obtain ⟨edit, more, split⟩ := List.exists_cons_of_ne_nil fun none =>
    (Segment.edits_eq_nil_iff.mp none).elim nonempty.1 nonempty.2
  exact ⟨edit, more, split, Segment.isKept_of_mem_edits (by rw [split]; exact List.mem_cons_self)⟩

/-- The edits of the first segment are those up to the first edit of the other sort. -/
theorem Alternates.takeWhile_edits {segment : Segment} {script : List Segment}
    (alternates : Alternates (segment :: script)) :
    ((segment :: script).flatMap Segment.edits).takeWhile
        (fun edit => edit.isKept == segment.isKeep) =
      segment.edits := by
  obtain ⟨_, next, later⟩ := alternates_cons_iff.mp alternates
  have all : ∀ edit ∈ segment.edits, (edit.isKept == segment.isKeep) = true := fun edit member =>
    beq_iff_eq.mpr (Segment.isKept_of_mem_edits member)
  rw [List.flatMap_cons, List.takeWhile_append_of_pos all, List.append_right_eq_self]
  cases script with
  | nil => rfl
  | cons second rest =>
      obtain ⟨edit, more, split, sort⟩ := later.exists_edit
      rw [List.flatMap_cons, split, List.cons_append, List.takeWhile_cons_of_neg]
      rw [sort, beq_iff_eq]
      exact (next second rfl).symm

/-- **A script is known by its edits line by line.** -/
theorem Alternates.eq_of_flatMap_edits {first second : List Segment} (alternates : Alternates first)
    (others : Alternates second)
    (same : first.flatMap Segment.edits = second.flatMap Segment.edits) :
    first = second := by
  induction first generalizing second with
  | nil =>
      cases second with
      | nil => rfl
      | cons other rest =>
          obtain ⟨edit, more, split, _⟩ := others.exists_edit
          rw [List.flatMap_cons, split] at same
          exact nomatch same
  | cons segment script ih =>
      obtain ⟨edit, more, split, sort⟩ := alternates.exists_edit
      cases second with
      | nil =>
          rw [List.flatMap_cons, split] at same
          exact nomatch same
      | cons other rest =>
          obtain ⟨edit', more', split', sort'⟩ := others.exists_edit
          -- The two scripts begin with the same edit, so their first segments are of one sort.
          have head : edit = edit' := by
            rw [List.flatMap_cons, List.flatMap_cons, split, split'] at same
            exact (List.cons.inj same).1
          have sorts : segment.isKeep = other.isKeep := by rw [← sort, ← sort', head]
          have edits : segment.edits = other.edits := by
            rw [← alternates.takeWhile_edits, same, sorts, others.takeWhile_edits]
          have rests := same
          rw [List.flatMap_cons, List.flatMap_cons, edits] at rests
          rw [Segment.eq_of_edits_eq sorts edits,
            ih (alternates_cons_iff.mp alternates).2.2 (alternates_cons_iff.mp others).2.2
              (List.append_cancel_left rests)]

end Unqualify.Diff
