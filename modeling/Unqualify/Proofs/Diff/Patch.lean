import Unqualify.Proofs.Diff.Script
import Unqualify.Proofs.Path

/-!
# Patches

A patch is what a unified diff says: two names and hunks, each with the ranges of lines of the two
texts that it speaks of and with its lines, marked as kept, removed or added. `Patch.ofText?` reads
a patch. The counts in the head of a hunk say how many lines belong to it, so that a removed line
may look like a head.

Hunks can be applied to the lines of a text (`Patch.applyFrom`). They lead from one list of lines to
another when they come in order and do not overlap, each of them has the lines of both lists in its
ranges, and the lists agree outside of these (`Patch.Leads`).

Hunks that show the edits of a whole list, with the kept lines between them left out
(`Patch.Shows`), lead from its old lines to its new ones (`Shows.leads`), and so they do when they
are applied (`Shows.applyFrom_eq`). What has been written is read back (`readHunks_texts`).
-/

set_option autoImplicit false

namespace Unqualify

open Diff (Side LineEdit)

/-! ## Hunks -/

/-- Lines of a text that a hunk speaks of: the number of the first, counted from one, and how many
there are. Where there are none, the number is that of the line before them. -/
structure Patch.Range where
  number : Nat
  count : Nat
  deriving DecidableEq, Repr

/-- A hunk of a patch. -/
structure Patch.Hunk where
  old : Patch.Range
  new : Patch.Range
  edits : List LineEdit
  deriving DecidableEq, Repr

/-- The names of two texts and the hunks between them. -/
structure Patch where
  oldName : String
  newName : String
  hunks : List Patch.Hunk
  deriving DecidableEq, Repr

namespace Patch

namespace Range

/-- How many lines come before a range. -/
def start (range : Range) : Nat :=
  if range.count = 0 then range.number else range.number - 1

/-- How many lines there are up to the end of a range. -/
def stop (range : Range) : Nat :=
  range.start + range.count

/-- The range of so many lines that comes after so many lines. -/
def after (start count : Nat) : Range where
  number := if count = 0 then start else start + 1
  count := count

@[simp] theorem count_after (start count : Nat) : (after start count).count = count := rfl

@[simp] theorem start_after (start count : Nat) : (after start count).start = start := by
  rw [Range.start, after]
  split <;> simp [*]

@[simp] theorem stop_after (start count : Nat) : (after start count).stop = start + count := by
  rw [stop, start_after, count_after]

end Range

namespace Hunk

/-- The range of one of the two texts. -/
def range (hunk : Hunk) : Side → Range
  | .old => hunk.old
  | .new => hunk.new

/-- The lines of one of the two texts. -/
def linesOn (hunk : Hunk) (side : Side) : List String :=
  hunk.edits.flatMap (LineEdit.linesOn side)

end Hunk

/-! ## Reading -/

/-- A line of a hunk with its mark. -/
def readEdit (text : String) : Option LineEdit :=
  match text.toList with
  | ' ' :: line => some (.kept (String.ofList line))
  | '-' :: line => some (.removed (String.ofList line))
  | '+' :: line => some (.added (String.ofList line))
  | _ => none

/-- A decimal number and what follows it. -/
def readNumber (cs : List Char) : Option (Nat × List Char) :=
  match cs.takeWhile Char.isDigit with
  | [] => none
  | digits => some (Nat.ofDigitChars 10 digits 0, cs.dropWhile Char.isDigit)

/-- A range and what follows it. A range of one line has no count. -/
def readRange (cs : List Char) : Option (Range × List Char) := do
  let (number, rest) ← readNumber cs
  match rest with
  | ',' :: rest =>
      let (count, rest) ← readNumber rest
      return (⟨number, count⟩, rest)
  | _ => return (⟨number, 1⟩, rest)

/-- The ranges in the head of a hunk. -/
def readHead (text : String) : Option (Range × Range) := do
  let rest ← text.toList.dropPrefix? "@@ -".toList
  let (old, rest) ← readRange rest
  let rest ← rest.dropPrefix? " +".toList
  let (new, rest) ← readRange rest
  if rest = " @@".toList then return (old, new) else none

/-- The lines of a hunk that has so many lines of the two texts, and what follows it. -/
def readEdits : (old new : Nat) → List String → Option (List LineEdit × List String)
  | 0, 0, texts => some ([], texts)
  | _, _, [] => none
  | old, new, text :: texts =>
      match readEdit text with
      | none => none
      | some edit =>
          let oldSize := (edit.linesOn .old).length
          let newSize := (edit.linesOn .new).length
          if oldSize ≤ old ∧ newSize ≤ new then
            (readEdits (old - oldSize) (new - newSize) texts).map fun (edits, rest) =>
              (edit :: edits, rest)
          else none

theorem length_readEdits_le {old new : Nat} {texts rest : List String} {edits : List LineEdit}
    (read : readEdits old new texts = some (edits, rest)) : rest.length ≤ texts.length := by
  fun_induction readEdits old new texts generalizing edits with
  | case1 texts =>
      cases read
      exact Nat.le_refl _
  | case2 | case3 | case5 => exact nomatch read
  | case4 =>
      rename_i ih
      obtain ⟨⟨later, left⟩, found, same⟩ := Option.map_eq_some_iff.mp read
      cases same
      exact Nat.le_succ_of_le (ih found)

/-- The hunks of a patch. -/
def readHunks : List String → Option (List Hunk)
  | [] => some []
  | text :: texts =>
      match readHead text with
      | none => none
      | some (old, new) =>
          match _read : readEdits old.count new.count texts with
          | none => none
          | some (edits, rest) => (readHunks rest).map (⟨old, new, edits⟩ :: ·)
termination_by texts => texts.length
decreasing_by exact Nat.lt_succ_of_le (length_readEdits_le _read)

/-- The patch that a text is. -/
def ofText? (text : String) : Option Patch :=
  match (Text.splitOn '\n' text.toList).map String.ofList with
  | first :: second :: texts => do
      let oldName ← first.toList.dropPrefix? "--- ".toList
      let newName ← second.toList.dropPrefix? "+++ ".toList
      let hunks ← readHunks texts
      return ⟨String.ofList oldName, String.ofList newName, hunks⟩
  | _ => none

/-! ## Writing -/

/-- A line of a hunk as it is written. -/
def editText : LineEdit → String
  | .kept line => " " ++ line
  | .removed line => "-" ++ line
  | .added line => "+" ++ line

/-- A range as it is written. -/
def Range.text (range : Range) : String :=
  if range.count = 1 then toString range.number
  else toString range.number ++ "," ++ toString range.count

/-- The head of a hunk as it is written. -/
def Hunk.head (hunk : Hunk) : String :=
  "@@ -" ++ hunk.old.text ++ " +" ++ hunk.new.text ++ " @@"

/-- A hunk as it is written, line by line. -/
def Hunk.texts (hunk : Hunk) : List String :=
  hunk.head :: hunk.edits.map editText

/-- A hunk whose ranges have as many lines as it shows. -/
def Hunk.Counts (hunk : Hunk) : Prop :=
  ∀ side, (hunk.range side).count = (hunk.linesOn side).length

theorem readEdit_editText (edit : LineEdit) : readEdit (editText edit) = some edit := by
  cases edit <;> simp [readEdit, editText]

theorem takeWhile_dropWhile_append {digits rest : List Char} (all : ∀ c ∈ digits, c.isDigit = true)
    (ends : ∀ c ∈ rest.head?, c.isDigit = false) :
    (digits ++ rest).takeWhile Char.isDigit = digits ∧
      (digits ++ rest).dropWhile Char.isDigit = rest := by
  rw [List.takeWhile_append_of_pos all, List.dropWhile_append_of_pos all]
  cases rest with
  | nil => exact ⟨List.append_nil digits, rfl⟩
  | cons c rest =>
      have stops : ¬ c.isDigit = true := by simp [ends c rfl]
      rw [List.takeWhile_cons_of_neg stops, List.dropWhile_cons_of_neg stops]
      exact ⟨List.append_nil digits, rfl⟩

theorem readNumber_append (number : Nat) {rest : List Char}
    (ends : ∀ c ∈ rest.head?, c.isDigit = false) :
    readNumber ((toString number).toList ++ rest) = some (number, rest) := by
  have digits : ∀ c ∈ Nat.toDigits 10 number, c.isDigit = true := fun c member =>
    Nat.isDigit_of_mem_toDigits (by decide) (by decide) member
  obtain ⟨taken, dropped⟩ := takeWhile_dropWhile_append digits ends
  rw [Nat.toString_eq_ofList_toDigits, String.toList_ofList, readNumber, taken, dropped]
  split
  next none => exact absurd none Nat.toDigits_ne_nil
  next => rw [Nat.ofDigitChars_ten_toDigits]

theorem readRange_append (range : Range) {rest : List Char}
    (ends : ∀ c ∈ rest.head?, c.isDigit = false ∧ c ≠ ',') :
    readRange (range.text.toList ++ rest) = some (range, rest) := by
  have stops : ∀ c ∈ rest.head?, c.isDigit = false := fun c first => (ends c first).1
  rw [Range.text]
  split
  next single =>
    rw [readRange, readNumber_append range.number stops]
    simp only [Option.bind_eq_bind, Option.bind_some]
    split
    next later => exact absurd rfl (ends ',' rfl).2
    next => rw [← single]; rfl
  next several =>
    rw [String.toList_append, String.toList_append, List.append_assoc, List.append_assoc, readRange,
      readNumber_append range.number (by simp)]
    show (readNumber ((toString range.count).toList ++ rest)).bind _ = _
    rw [readNumber_append range.count stops]
    rfl

theorem dropPrefix?_append (start rest : List Char) :
    (start ++ rest).dropPrefix? start = some rest :=
  List.dropPrefix?_eq_some_iff.mpr ⟨start, rfl, beq_self_eq_true start⟩

theorem readHead_head (hunk : Hunk) : readHead hunk.head = some (hunk.old, hunk.new) := by
  rw [readHead, Hunk.head]
  simp only [String.toList_append, List.append_assoc]
  rw [dropPrefix?_append]
  simp only [Option.bind_eq_bind, Option.bind_some]
  rw [readRange_append hunk.old (by simp)]
  simp only [Option.bind_some]
  rw [dropPrefix?_append]
  simp only [Option.bind_some]
  rw [readRange_append hunk.new (by simp)]
  simp

theorem readEdits_append (edits : List LineEdit) (rest : List String) :
    readEdits (edits.flatMap (LineEdit.linesOn .old)).length
      (edits.flatMap (LineEdit.linesOn .new)).length (edits.map editText ++ rest) =
        some (edits, rest) := by
  induction edits with
  | nil => simp [readEdits]
  | cons edit edits ih =>
      simp only [List.flatMap_cons, List.length_append, List.map_cons, List.cons_append]
      rw [readEdits, readEdit_editText]
      · dsimp only
        rw [if_pos ⟨Nat.le_add_right _ _, Nat.le_add_right _ _⟩, Nat.add_sub_cancel_left,
          Nat.add_sub_cancel_left, ih]
        rfl
      · cases edit <;> simp [LineEdit.linesOn]

/-- **Hunks are read as they have been written.** -/
theorem readHunks_texts {hunks : List Hunk} (counts : ∀ hunk ∈ hunks, hunk.Counts) :
    readHunks (hunks.flatMap Hunk.texts) = some hunks := by
  induction hunks with
  | nil => rw [List.flatMap_nil, readHunks]
  | cons hunk hunks ih =>
      have here := counts hunk List.mem_cons_self
      have later := ih fun other member => counts other (List.mem_cons_of_mem _ member)
      have edits : readEdits hunk.old.count hunk.new.count
          (hunk.edits.map editText ++ hunks.flatMap Hunk.texts) =
            some (hunk.edits, hunks.flatMap Hunk.texts) := by
        have sizes : hunk.old.count = (hunk.linesOn .old).length ∧
            hunk.new.count = (hunk.linesOn .new).length := ⟨here .old, here .new⟩
        rw [sizes.1, sizes.2]
        exact readEdits_append hunk.edits _
      rw [List.flatMap_cons, Hunk.texts, List.cons_append, readHunks, readHead_head]
      dsimp only
      split
      next none => exact nomatch none.symm.trans edits
      next found =>
        cases found.symm.trans edits
        rw [later]
        rfl

/-! ## Applying hunks -/

/-- The lines that hunks make of the lines of a text after so many of them have been gone through.
It fails when a hunk does not come next or when its old lines are not there. -/
def applyFrom (position : Nat) : List Hunk → List String → Option (List String)
  | [], lines => some lines
  | hunk :: hunks, lines =>
      let skipped := hunk.old.start - position
      let old := hunk.linesOn .old
      if position ≤ hunk.old.start ∧ skipped ≤ lines.length ∧
          (lines.drop skipped).take old.length = old then
        (applyFrom (hunk.old.start + old.length) hunks (lines.drop (skipped + old.length))).map
          fun rest => lines.take skipped ++ hunk.linesOn .new ++ rest
      else none

/-- The lines of a text, of which each ends in a line feed. -/
def rows (text : String) : List String :=
  ((Text.splitOn '\n' text.toList).dropLast).map String.ofList

/-- The text of lines, each with a line feed at its end. -/
def ofRows (lines : List String) : String :=
  String.join (lines.map (· ++ "\n"))

/-- The text that a patch makes of a text. -/
def applyTo (patch : Patch) (text : String) : Option String :=
  (applyFrom 0 patch.hunks (rows text)).map ofRows

/-! ## Hunks between two lists of lines -/

/-- The lines outside of ranges: those before the first range, those between every two, and those
behind the last. -/
def outsideFrom (position : Nat) : List Range → List String → List (List String)
  | [], lines => [lines.drop position]
  | range :: ranges, lines =>
      (lines.drop position).take (range.start - position) :: outsideFrom range.stop ranges lines

/-- Hunks lead from one list of lines to another. -/
structure Leads (hunks : List Hunk) (lines : Side → List String) : Prop where
  /-- They come in order and do not overlap. -/
  ordered : ∀ side, hunks.Pairwise fun first second =>
    (first.range side).stop ≤ (second.range side).start
  /-- Each has the lines of both lists that are in its ranges. -/
  lines_eq : ∀ hunk ∈ hunks, ∀ side, (hunk.range side).stop ≤ (lines side).length ∧
    hunk.linesOn side = ((lines side).drop (hunk.range side).start).take (hunk.range side).count
  /-- Outside of the ranges the two lists have the same lines. -/
  outside_eq : outsideFrom 0 (hunks.map (·.old)) (lines .old) =
    outsideFrom 0 (hunks.map (·.new)) (lines .new)

/-- Hunks show edits, when so many lines of the two lists have been gone through before these: the
edits that they leave out keep their lines, and their ranges say where they are. -/
inductive Shows : (position : Side → Nat) → List Hunk → List LineEdit → Prop where
  | rest {position : Side → Nat} (lines : List String) : Shows position [] (lines.map .kept)
  | hunk {position : Side → Nat} {hunk : Hunk} {hunks : List Hunk} {edits : List LineEdit}
      (skipped : List String)
      (ranges : ∀ side, hunk.range side =
        .after (position side + skipped.length) (hunk.linesOn side).length)
      (later : Shows (fun side => (hunk.range side).stop) hunks edits) :
      Shows position (hunk :: hunks) (skipped.map .kept ++ hunk.edits ++ edits)

theorem flatMap_linesOn_kept (side : Side) (lines : List String) :
    (lines.map LineEdit.kept).flatMap (LineEdit.linesOn side) = lines := by
  cases side <;> simp [List.flatMap_map, LineEdit.linesOn]

namespace Shows

variable {position : Side → Nat} {hunks : List Hunk} {edits : List LineEdit}

theorem counts (shows : Shows position hunks edits) : ∀ hunk ∈ hunks, hunk.Counts := by
  induction shows with
  | rest => exact nofun
  | hunk skipped ranges _ ih =>
      intro hunk member side
      rcases List.mem_cons.mp member with rfl | later
      · rw [ranges side, Range.count_after]
      · exact ih hunk later side

/-- What a hunk has is among the edits. -/
theorem mem_edits (shows : Shows position hunks edits) {hunk : Hunk} (member : hunk ∈ hunks)
    {edit : LineEdit} (among : edit ∈ hunk.edits) : edit ∈ edits := by
  induction shows with
  | rest => exact nomatch member
  | hunk skipped ranges _ ih =>
      rcases List.mem_cons.mp member with rfl | later
      · exact List.mem_append_left _ (List.mem_append_right _ among)
      · exact List.mem_append_right _ (ih later)

/-- Kept lines may come in front of what is shown. -/
theorem skip (lines : List String)
    (shows : Shows (fun side => position side + lines.length) hunks edits) :
    Shows position hunks (lines.map .kept ++ edits) := by
  cases shows with
  | rest more =>
      rw [← List.map_append]
      exact .rest _
  | hunk skipped ranges later =>
      rw [← List.append_assoc, ← List.append_assoc, ← List.map_append]
      refine .hunk (lines ++ skipped) (fun side => ?_) later
      rw [ranges side, List.length_append, Nat.add_assoc]

/-- Kept lines may come behind what is shown. -/
theorem append_kept (shows : Shows position hunks edits) (lines : List String) :
    Shows position hunks (edits ++ lines.map .kept) := by
  induction shows with
  | rest before =>
      rw [← List.map_append]
      exact .rest _
  | hunk skipped ranges _ ih =>
      rw [List.append_assoc]
      exact .hunk skipped ranges ih

/-- The lines that a hunk and the edits around it speak of. -/
theorem flatMap_linesOn_hunk (side : Side) (skipped : List String) (hunk : Hunk)
    (edits : List LineEdit) :
    (skipped.map LineEdit.kept ++ hunk.edits ++ edits).flatMap (LineEdit.linesOn side) =
      skipped ++ (hunk.linesOn side ++ edits.flatMap (LineEdit.linesOn side)) := by
  rw [List.flatMap_append, List.flatMap_append, flatMap_linesOn_kept, List.append_assoc,
    Hunk.linesOn]

/-- **Hunks that show edits make the new lines of the old ones.** -/
theorem applyFrom_eq (shows : Shows position hunks edits) :
    applyFrom (position .old) hunks (edits.flatMap (LineEdit.linesOn .old)) =
      some (edits.flatMap (LineEdit.linesOn .new)) := by
  induction shows with
  | rest lines => rw [applyFrom, flatMap_linesOn_kept, flatMap_linesOn_kept]
  | @hunk position hunk hunks edits skipped ranges _ ih =>
      have range : hunk.old = .after (position .old + skipped.length) (hunk.linesOn .old).length :=
        ranges .old
      have start : hunk.old.start = position .old + skipped.length := by
        rw [range, Range.start_after]
      have stop : (hunk.range .old).stop = position .old + skipped.length +
          (hunk.linesOn .old).length := by rw [ranges .old, Range.stop_after]
      dsimp only at ih
      rw [stop] at ih
      rw [flatMap_linesOn_hunk, flatMap_linesOn_hunk, applyFrom]
      simp only [start, Nat.add_sub_cancel_left]
      rw [if_pos, ← List.drop_drop, List.drop_left, List.drop_left, List.take_left, ih]
      · rw [Option.map_some, List.append_assoc]
      · exact ⟨Nat.le_add_right _ _, by simp, by rw [List.drop_left, List.take_left]⟩

theorem le_start (shows : Shows position hunks edits) (side : Side) :
    ∀ hunk ∈ hunks, position side ≤ (hunk.range side).start := by
  induction shows with
  | rest => exact nofun
  | hunk skipped ranges _ ih =>
      intro hunk member
      rcases List.mem_cons.mp member with rfl | later
      · rw [ranges side, Range.start_after]
        exact Nat.le_add_right _ _
      · have further := ih hunk later
        dsimp only at further
        rw [ranges side, Range.stop_after] at further
        omega

theorem ordered (shows : Shows position hunks edits) (side : Side) :
    hunks.Pairwise fun first second => (first.range side).stop ≤ (second.range side).start := by
  induction shows with
  | rest => exact .nil
  | hunk skipped ranges later ih => exact .cons (later.le_start side) ih

/-- Each hunk shows the lines in its ranges. The lines that have been gone through come before those
of the edits. -/
theorem lines_eq (shows : Shows position hunks edits) (side : Side) (before : List String)
    (length_eq : before.length = position side) {lines : List String}
    (split : lines = before ++ edits.flatMap (LineEdit.linesOn side)) :
    ∀ hunk ∈ hunks, (hunk.range side).stop ≤ lines.length ∧
      hunk.linesOn side = (lines.drop (hunk.range side).start).take (hunk.range side).count := by
  induction shows generalizing before with
  | rest => exact nofun
  | @hunk position first hunks edits skipped ranges _ ih =>
      intro hunk member
      have gone : (before ++ skipped).length = position side + skipped.length := by
        rw [List.length_append, length_eq]
      have further : lines = (before ++ skipped ++ first.linesOn side) ++
          edits.flatMap (LineEdit.linesOn side) := by
        rw [split, flatMap_linesOn_hunk, List.append_assoc, List.append_assoc]
      rcases List.mem_cons.mp member with rfl | later
      · rw [ranges side, Range.stop_after, Range.start_after, Range.count_after, ← gone, further,
          List.append_assoc, List.drop_left, List.take_left]
        refine ⟨?_, rfl⟩
        simp only [List.length_append]
        omega
      · refine ih _ ?_ further hunk later
        dsimp only
        rw [List.length_append, gone, ranges side, Range.stop_after]

/-- Outside of the ranges the two lists have the same lines. -/
theorem outside_eq (shows : Shows position hunks edits) (before : Side → List String)
    (length_eq : ∀ side, (before side).length = position side) :
    outsideFrom (position .old) (hunks.map (·.range .old))
        (before .old ++ edits.flatMap (LineEdit.linesOn .old)) =
      outsideFrom (position .new) (hunks.map (·.range .new))
        (before .new ++ edits.flatMap (LineEdit.linesOn .new)) := by
  induction shows generalizing before with
  | rest lines =>
      have behind (side : Side) : (before side ++ (lines.map LineEdit.kept).flatMap
          (LineEdit.linesOn side)).drop (before side).length = lines := by
        rw [List.drop_left, flatMap_linesOn_kept]
      simp only [List.map_nil, outsideFrom, ← length_eq, behind]
  | @hunk position hunk hunks edits skipped ranges _ ih =>
      have between (side : Side) : ((before side ++ (skipped.map LineEdit.kept ++ hunk.edits ++
          edits).flatMap (LineEdit.linesOn side)).drop (position side)).take
            ((hunk.range side).start - position side) = skipped := by
        rw [ranges side, Range.start_after, Nat.add_sub_cancel_left, ← length_eq side,
          List.drop_left, flatMap_linesOn_hunk, List.take_left]
      have gone (side : Side) : (before side ++ skipped ++ hunk.linesOn side).length =
          (hunk.range side).stop := by
        rw [List.length_append, List.length_append, length_eq side, ranges side, Range.stop_after]
      have later := ih _ gone
      simp only [List.append_assoc] at later
      simp only [List.map_cons, outsideFrom, between]
      simp only [flatMap_linesOn_hunk, later]

/-- **Hunks that show edits lead from the old lines to the new ones.** -/
theorem leads (shows : Shows (fun _ => 0) hunks edits) :
    Leads hunks fun side => edits.flatMap (LineEdit.linesOn side) where
  ordered := shows.ordered
  lines_eq hunk member side := shows.lines_eq side [] rfl rfl hunk member
  outside_eq := shows.outside_eq (fun _ => []) fun _ => rfl

/-- **Edits are known by the hunks that show them and the old lines.** -/
theorem unique {others : List LineEdit} (shows : Shows position hunks edits)
    (alsoShows : Shows position hunks others)
    (same : edits.flatMap (LineEdit.linesOn .old) = others.flatMap (LineEdit.linesOn .old)) :
    edits = others := by
  induction shows generalizing others with
  | rest lines =>
      cases alsoShows with
      | rest more =>
          rw [flatMap_linesOn_kept, flatMap_linesOn_kept] at same
          rw [same]
  | @hunk position hunk hunks edits skipped ranges _ ih =>
      cases alsoShows with
      | @hunk _ _ _ others skipped' ranges' later' =>
          have start := congrArg Range.start ((ranges .old).symm.trans (ranges' .old))
          rw [Range.start_after, Range.start_after] at start
          rw [flatMap_linesOn_hunk, flatMap_linesOn_hunk] at same
          obtain ⟨rfl, rest⟩ := List.append_inj same (Nat.add_left_cancel start)
          rw [ih later' (List.append_cancel_left rest)]

end Shows

end Patch

end Unqualify
