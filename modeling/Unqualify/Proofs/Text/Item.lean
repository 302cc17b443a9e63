import Mathlib.Data.List.Forall2
import Unqualify.Proofs.Path

/-!
# Lists written in one text

A text with commas is a list of items. Its parts are what stands between the commas, and each part
that is not blank gives one item: the part without the blanks around it. Reading a list finds
exactly these items (`listed_iff`), and there are none exactly when the text holds nothing but
commas and blanks (`commaList_eq_nil_iff`).
-/

set_option autoImplicit false

namespace Unqualify.Text

/-! ## Without blanks at the ends -/

/-- `core` is what is left of `cs` without the blanks at its ends. -/
structure IsCore (cs core : List Char) : Prop where
  around : ∃ front back, cs = front ++ core ++ back ∧ (∀ c ∈ front, isBlank c = true) ∧
    ∀ c ∈ back, isBlank c = true
  head : ∀ c ∈ core.head?, isBlank c = false
  last : ∀ c ∈ core.getLast?, isBlank c = false

section

variable {cs core : List Char} {drop : Char → Bool}

theorem exists_dropWhile_append (drop : Char → Bool) (cs : List Char) :
    ∃ front, cs = front ++ cs.dropWhile drop ∧ ∀ c ∈ front, drop c = true :=
  ⟨cs.takeWhile drop, List.takeWhile_append_dropWhile.symm, fun _ => List.mem_takeWhile_imp⟩

theorem head?_dropWhile_eq_false {c : Char} (first : c ∈ (cs.dropWhile drop).head?) :
    drop c = false := by
  have stopped := List.head?_dropWhile_not drop cs
  rw [Option.mem_def.mp first] at stopped
  exact stopped

theorem exists_dropEndWhile_append (drop : Char → Bool) (cs : List Char) :
    ∃ back, cs = dropEndWhile drop cs ++ back ∧ ∀ c ∈ back, drop c = true := by
  obtain ⟨front, whole, dropped⟩ := exists_dropWhile_append drop cs.reverse
  refine ⟨front.reverse, ?_, fun c among => dropped c (List.mem_reverse.mp among)⟩
  rw [dropEndWhile, ← List.reverse_append, ← whole, List.reverse_reverse]

/-- Trimming leaves what is between the blanks. -/
theorem isCore_dropEndsWhile (cs : List Char) : IsCore cs (dropEndsWhile isBlank cs) := by
  obtain ⟨front, whole, blankFront⟩ := exists_dropWhile_append isBlank cs
  obtain ⟨back, rest, blankBack⟩ := exists_dropEndWhile_append isBlank (cs.dropWhile isBlank)
  refine ⟨⟨front, back, ?_, blankFront, blankBack⟩, fun c first => ?_, fun c last => ?_⟩
  · rw [List.append_assoc, dropEndsWhile, ← rest, ← whole]
  · -- The first character that is left is the first one behind the blanks at the front.
    have still : c ∈ (cs.dropWhile isBlank).head? := by
      rw [rest, List.head?_append]
      exact Option.or_eq_some_iff.mpr (.inl first)
    exact head?_dropWhile_eq_false still
  · rw [dropEndsWhile, dropEndWhile, List.getLast?_reverse] at last
    exact head?_dropWhile_eq_false last

theorem dropEndWhile_append_of_pos {back : List Char} (dropped : ∀ c ∈ back, drop c = true)
    (cs : List Char) : dropEndWhile drop (cs ++ back) = dropEndWhile drop cs := by
  rw [dropEndWhile, dropEndWhile, List.reverse_append, List.dropWhile_append_of_pos]
  exact fun c among => dropped c (List.mem_reverse.mp among)

theorem dropEndWhile_of_last (last : ∀ c ∈ cs.getLast?, drop c = false) :
    dropEndWhile drop cs = cs := by
  cases behind : cs.reverse with
  | nil => rw [dropEndWhile, behind, List.dropWhile_nil, ← behind, List.reverse_reverse]
  | cons c rest =>
      have kept : drop c = false := last c (by rw [← List.head?_reverse, behind]; rfl)
      rw [dropEndWhile, behind, List.dropWhile_cons_of_neg (by simp [kept]), ← behind,
        List.reverse_reverse]

/-- **A text has one core, and trimming finds it.** -/
theorem isCore_iff : IsCore cs core ↔ dropEndsWhile isBlank cs = core := by
  constructor
  · rintro ⟨⟨front, back, rfl, blankFront, blankBack⟩, head, last⟩
    rw [dropEndsWhile, List.append_assoc, List.dropWhile_append_of_pos blankFront]
    cases core with
    | nil =>
        rw [List.nil_append, List.dropWhile_eq_nil_iff.mpr blankBack]
        rfl
    | cons c rest =>
        have kept : isBlank c = false := head c rfl
        rw [List.cons_append, List.dropWhile_cons_of_neg (by simp [kept]), ← List.cons_append,
          dropEndWhile_append_of_pos blankBack, dropEndWhile_of_last last]
  · rintro rfl
    exact isCore_dropEndsWhile cs

theorem dropEndsWhile_eq_nil_iff :
    dropEndsWhile isBlank cs = [] ↔ ∀ c ∈ cs, isBlank c = true := by
  constructor
  · intro none
    obtain ⟨⟨front, back, whole, blankFront, blankBack⟩, _, _⟩ := isCore_iff.mpr none
    rw [whole, List.append_nil]
    exact fun c among => (List.mem_append.mp among).elim (blankFront c) (blankBack c)
  · intro blank
    rw [dropEndsWhile, List.dropWhile_eq_nil_iff.mpr blank]
    rfl

end

/-! ## Parts and items -/

section

variable {separator : Char} {cs : List Char}

/-- The parts of a text make it up again. -/
theorem intercalate_splitOn (separator : Char) (cs : List Char) :
    [separator].intercalate (splitOn separator cs) = cs := by
  fun_induction splitOn separator cs with
  | case1 => rfl
  | case2 rest ih =>
      obtain ⟨part, parts, split⟩ := List.exists_cons_of_ne_nil (splitOn_ne_nil separator rest)
      rw [split] at ih ⊢
      rw [List.intercalate_cons_cons, ih]
      rfl
  | case3 c rest other none => exact absurd none (splitOn_ne_nil separator rest)
  | case4 c rest other part parts split ih =>
      rw [split] at ih
      rw [← ih]
      cases parts <;> simp [List.intercalate_singleton, List.intercalate_cons_cons]

theorem forall_mem_splitOn {good : Char → Prop} :
    (∀ part ∈ splitOn separator cs, ∀ c ∈ part, good c) ↔ ∀ c ∈ cs, c = separator ∨ good c := by
  fun_induction splitOn separator cs with
  | case1 => simp
  | case2 rest ih => simp [ih]
  | case3 c rest other none => exact absurd none (splitOn_ne_nil separator rest)
  | case4 c rest other part parts split ih =>
      rw [split] at ih
      simp only [List.forall_mem_cons] at ih ⊢
      rw [← ih, and_assoc, or_iff_right other]

end

/-- The items of a list that is written in one text: its parts without the blanks around them, and
none for a blank part. -/
def Listed (text : String) (items : List String) : Prop :=
  ∃ parts, parts ≠ [] ∧ [','].intercalate parts = text.toList ∧ (∀ part ∈ parts, ',' ∉ part) ∧
    List.Forall₂ (fun part item => IsCore part (String.toList item))
      (parts.filter fun part => !part.all isBlank) items

section

variable {text : String} {items : List String}

theorem isCore_toList_iff {part : List Char} {item : String} :
    IsCore part item.toList ↔ trim (String.ofList part) = item := by
  rw [isCore_iff, trim, String.toList_ofList, ← String.toList_inj, String.toList_ofList]

theorem trim_ofList_eq_empty_iff {part : List Char} :
    trim (String.ofList part) = "" ↔ part.all isBlank = true := by
  rw [← isCore_toList_iff, String.toList_empty, isCore_iff, dropEndsWhile_eq_nil_iff,
    List.all_eq_true]

theorem commaList_eq (text : String) :
    commaList text =
      ((splitOn ',' text.toList).filter fun part => !part.all isBlank).map fun part =>
        trim (String.ofList part) := by
  have kept (part : List Char) :
      decide (trim (String.ofList part) ≠ "") = !part.all isBlank := by
    cases blank : part.all isBlank with
    | true => simp [trim_ofList_eq_empty_iff.mpr blank]
    | false =>
        have some : trim (String.ofList part) ≠ "" := by
          rw [Ne, trim_ofList_eq_empty_iff, blank]
          decide
        simp [some]
  simp only [commaList, List.filter_map, Function.comp_def, kept]

theorem forall₂_isCore_iff {parts : List (List Char)} :
    List.Forall₂ (fun part item => IsCore part (String.toList item)) parts items ↔
      (parts.map fun part => trim (String.ofList part)) = items := by
  simp only [isCore_toList_iff]
  rw [← List.forall₂_map_left_iff, List.forall₂_eq_eq_eq]

/-- **Reading a list finds its items.** -/
theorem listed_iff : Listed text items ↔ commaList text = items := by
  rw [commaList_eq]
  constructor
  · rintro ⟨parts, some, whole, free, cores⟩
    rw [← whole, splitOn_intercalate some free]
    exact forall₂_isCore_iff.mp cores
  · intro read
    exact ⟨_, splitOn_ne_nil _ _, intercalate_splitOn _ _, fun _ => notMem_of_mem_splitOn,
      forall₂_isCore_iff.mpr read⟩

/-- A text holds nothing but commas and blanks. -/
def OnlySeparators (text : String) : Prop :=
  ∀ c ∈ text.toList, c = ',' ∨ isBlank c = true

/-- **A list is empty when its text holds nothing but separators.** -/
theorem commaList_eq_nil_iff : commaList text = [] ↔ OnlySeparators text := by
  rw [commaList_eq, List.map_eq_nil_iff, List.filter_eq_nil_iff, OnlySeparators,
    ← forall_mem_splitOn]
  simp

theorem ne_empty_of_mem_commaList {item : String} (among : item ∈ commaList text) : item ≠ "" := by
  simpa using (List.mem_filter.mp among).2

end

end Unqualify.Text
