import Mathlib.Data.List.Lex
import Mathlib.Data.List.TakeWhile
import Mathlib.Data.String.Basic
import Unqualify.Path

/-!
# Paths and their texts

A path that was read has parts that say something, and such a path can be read back from its text
(`ofText_text`): no two of them have the same text. The suffix of a name starts at its last dot
(`hasSuffix_iff`). Comparing paths part by part is the lexicographic order of their parts
(`precedes_iff`).
-/

set_option autoImplicit false

namespace Unqualify

namespace Text

/-! ## Splitting a text -/

variable {separator : Char} {part : List Char}

theorem splitOn_ne_nil (separator : Char) (cs : List Char) : splitOn separator cs ≠ [] := by
  cases cs with
  | nil => exact List.cons_ne_nil _ _
  | cons c rest =>
      rw [splitOn]
      split
      · exact List.cons_ne_nil _ _
      · split <;> exact List.cons_ne_nil _ _

theorem splitOn_of_notMem (free : separator ∉ part) : splitOn separator part = [part] := by
  induction part with
  | nil => rfl
  | cons c rest ih =>
      rw [List.mem_cons, not_or] at free
      rw [splitOn, if_neg (Ne.symm free.1), ih free.2]

theorem splitOn_append_cons (free : separator ∉ part) (rest : List Char) :
    splitOn separator (part ++ separator :: rest) = part :: splitOn separator rest := by
  induction part with
  | nil => rw [List.nil_append, splitOn, if_pos rfl]
  | cons c others ih =>
      rw [List.mem_cons, not_or] at free
      rw [List.cons_append, splitOn, if_neg (Ne.symm free.1), ih free.2]

/-- Splitting gives back the parts that were joined. -/
theorem splitOn_intercalate {parts : List (List Char)} (some : parts ≠ [])
    (free : ∀ part ∈ parts, separator ∉ part) :
    splitOn separator ([separator].intercalate parts) = parts := by
  induction parts with
  | nil => exact absurd rfl some
  | cons part rest ih =>
      cases rest with
      | nil =>
          rw [List.intercalate_singleton]
          exact splitOn_of_notMem (free part (.head _))
      | cons next rest =>
          rw [List.intercalate_cons_cons, List.append_assoc, List.singleton_append,
            splitOn_append_cons (free part (.head _)),
            ih (List.cons_ne_nil _ _) fun other among => free other (.tail _ among)]

theorem notMem_of_mem_splitOn {cs : List Char} (among : part ∈ splitOn separator cs) :
    separator ∉ part := by
  induction cs generalizing part with
  | nil =>
      rw [splitOn, List.mem_singleton] at among
      simp [among]
  | cons c rest ih =>
      rw [splitOn] at among
      split at among
      next =>
        rcases List.mem_cons.mp among with rfl | among
        · exact List.not_mem_nil
        · exact ih among
      next other =>
        split at among
        next none => exact absurd none (splitOn_ne_nil separator rest)
        next first others split =>
          rcases List.mem_cons.mp among with rfl | among
          · have free : separator ∉ first := ih (split ▸ .head _)
            rw [List.mem_cons, not_or]
            exact ⟨Ne.symm other, free⟩
          · exact ih (split ▸ .tail _ among)

end Text

namespace Path

/-! ## Paths that are written out -/

/-- A part that says something. -/
@[mk_iff]
structure IsPart (part : String) : Prop where
  nonempty : part ≠ ""
  notDot : part ≠ "."
  slashFree : '/' ∉ part.toList

instance (part : String) : Decidable (IsPart part) :=
  decidable_of_iff _ (isPart_iff part).symm

/-- The anchors that paths have. -/
def anchors : List String := ["", "/", "//"]

/-- A path that can be written out: its parts say something. -/
structure IsPlain (path : Path) : Prop where
  anchor : path.anchor ∈ anchors
  isPart : ∀ part ∈ path.parts, IsPart part

theorem isPart_of_mem_ofText {text part : String} (among : part ∈ (ofText text).parts) :
    IsPart part := by
  obtain ⟨piece, kept⟩ := List.mem_filter.mp among
  obtain ⟨cs, cut, rfl⟩ := List.mem_map.mp piece
  obtain ⟨nonempty, notDot⟩ : String.ofList cs ≠ "" ∧ String.ofList cs ≠ "." := by
    simpa only [Bool.and_eq_true, bne_iff_ne] using kept
  refine ⟨nonempty, notDot, ?_⟩
  rw [String.toList_ofList]
  exact Text.notMem_of_mem_splitOn cut

theorem anchorOf_mem_anchors (cs : List Char) : anchorOf cs ∈ anchors := by
  unfold anchorOf
  split <;> decide

theorem isPlain_ofText (text : String) : (ofText text).IsPlain where
  anchor := anchorOf_mem_anchors _
  isPart _ := isPart_of_mem_ofText

theorem IsPlain.below {path : Path} (plain : path.IsPlain) {rest : List String}
    (isPart : ∀ part ∈ rest, IsPart part) : (path.below rest).IsPlain where
  anchor := plain.anchor
  isPart part among := by
    rcases List.mem_append.mp among with own | further
    · exact plain.isPart part own
    · exact isPart part further

/-! ### Reading back -/

section

variable {anchor : String} {parts : List String} {cs : List Char}

/-- The slashes of an anchor are recognised when no further slash follows them. -/
theorem anchorOf_append (isAnchor : anchor ∈ anchors) (other : cs.head? ≠ some '/') :
    anchorOf (anchor.toList ++ cs) = anchor := by
  have stops : cs.takeWhile (· == '/') = [] := by
    cases cs with
    | nil => rfl
    | cons c rest =>
        have differs : c ≠ '/' := by simpa using other
        simp [differs]
  simp only [anchors, List.mem_cons, List.not_mem_nil, or_false] at isAnchor
  rcases isAnchor with rfl | rfl | rfl <;> simp [anchorOf, stops]

/-- The parts that say something in a list of characters. -/
def partsOf (cs : List Char) : List String :=
  ((Text.splitOn '/' cs).map String.ofList).filter fun part => part != "" && part != "."

/-- The slashes of an anchor have no parts between them. -/
theorem partsOf_append (isAnchor : anchor ∈ anchors) (cs : List Char) :
    partsOf (anchor.toList ++ cs) = partsOf cs := by
  simp only [anchors, List.mem_cons, List.not_mem_nil, or_false] at isAnchor
  rcases isAnchor with rfl | rfl | rfl <;> simp [partsOf, Text.splitOn]

theorem partsOf_intercalate (isPart : ∀ part ∈ parts, IsPart part) :
    partsOf (['/'].intercalate (parts.map String.toList)) = parts := by
  cases parts with
  | nil => decide +kernel
  | cons first rest =>
      have cut : Text.splitOn '/' (['/'].intercalate ((first :: rest).map String.toList)) =
          (first :: rest).map String.toList := by
        refine Text.splitOn_intercalate (by simp) fun part among => ?_
        obtain ⟨name, listed, rfl⟩ := List.mem_map.mp among
        exact (isPart name listed).slashFree
      have same : String.ofList ∘ String.toList = id := funext fun _ => String.ofList_toList
      rw [partsOf, cut, List.map_map, same, List.map_id, List.filter_eq_self]
      intro part among
      simp [(isPart part among).nonempty, (isPart part among).notDot]

theorem head?_intercalate_ne (isPart : ∀ part ∈ parts, IsPart part) :
    (['/'].intercalate (parts.map String.toList)).head? ≠ some '/' := by
  cases parts with
  | nil => exact nofun
  | cons first rest =>
      have isFirst := isPart first (.head _)
      cases chars : first.toList with
      | nil => exact absurd (String.toList_eq_nil_iff.mp chars) isFirst.nonempty
      | cons c others =>
          have slashFree := isFirst.slashFree
          rw [chars, List.mem_cons, not_or] at slashFree
          cases rest <;> simp [chars, List.intercalate, Ne.symm slashFree.1]

end

/-- A path that says something has the characters of its anchor and then those of its parts, with
slashes between. -/
theorem toList_text {path : Path} (some : ¬ (path.anchor = "" ∧ path.parts = [])) :
    path.text.toList =
      path.anchor.toList ++ ['/'].intercalate (path.parts.map String.toList) := by
  have written : (path.anchor == "" && path.parts.isEmpty) = false := by
    rw [Bool.eq_false_iff]
    simpa using some
  simp only [Path.text, written, Bool.false_eq_true, if_false, String.toList_append,
    String.toList_intercalate]
  rfl

/-- **A path can be read back from its text.** -/
theorem ofText_text {path : Path} (plain : path.IsPlain) : ofText path.text = path := by
  obtain ⟨anchor, parts⟩ := path
  by_cases none : anchor = "" ∧ parts = []
  · obtain ⟨rfl, rfl⟩ := none
    decide +kernel
  · have chars := @toList_text ⟨anchor, parts⟩ none
    have anchors : anchorOf (Path.mk anchor parts).text.toList = anchor := by
      rw [chars, anchorOf_append plain.anchor (head?_intercalate_ne plain.isPart)]
    have parts : partsOf (Path.mk anchor parts).text.toList = parts := by
      rw [chars, partsOf_append plain.anchor, partsOf_intercalate plain.isPart]
    exact congrArg₂ Path.mk anchors parts

theorem IsPlain.eq_of_text_eq {first second : Path} (plain : first.IsPlain)
    (plainToo : second.IsPlain) (same : first.text = second.text) : first = second := by
  rw [← ofText_text plain, same, ofText_text plainToo]

/-! ## Suffixes -/

/-- The suffix of a name starts at the last dot, when something stands on either side of it. A name
whose last dot is at an edge has no suffix, and neither has a name without dots. -/
inductive HasSuffix (name : String) : String → Prop
  | inside {stem tail : List Char} (chars : name.toList = stem ++ '.' :: tail) (last : '.' ∉ tail)
      (before : stem ≠ []) (after : tail ≠ []) : HasSuffix name (String.ofList ('.' :: tail))
  | edge {stem tail : List Char} (chars : name.toList = stem ++ '.' :: tail) (last : '.' ∉ tail)
      (edge : stem = [] ∨ tail = []) : HasSuffix name ""
  | bare (free : '.' ∉ name.toList) : HasSuffix name ""

theorem suffixOf_of_last_dot {name : String} {stem tail : List Char}
    (chars : name.toList = stem ++ '.' :: tail) (last : '.' ∉ tail) :
    suffixOf name = if stem = [] ∨ tail = [] then "" else String.ofList ('.' :: tail) := by
  have taken : name.toList.reverse.takeWhile (· != '.') = tail.reverse := by
    have free : ∀ c ∈ tail.reverse, (c != '.') = true := by
      intro c among
      exact bne_iff_ne.mpr fun dot => last (dot ▸ List.mem_reverse.mp among)
    rw [chars, List.reverse_append, List.reverse_cons, List.append_assoc,
      List.takeWhile_append_of_pos free]
    simp
  have length : name.toList.length = stem.length + (tail.length + 1) := by simp [chars]
  have stemLength : stem.length + (tail.length + 1) - tail.length - 1 = stem.length := by omega
  have shorter : tail.length ≠ stem.length + (tail.length + 1) := by omega
  simp only [suffixOf, taken, List.reverse_reverse, length, stemLength]
  simp [shorter, or_comm]

theorem suffixOf_of_no_dot {name : String} (free : '.' ∉ name.toList) : suffixOf name = "" := by
  have taken : name.toList.reverse.takeWhile (· != '.') = name.toList.reverse := by
    rw [List.takeWhile_eq_self_iff]
    intro c among
    exact bne_iff_ne.mpr fun dot => free (dot ▸ List.mem_reverse.mp among)
  simp [suffixOf, taken]

/-- **The suffix of a name is what starts at its last dot.** -/
theorem hasSuffix_iff {name suffix : String} : HasSuffix name suffix ↔ suffixOf name = suffix := by
  constructor
  · rintro (⟨chars, last, before, after⟩ | ⟨chars, last, edge⟩ | free)
    · rw [suffixOf_of_last_dot chars last, if_neg (by simp [before, after])]
    · rw [suffixOf_of_last_dot chars last, if_pos edge]
    · exact suffixOf_of_no_dot free
  · rintro rfl
    by_cases dot : '.' ∈ name.toList.reverse
    · obtain ⟨tail, stem, backwards, last⟩ := List.eq_append_cons_of_mem dot
      have chars : name.toList = stem.reverse ++ '.' :: tail.reverse := by
        rw [← List.reverse_reverse name.toList, backwards]
        simp
      have lastToo : '.' ∉ tail.reverse := List.mem_reverse.not.mpr last
      rw [suffixOf_of_last_dot chars lastToo]
      split
      next edge => exact .edge chars lastToo edge
      next inside =>
        rw [not_or] at inside
        exact .inside chars lastToo inside.1 inside.2
    · have free : '.' ∉ name.toList := List.mem_reverse.not.mp dot
      rw [suffixOf_of_no_dot free]
      exact .bare free

/-- The suffix of a path is that of its last part. -/
theorem suffix_concat (anchor : String) (front : List String) (name : String) :
    (Path.mk anchor (front ++ [name])).suffix = suffixOf name := by
  rw [suffix, List.getLast?_concat]

/-! ## Order -/

/-- **Paths are compared in the lexicographic order of their parts.** -/
theorem precedes_iff {first second : List String} :
    precedes first second = true ↔ first ≤ second := by
  rw [← not_lt]
  induction first generalizing second with
  | nil => simp [precedes]
  | cons a as ih =>
      cases second with
      | nil => simp [precedes]
      | cons b bs =>
          rw [precedes, List.cons_lt_cons_iff]
          by_cases same : a = b
          · simp [same, ih]
          · have strict : a ≤ b ↔ a < b := Ne.le_iff_lt same
            rw [if_neg (by simpa using same), decide_eq_true_iff, not_or, not_lt, strict]
            simp only [Ne.symm same, false_and, not_false_eq_true, and_true]

theorem pairwise_mergeSort_precedes (ways : List (List String)) :
    (ways.mergeSort precedes).Pairwise (· ≤ ·) := by
  have sorted := @List.pairwise_mergeSort _ precedes
    (fun a b c => by simpa only [precedes_iff] using le_trans)
    (fun a b => by simpa only [Bool.or_eq_true, precedes_iff] using le_total a b) ways
  exact sorted.imp precedes_iff.mp

end Path

end Unqualify
