import Unqualify.Proofs.Path
import Unqualify.Text.Line

/-!
# Lines and line feeds

A text consists of its lines (`flatMap_lines`), none of which is empty, and a line has a line feed
at its end at most (`notMem_dropLast_of_mem_splitLinesFrom`). A text can also be taken apart at its
line feeds alone. This gives the same lines when nothing else ends a line (`splitLinesFrom_append`).
-/

set_option autoImplicit false

namespace Unqualify.Text

/-! ## The lines of a text -/

theorem flatMap_lines (text : String) : (lines text).flatMap String.toList = text.toList := by
  have whole := flatten_splitLines text.toList
  rw [lines, List.flatMap_map]
  simpa [List.flatMap_def] using whole

theorem eq_of_lines_eq {first second : String} (same : lines first = lines second) :
    first = second := by
  rw [← String.toList_inj, ← flatMap_lines first, ← flatMap_lines second, same]

theorem ne_nil_of_mem_splitLinesFrom {seen cs line : List Char}
    (member : line ∈ splitLinesFrom seen cs) :
    line ≠ [] := by
  fun_induction splitLinesFrom seen cs with
  | case1 => exact absurd member List.not_mem_nil
  | case2 seen some =>
      rw [List.mem_singleton.mp member]
      simpa using some
  | case3 seen rest ih =>
      rcases List.mem_cons.mp member with rfl | later
      · simp
      · exact ih later
  | case4 seen c rest _ _ ih =>
      rcases List.mem_cons.mp member with rfl | later
      · simp
      · exact ih later
  | case5 seen c rest _ _ ih => exact ih member

/-- A line has a line feed at its end at most. -/
theorem notMem_dropLast_of_mem_splitLinesFrom {seen cs line : List Char} (free : '\n' ∉ seen)
    (member : line ∈ splitLinesFrom seen cs) : '\n' ∉ line.dropLast := by
  fun_induction splitLinesFrom seen cs with
  | case1 => exact absurd member List.not_mem_nil
  | case2 seen some =>
      rw [List.mem_singleton.mp member]
      exact fun inside => free (List.mem_reverse.mp (List.dropLast_subset _ inside))
  | case3 seen rest ih =>
      rcases List.mem_cons.mp member with rfl | later
      · simpa using free
      · exact ih List.not_mem_nil later
  | case4 seen c rest _ _ ih =>
      rcases List.mem_cons.mp member with rfl | later
      · simpa using free
      · exact ih List.not_mem_nil later
  | case5 seen c rest _ other ih =>
      refine ih ?_ member
      rintro (_ | ⟨_, among⟩)
      · exact other (by decide)
      · exact free among

/-- A text ends as its last line does. -/
theorem getLast?_of_lines {text last : String} (isLast : (lines text).getLast? = some last) :
    text.toList.getLast? = last.toList.getLast? := by
  obtain ⟨before, split⟩ := List.getLast?_eq_some_iff.mp isLast
  have isLine : last ∈ lines text := List.mem_of_getLast? isLast
  obtain ⟨cs, isPart, rfl⟩ := List.mem_map.mp isLine
  have some : (String.ofList cs).toList ≠ [] := by
    rw [String.toList_ofList]
    exact ne_nil_of_mem_splitLinesFrom isPart
  rw [← flatMap_lines, split, List.flatMap_append, List.flatMap_singleton,
    List.getLast?_append_of_ne_nil _ some]

/-! ## Where line feeds are -/

/-- Each line of a text ends in a line feed, and nothing else ends a line. -/
structure LineFeedsOnly (text : String) : Prop where
  ends : text = "" ∨ text.toList.getLast? = some '\n'
  only : ∀ c ∈ text.toList, isLineBreak c = true → c = '\n'

/-- A line feed ends each line of a text, but perhaps not the last one. -/
def LineFeedsBetween (text : String) : Prop :=
  ∀ line ∈ (lines text).dropLast, line.toList.getLast? = some '\n'

instance (text : String) : Decidable (LineFeedsBetween text) :=
  inferInstanceAs (Decidable (∀ line ∈ (lines text).dropLast, line.toList.getLast? = some '\n'))

/-- Both of two texts end in a line feed, or neither of them does. -/
def EndAlike (first second : String) : Prop :=
  first.toList.getLast? = some '\n' ↔ second.toList.getLast? = some '\n'

instance (first second : String) : Decidable (EndAlike first second) :=
  inferInstanceAs (Decidable (_ ↔ _))

theorem splitLinesFrom_append {content : List Char} (free : ∀ c ∈ content, isLineBreak c = false)
    (seen rest : List Char) :
    splitLinesFrom seen (content ++ '\n' :: rest) =
      (seen.reverse ++ content ++ ['\n']) :: splitLinesFrom [] rest := by
  induction content generalizing seen with
  | nil => simp [splitLinesFrom, isLineBreak]
  | cons c content ih =>
      have here := free c List.mem_cons_self
      have later := ih (fun other member => free other (List.mem_cons_of_mem _ member)) (c :: seen)
      rw [List.cons_append, splitLinesFrom, if_neg (by simp [here]), later]
      · simp
      · rintro _ rfl
        exact absurd here (by decide)

/-! ## Texts put together and taken apart -/

theorem intercalate_append {separator : String} {first : List String} (some : first ≠ [])
    (second : List String) : separator.intercalate (first ++ second) =
      separator.intercalate first ++ separator.intercalate ("" :: second) := by
  by_cases none : second = []
  · subst none
    simp
  · rw [String.intercalate_append_of_ne_nil some none, String.intercalate_cons_of_ne_nil none,
      String.empty_append, String.append_assoc]

theorem splitOn_toList_intercalate {texts : List String} (some : texts ≠ [])
    (free : ∀ text ∈ texts, '\n' ∉ text.toList) :
    splitOn '\n' ("\n".intercalate texts).toList = texts.map String.toList := by
  rw [String.toList_intercalate]
  refine splitOn_intercalate (by simpa using some) fun part isPart => ?_
  obtain ⟨text, member, rfl⟩ := List.mem_map.mp isPart
  exact free text member

/-- Texts without line feeds are read back from the text in which there is one between every two of
them. -/
theorem eq_of_intercalate_eq {first second : List String} (someFirst : first ≠ [])
    (someSecond : second ≠ [])
    (freeFirst : ∀ text ∈ first, '\n' ∉ text.toList)
    (freeSecond : ∀ text ∈ second, '\n' ∉ text.toList)
    (same : "\n".intercalate first = "\n".intercalate second) : first = second := by
  have parts := splitOn_toList_intercalate someFirst freeFirst
  rw [same, splitOn_toList_intercalate someSecond freeSecond] at parts
  exact (List.map_injective_iff.mpr (fun _ _ => String.toList_inj.mp) parts).symm

/-- A text is its parts with the separator behind each of them but the last. -/
theorem flatMap_dropLast_splitOn (separator : Char) (cs : List Char) :
    (splitOn separator cs).dropLast.flatMap (· ++ [separator]) ++
      (splitOn separator cs).getLast?.getD [] = cs := by
  induction cs with
  | nil => rfl
  | cons c rest ih =>
      have nonempty := splitOn_ne_nil separator rest
      rw [splitOn]
      split
      next same =>
        rw [List.dropLast_cons_of_ne_nil nonempty, List.flatMap_cons,
          List.getLast?_cons_of_ne_nil nonempty, List.append_assoc, ih, same]
        rfl
      next other =>
        cases parts : splitOn separator rest with
        | nil => exact absurd parts nonempty
        | cons part more =>
            rw [parts] at ih
            cases more with
            | nil => simpa using ih
            | cons next more => simpa using ih

/-- When a text ends in the separator or is empty, its last part is empty. -/
theorem getLast?_splitOn {separator : Char} {cs : List Char}
    (ends : cs = [] ∨ cs.getLast? = some separator) :
    (splitOn separator cs).getLast?.getD [] = [] := by
  have whole := flatMap_dropLast_splitOn separator cs
  cases last : (splitOn separator cs).getLast? with
  | none => rfl
  | some part =>
      have free := notMem_of_mem_splitOn (List.mem_of_getLast? last)
      rw [last, Option.getD_some] at whole
      rw [Option.getD_some]
      by_contra some
      rcases ends with rfl | ends
      · exact some (List.append_eq_nil_iff.mp whole).2
      · rw [← whole, List.getLast?_append_of_ne_nil _ some] at ends
        exact free (List.mem_of_getLast? ends)

end Unqualify.Text
