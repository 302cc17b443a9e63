import Mathlib.Data.List.TakeWhile
import Unqualify.Import.Change
import Unqualify.Proofs.Import.Declaration

/-!
# What the change of the imports consists of

The change exists exactly when there is a plan, and then its edits are the insertion of the planned
imports, if there are any, and the deletion of each removed statement (`plan_eq_ok_iff`). A deletion
takes the rest of the line with it, line end included, when only blanks are left there, and
otherwise ends with its statement (`removalStop_of_restOfLine`, `removalStop_of_not_restOfLine`). It
takes nothing but blanks and line ends beyond its statement, so it ends before what comes next
(`removalStop_le`).
-/

set_option autoImplicit false

namespace Unqualify.ImportChange

/-! ## The end of a deletion -/

/-- Whether an octet is a space or a tab. -/
def isBlankOctet (octet : UInt8) : Bool :=
  octet == 0x20 || octet == 0x09

/-- The octets `rest` begin with `taken`, which is the rest of a line that has only spaces and tabs,
together with the line feed that ends it, or the carriage return and line feed, or nothing when the
text ends there. -/
def RestOfLine (rest taken : Bytes) : Prop :=
  ∃ blanks ending after : Bytes, rest = blanks ++ (ending ++ after) ∧ taken = blanks ++ ending ∧
    (∀ octet ∈ blanks, isBlankOctet octet = true) ∧
    (ending = [0x0A] ∨ ending = [0x0D, 0x0A] ∨ ending = [] ∧ after = [])

theorem removalStop_eq (stop : Nat) (rest : Bytes) :
    removalStop stop rest =
      match rest.dropWhile isBlankOctet with
      | [] => stop + (rest.takeWhile isBlankOctet).length
      | 0x0D :: 0x0A :: _ => stop + (rest.takeWhile isBlankOctet).length + 2
      | 0x0A :: _ => stop + (rest.takeWhile isBlankOctet).length + 1
      | _ => stop := rfl

/-- A deletion takes the rest of its line when only blanks are left. -/
theorem removalStop_of_restOfLine (stop : Nat) {rest taken : Bytes}
    (closes : RestOfLine rest taken) : removalStop stop rest = stop + taken.length := by
  obtain ⟨blanks, ending, after, rfl, rfl, blank, form⟩ := closes
  have stops : (ending ++ after).takeWhile isBlankOctet = [] ∧
      (ending ++ after).dropWhile isBlankOctet = ending ++ after := by
    rcases form with rfl | rfl | ⟨rfl, rfl⟩ <;> exact ⟨rfl, rfl⟩
  have taken : (blanks ++ (ending ++ after)).takeWhile isBlankOctet = blanks := by
    rw [List.takeWhile_append_of_pos blank, stops.1, List.append_nil]
  have left : (blanks ++ (ending ++ after)).dropWhile isBlankOctet = ending ++ after := by
    rw [List.dropWhile_append_of_pos blank, stops.2]
  rw [removalStop_eq, taken, left]
  rcases form with rfl | rfl | ⟨rfl, rfl⟩
  · simp [Nat.add_assoc]
  · simp [Nat.add_assoc]
  · simp

/-- A deletion ends with its statement when something other than blanks is left on the line. -/
theorem removalStop_of_not_restOfLine (stop : Nat) {rest : Bytes}
    (unclosed : ∀ taken, ¬ RestOfLine rest taken) : removalStop stop rest = stop := by
  have blank : ∀ octet ∈ rest.takeWhile isBlankOctet, isBlankOctet octet = true :=
    fun _ => List.mem_takeWhile_imp
  have parts (ending after : Bytes) (left : rest.dropWhile isBlankOctet = ending ++ after) :
      rest = rest.takeWhile isBlankOctet ++ (ending ++ after) := by
    rw [← left, List.takeWhile_append_dropWhile]
  rw [removalStop_eq]
  split
  next left =>
    exact absurd ⟨_, [], [], parts [] [] left, rfl, blank, .inr (.inr ⟨rfl, rfl⟩)⟩ (unclosed _)
  next after left =>
    exact absurd ⟨_, [0x0D, 0x0A], after, parts _ after left, rfl, blank, .inr (.inl rfl)⟩
      (unclosed _)
  next after left =>
    exact absurd ⟨_, [0x0A], after, parts _ after left, rfl, blank, .inl rfl⟩ (unclosed _)
  next => rfl

/-- Whether an octet is a space, a tab, a carriage return or a line feed. -/
def isSpaceOctet (octet : UInt8) : Bool :=
  isBlankOctet octet || octet == 0x0D || octet == 0x0A

theorem RestOfLine.exists_append_eq {rest taken : Bytes} (closes : RestOfLine rest taken) :
    (∃ after, rest = taken ++ after) ∧ ∀ octet ∈ taken, isSpaceOctet octet = true := by
  obtain ⟨blanks, ending, after, rfl, rfl, blank, form⟩ := closes
  refine ⟨⟨after, (List.append_assoc _ _ _).symm⟩, ?_⟩
  intro octet member
  rcases List.mem_append.mp member with inBlanks | inEnding
  · simp [isSpaceOctet, blank octet inBlanks]
  · rcases form with rfl | rfl | ⟨rfl, _⟩
    · rw [List.mem_singleton.mp inEnding]
      rfl
    · rcases List.mem_pair.mp inEnding with rfl | rfl <;> rfl
    · exact nomatch inEnding

/-- A deletion ends with the rest of the line or with its statement. -/
theorem removalStop_cases (stop : Nat) (rest : Bytes) :
    (∃ taken, RestOfLine rest taken ∧ removalStop stop rest = stop + taken.length) ∨
      removalStop stop rest = stop := by
  by_cases closes : ∃ taken, RestOfLine rest taken
  · obtain ⟨taken, closes⟩ := closes
    exact .inl ⟨taken, closes, removalStop_of_restOfLine stop closes⟩
  · exact .inr (removalStop_of_not_restOfLine stop fun taken here => closes ⟨taken, here⟩)

theorem le_removalStop (stop : Nat) (rest : Bytes) : stop ≤ removalStop stop rest := by
  rcases removalStop_cases stop rest with ⟨taken, _, ends⟩ | ends <;> omega

theorem removalStop_le_length {source : Bytes} {stop : Nat} (inside : stop ≤ source.length) :
    removalStop stop (source.drop stop) ≤ source.length := by
  rcases removalStop_cases stop (source.drop stop) with ⟨taken, closes, ends⟩ | ends
  · obtain ⟨⟨after, rest⟩, _⟩ := closes.exists_append_eq
    have size := congrArg List.length rest
    rw [List.length_drop, List.length_append] at size
    omega
  · omega

/-- **A deletion does not reach an octet behind its statement that is no blank and no line end.** -/
theorem removalStop_le {source : Bytes} {stop offset : Nat} {octet : UInt8} (later : stop ≤ offset)
    (here : source[offset]? = some octet) (visible : isSpaceOctet octet = false) :
    removalStop stop (source.drop stop) ≤ offset := by
  rcases removalStop_cases stop (source.drop stop) with ⟨taken, closes, ends⟩ | ends
  · obtain ⟨⟨after, rest⟩, spaces⟩ := closes.exists_append_eq
    by_contra beyond
    have inTaken : offset - stop < taken.length := by omega
    have same : (taken ++ after)[offset - stop]? = taken[offset - stop]? :=
      List.getElem?_append_left inTaken
    have found : taken[offset - stop]? = some octet := by
      rw [← here, ← same, ← rest, List.getElem?_drop]
      congr 1
      omega
    exact absurd ((spaces octet (List.mem_of_getElem? found)).symm.trans visible) (by decide)
  · omega

/-- An edit deletes a statement. It takes the rest of the line with it when only blanks are left
there, and otherwise nothing but the statement. -/
structure Deletes (source : Bytes) (declaration : ImportDeclaration) (edit : Edit) : Prop where
  start : edit.start = declaration.start
  text : edit.text = ""
  stopOfClosed : ∀ taken, RestOfLine (source.drop declaration.stop) taken →
    edit.stop = declaration.stop + taken.length
  stopOfOpen : (∀ taken, ¬ RestOfLine (source.drop declaration.stop) taken) →
    edit.stop = declaration.stop

theorem deletes_removal (source : Bytes) (declaration : ImportDeclaration) :
    Deletes source declaration (removal source declaration) where
  start := rfl
  text := rfl
  stopOfClosed _ closes := removalStop_of_restOfLine _ closes
  stopOfOpen unclosed := removalStop_of_not_restOfLine _ unclosed

/-! ## The edits -/

/-- The edits of a change for a plan: the insertion, if something is planned, and the deletions. -/
def editsOf (source : Bytes) (root : Node) (options : Options) (planned : List PlannedImport) :
    List Edit :=
  (if planned.isEmpty then []
    else [insertion source root (ImportDeclaration.ofRoot source root) options planned]) ++
    (ImportDeclaration.removedIn source root options.moduleName options.namespaceName).map
      (removal source)

/-- An edit of the imports inserts at the place for new imports, or it deletes a removed
statement. -/
theorem mem_editsOf_cases {source : Bytes} {root : Node} {options : Options}
    {planned : List PlannedImport} {edit : Edit}
    (member : edit ∈ editsOf source root options planned) :
    edit.start = ImportPosition.find source root ∧ edit.stop = ImportPosition.find source root ∨
      ∃ declaration ∈
        ImportDeclaration.removedIn source root options.moduleName options.namespaceName,
        edit = removal source declaration := by
  rcases List.mem_append.mp member with inserted | deleted
  · split at inserted
    · exact nomatch inserted
    · rw [List.mem_singleton.mp inserted]
      exact .inl ⟨rfl, rfl⟩
  · obtain ⟨declaration, removed, rfl⟩ := List.mem_map.mp deleted
    exact .inr ⟨declaration, removed, rfl⟩

/-- **The imports can be changed exactly when there is a plan, and the plan gives the edits.** -/
theorem plan_eq_ok_iff {source : Bytes} {root : Node} {members : MemberSet} {options : Options}
    {change : ImportChange} :
    plan source root members options = .ok change ↔
      ∃ planned,
        PlannedImport.plan members
          (ImportDeclaration.removedIn source root options.moduleName options.namespaceName)
          options.moduleName = .ok planned ∧
        change = ⟨editsOf source root options planned, (ImportDeclaration.removedIn source root
          options.moduleName options.namespaceName).length⟩ := by
  unfold plan ImportDeclaration.removedIn
  dsimp only
  cases PlannedImport.plan members _ options.moduleName with
  | error clash =>
      exact iff_of_false (fun impossible => nomatch impossible)
        fun ⟨_, impossible, _⟩ => nomatch impossible
  | ok planned =>
      rw [Except.map]
      constructor
      · intro same
        refine ⟨planned, rfl, (Except.ok.inj same).symm.trans ?_⟩
        unfold editsOf
        split <;> rfl
      · rintro ⟨_, same, rfl⟩
        cases same
        unfold editsOf
        split <;> rfl

end Unqualify.ImportChange
