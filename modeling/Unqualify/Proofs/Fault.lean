import Mathlib.Data.List.DropRight
import Unqualify.Proofs.SourceUnit

/-!
# The first fault of a unit

The search for a fault goes below a node only when the node is marked, and it falls back to the node
itself when it finds nothing there. When the marks tell where the faults are (`MarksFaults`),
nothing is passed over and the fall-back is never needed: the search finds the first fault in
document order (`firstFault?_eq_find?`).

A unit is refused for its syntax exactly when its tree has a fault. The place in the report is that
of the first one, and the unit is not even surveyed, so that there is nothing to make edits from
(`first_fault_reported`).
-/

set_option autoImplicit false

namespace Unqualify

/-! ## Rows and columns -/

/-- A place locates an offset: its row is counted by the line feeds before the offset, and its
column by the octets since the last of them, or since the start of the text. -/
structure Place.Locates (source : Bytes) (offset : Nat) (place : Place) : Prop where
  row_eq : place.row = (source.take offset).count lineFeed
  column_eq : ∃ above line : Bytes, source.take offset = above ++ line ∧
    (above = [] ∨ above.getLast? = some lineFeed) ∧ lineFeed ∉ line ∧ place.column = line.length

theorem Place.locates_ofOffset (source : Bytes) (offset : Nat) :
    Locates source offset (ofOffset source offset) where
  row_eq := rfl
  column_eq := by
    let within (octet : UInt8) : Bool := octet != lineFeed
    refine ⟨(source.take offset).rdropWhile within, (source.take offset).rtakeWhile within,
      List.rdropWhile_append_rtakeWhile.symm, ?_, ?_, ?_⟩
    · by_cases none : (source.take offset).rdropWhile within = []
      · exact .inl none
      · have last := List.rdropWhile_last_not within (source.take offset) none
        rw [bne_iff_ne, ne_eq, Decidable.not_not] at last
        exact .inr (by rw [List.getLast?_eq_some_getLast none, last])
    · intro member
      exact absurd (List.mem_rtakeWhile_imp member) (by decide)
    · rw [List.rtakeWhile, List.length_reverse]
      rfl

namespace Node

/-! ## The search -/

/-- The marks of a tree tell where its faults are: a node is marked exactly when it or a node below
it is a fault. -/
def MarksFaults (root : Node) : Prop :=
  ∀ node ∈ root.preorder,
    (node.label.faulty = true ↔ ∃ inner ∈ node.preorder, inner.isFault = true)

instance (root : Node) : Decidable root.MarksFaults :=
  inferInstanceAs (Decidable (∀ node ∈ root.preorder,
    (node.label.faulty = true ↔ ∃ inner ∈ node.preorder, inner.isFault = true)))

/-- A fault of a tree before which there is none in document order. -/
def IsFirstFault (root fault : Node) : Prop :=
  fault.isFault = true ∧ ∃ before after, root.preorder = before ++ fault :: after ∧
    ∀ node ∈ before, node.isFault = false

theorem self_mem_preorder (node : Node) : node ∈ node.preorder := by
  rw [preorder_eq]
  exact List.mem_cons_self

theorem MarksFaults.child {root child : Node} (marks : root.MarksFaults)
    (isChild : child ∈ root.children) : child.MarksFaults :=
  fun node below => marks node ((preorder_sublist_of_mem isChild).subset below)

theorem firstFaultAmong?_eq_find? {nodes : List Node}
    (each : ∀ node ∈ nodes, node.firstFault? = node.preorder.find? isFault) :
    firstFaultAmong? nodes = (nodes.flatMap preorder).find? isFault := by
  induction nodes with
  | nil => rfl
  | cons node rest ih =>
      have later := ih fun other member => each other (List.mem_cons_of_mem _ member)
      rw [firstFaultAmong?, each node List.mem_cons_self, later, List.flatMap_cons,
        List.find?_append]
      cases node.preorder.find? isFault <;> rfl

/-- **The search finds the first fault in document order** when the marks tell where the faults
are. -/
theorem firstFault?_eq_find? {root : Node} (marks : root.MarksFaults) :
    root.firstFault? = root.preorder.find? isFault := by
  induction root with
  | mk label children ih =>
      have among : firstFaultAmong? children = (children.flatMap preorder).find? isFault :=
        firstFaultAmong?_eq_find? fun child isChild => ih child isChild (marks.child isChild)
      have marked := marks _ (self_mem_preorder _)
      rw [firstFault?, preorder_eq]
      by_cases here : (Node.mk label children).isFault = true
      · rw [if_pos here, List.find?_cons_of_pos here]
      rw [if_neg here, List.find?_cons_of_neg here, among, children_mk]
      -- The fault that a mark promises is not the node, so it is found below.
      split
      next faulty =>
        obtain ⟨fault, isBelow, isFault⟩ := marked.mp faulty
        rw [preorder_eq, List.mem_cons, children_mk] at isBelow
        have below := isBelow.resolve_left fun same => here (same ▸ isFault)
        cases found : (children.flatMap preorder).find? Node.isFault with
        | none => exact absurd isFault (List.find?_eq_none.mp found fault below)
        | some first => rw [Option.getD_some]
      next sound =>
        symm
        rw [List.find?_eq_none]
        intro fault below isFault
        refine sound (marked.mpr ⟨fault, ?_, isFault⟩)
        rw [preorder_eq]
        exact List.mem_cons_of_mem _ below

section Search

variable {root : Node} (marks : root.MarksFaults)

include marks

theorem firstFault?_eq_some_iff {fault : Node} :
    root.firstFault? = some fault ↔ root.IsFirstFault fault := by
  rw [firstFault?_eq_find? marks, List.find?_eq_some_iff_append]
  simp only [IsFirstFault, Bool.not_eq_true']

theorem firstFault?_eq_none_iff :
    root.firstFault? = none ↔ ∀ node ∈ root.preorder, node.isFault = false := by
  rw [firstFault?_eq_find? marks, List.find?_eq_none]
  simp only [Bool.not_eq_true]

end Search

end Node

/-! ## The report -/

namespace SourceUnit

variable {unit : SourceUnit} {parser : Parser} {options : Options}

theorem survey_of_firstFault {fault : Node} (faulty : (unit.root parser).label.faulty = true)
    (first : (unit.root parser).firstFault? = some fault) :
    unit.survey parser options =
      .error (.syntaxFault unit.file (Place.ofOffset unit.source fault.start) unit.language) := by
  rw [root] at faulty first
  rw [SourceUnit.survey]
  dsimp only
  rw [if_pos faulty, first]
  rfl

/-- Once a unit is surveyed, it is not refused for its syntax any more. -/
theorem transform_survey_ne_syntaxFault (survey : Survey) (file : String) (place : Place)
    (language : Language) :
    survey.transform options ≠ .error (.syntaxFault file place language) := by
  intro failed
  rcases bind_eq_error_iff.mp failed with clashed | ⟨change, _, failed⟩
  · obtain ⟨_, _, impossible⟩ := mapError_eq_error_iff.mp clashed
    exact nomatch impossible
  dsimp only at failed
  split at failed
  next => exact nomatch failed
  rcases bind_eq_error_iff.mp failed with conflict | ⟨octets, _, failed⟩
  · obtain ⟨_, _, impossible⟩ := mapError_eq_error_iff.mp conflict
    exact nomatch impossible
  rcases bind_eq_error_iff.mp failed with unreadable | ⟨output, _, failed⟩
  · obtain ⟨_, _, impossible⟩ := mapError_eq_error_iff.mp unreadable
    exact nomatch impossible
  split at failed <;> exact nomatch failed

/-- A unit is refused for its syntax exactly when the root of its tree is marked. -/
theorem transform_eq_syntaxFault_iff :
    (∃ file place language,
        unit.transform parser options = .error (.syntaxFault file place language)) ↔
      (unit.root parser).label.faulty = true := by
  constructor
  · rintro ⟨file, place, language, refused⟩
    rcases bind_eq_error_iff.mp refused with unsurveyed | ⟨survey, _, failed⟩
    · rw [SourceUnit.survey] at unsurveyed
      dsimp only at unsurveyed
      split at unsurveyed
      next faulty => exact faulty
      next => cases unsurveyed
    · exact absurd failed (transform_survey_ne_syntaxFault survey file place language)
  · intro faulty
    rw [root] at faulty
    rw [SourceUnit.transform, SourceUnit.survey]
    dsimp only
    rw [if_pos faulty]
    exact ⟨_, _, _, rfl⟩

/-- **Where a fault is reported.** When the marks of a tree tell where its faults are, the search
finds the first fault in document order, and nothing exactly when there is none. A unit with this
tree is refused for its syntax exactly when there is a fault. It is then not surveyed, and the
report gives the row and the column, counted from one, at which the first fault starts. -/
theorem first_fault_reported {root : Node} (marks : root.MarksFaults) :
    (∀ fault, root.firstFault? = some fault ↔ root.IsFirstFault fault) ∧
      (root.firstFault? = none ↔ ∀ node ∈ root.preorder, node.isFault = false) ∧
      ∀ (unit : SourceUnit) (parser : Parser) (options : Options), unit.root parser = root →
        ((∃ file place language,
            unit.transform parser options = .error (.syntaxFault file place language)) ↔
          ∃ node ∈ root.preorder, node.isFault = true) ∧
        ∀ fault, root.IsFirstFault fault →
          let place := Place.ofOffset unit.source fault.start
          let failure := UnitFailure.syntaxFault unit.file place unit.language
          place.Locates unit.source fault.start ∧
            unit.survey parser options = .error failure ∧
            unit.transform parser options = .error failure ∧
            failure.message =
              unit.file ++ ":" ++ toString (place.row + 1) ++ ":" ++ toString (place.column + 1) ++
                ": syntax error while parsing as " ++ unit.language.name := by
  refine ⟨fun fault => Node.firstFault?_eq_some_iff marks, Node.firstFault?_eq_none_iff marks, ?_⟩
  rintro unit parser options rfl
  have marked := marks _ (Node.self_mem_preorder (unit.root parser))
  refine ⟨transform_eq_syntaxFault_iff.trans marked, fun fault first => ?_⟩
  have among : fault ∈ (unit.root parser).preorder := by
    obtain ⟨_, before, after, split, _⟩ := first
    simp [split]
  have unsurveyed : unit.survey parser options = _ :=
    survey_of_firstFault (marked.mpr ⟨fault, among, first.1⟩)
      ((Node.firstFault?_eq_some_iff marks).mpr first)
  refine ⟨Place.locates_ofOffset unit.source fault.start, unsurveyed, ?_, rfl⟩
  rw [SourceUnit.transform, unsurveyed]
  rfl

end SourceUnit

namespace Sample

/-- A unit with a value left out on its second row. -/
def unfinished : SourceUnit where
  text := "useId();\nlet a = ;\n"

def marked (kind : String) (start stop : Nat) (children : List Node) : Node :=
  .mk { kind, start, stop, faulty := true } children

def unfinishedFault : Node :=
  marked "ERROR" 15 16 [token "=" 15 16]

def unfinishedRoot : Node :=
  marked "program" 0 19 [
    branch "expression_statement" 0 8 [
      branch "call_expression" 0 7 [
        filling "function" "identifier" 0 5 [],
        filling "arguments" "arguments" 5 7 [token "(" 5 6, token ")" 6 7]],
      token ";" 7 8],
    marked "lexical_declaration" 9 18 [
      token "let" 9 12,
      branch "variable_declarator" 13 14 [filling "name" "identifier" 13 14 []],
      unfinishedFault,
      token ";" 17 18]]

end Sample

/-- The fault is on the second row, behind six octets. -/
theorem SourceUnit.first_fault_reported_unfinished :
    Sample.unfinishedRoot.MarksFaults ∧
      Sample.unfinishedRoot.IsFirstFault Sample.unfinishedFault ∧
      (Place.mk 1 6).Locates Sample.unfinished.source 15 ∧
      Sample.unfinished.transform (fun _ _ _ => ⟨Sample.unfinishedRoot, fun _ => true⟩) {} =
        .error (.syntaxFault "<source>" ⟨1, 6⟩ .tsx) := by
  have marks : Sample.unfinishedRoot.MarksFaults := by decide
  obtain ⟨search, _, report⟩ := first_fault_reported marks
  have first : Sample.unfinishedRoot.IsFirstFault Sample.unfinishedFault := (search _).mp rfl
  have place : Place.ofOffset Sample.unfinished.source Sample.unfinishedFault.start = ⟨1, 6⟩ := by
    decide +kernel
  obtain ⟨locates, _, refused, _⟩ := (report Sample.unfinished
    (fun _ _ _ => ⟨Sample.unfinishedRoot, fun _ => true⟩) {} rfl).2 _ first
  rw [place] at locates refused
  exact ⟨marks, first, locates, refused⟩

end Unqualify
