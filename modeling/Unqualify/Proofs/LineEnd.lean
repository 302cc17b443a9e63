import Mathlib.Data.List.Infix
import Unqualify.Proofs.Cut
import Unqualify.Proofs.Discovery
import Unqualify.Proofs.Frame

/-!
# Line ends of two characters

In some texts every line feed comes right after a carriage return. Such texts can be put together,
and a part of one is such a text when it does not begin with a line feed (`Follows.append`,
`Follows.slice`).

When no node of a tree starts or ends inside a line end, this is a property of all that a transform
reads and writes: of names and specifiers, because they are the texts of nodes, of new imports,
because they take the line end of the unit (`follows_blockText`), and of what stays between the
edits, because a deletion that takes the rest of its line takes both characters or none
(`getElem?_removalStop_ne`). So a transform keeps the line ends of such a unit
(`transform_keeps_line_ends`).
-/

set_option autoImplicit false

namespace Unqualify

/-! ## One item right after another -/

/-- Every `second` of a list comes right after a `first`. -/
def Follows {α : Type} (first second : α) (items : List α) : Prop :=
  ∀ index, items[index]? = some second → (items.take index).getLast? = some first

instance {α : Type} [DecidableEq α] (first second : α) (items : List α) :
    Decidable (Follows first second items) :=
  decidable_of_iff
    (∀ index < items.length, items[index]? = some second → (items.take index).getLast? = some first)
    ⟨fun here index found => here index (List.getElem?_eq_some_iff.mp found).1 found,
      fun follows index _ found => follows index found⟩

section

variable {α : Type} {first second : α} {items later : List α}

theorem follows_nil : Follows first second [] :=
  fun _ found => nomatch found

/-- A last item is judged by the one before it. -/
theorem follows_concat {item : α} :
    Follows first second (items ++ [item]) ↔
      Follows first second items ∧ (item = second → items.getLast? = some first) := by
  constructor
  · intro follows
    constructor
    · intro index found
      have inside : index < items.length := (List.getElem?_eq_some_iff.mp found).1
      have here := follows index (by rw [List.getElem?_append_left inside, found])
      rwa [List.take_append_of_le_length (Nat.le_of_lt inside)] at here
    · rintro rfl
      have here := follows items.length List.getElem?_concat_length
      rwa [List.take_left] at here
  · rintro ⟨follows, last⟩ index found
    have inside : index < items.length + 1 := by
      simpa using (List.getElem?_eq_some_iff.mp found).1
    rcases Nat.lt_succ_iff_lt_or_eq.mp inside with earlier | rfl
    · rw [List.getElem?_append_left earlier] at found
      rw [List.take_append_of_le_length (Nat.le_of_lt earlier)]
      exact follows index found
    · rw [List.getElem?_concat_length] at found
      rw [List.take_left]
      exact last (Option.some.inj found)

theorem follows_of_notMem (absent : second ∉ items) : Follows first second items :=
  fun _ found => absurd (List.mem_of_getElem? found) absent

theorem Follows.append (follows : Follows first second items)
    (followsToo : Follows first second later) :
    Follows first second (items ++ later) := by
  -- The second list is built up from its end, so that only its last item has to be judged.
  induction later using List.reverseRecOn with
  | nil => rwa [List.append_nil]
  | append_singleton front last ih =>
      obtain ⟨before, here⟩ := follows_concat.mp followsToo
      rw [← List.append_assoc]
      refine follows_concat.mpr ⟨ih before, fun isSecond => ?_⟩
      rw [List.getLast?_append, here isSecond, Option.some_or]

theorem Follows.of_append_left (follows : Follows first second (items ++ later)) :
    Follows first second items := by
  induction later using List.reverseRecOn with
  | nil => rwa [List.append_nil] at follows
  | append_singleton front last ih =>
      rw [← List.append_assoc] at follows
      exact ih (follows_concat.mp follows).1

/-- The end of a list keeps the property when it does not begin with a `second`. -/
theorem Follows.of_append_right (follows : Follows first second (items ++ later))
    (begins : later.head? ≠ some second) : Follows first second later := by
  induction later using List.reverseRecOn with
  | nil => exact follows_nil
  | append_singleton front last ih =>
      rw [← List.append_assoc] at follows
      obtain ⟨before, here⟩ := follows_concat.mp follows
      cases front with
      | nil =>
          exact follows_of_notMem fun found => begins (by rw [List.mem_singleton.mp found]; rfl)
      | cons item rest =>
          refine follows_concat.mpr ⟨ih before begins, fun isSecond => ?_⟩
          have last := here isSecond
          rwa [List.getLast?_append_of_ne_nil _ (List.cons_ne_nil item rest)] at last

theorem Follows.flatten {parts : List (List α)} (each : ∀ part ∈ parts, Follows first second part) :
    Follows first second parts.flatten := by
  induction parts with
  | nil => exact follows_nil
  | cons part parts ih =>
      rw [List.flatten_cons]
      exact (each part List.mem_cons_self).append
        (ih fun other member => each other (List.mem_cons_of_mem _ member))

theorem Follows.intercalate (between : Follows first second items) {parts : List (List α)}
    (each : ∀ part ∈ parts, Follows first second part) :
    Follows first second (items.intercalate parts) := by
  induction parts with
  | nil => exact follows_nil
  | cons part parts ih =>
      have here := each part List.mem_cons_self
      have rest := ih fun other member => each other (List.mem_cons_of_mem _ member)
      cases parts with
      | nil => rwa [List.intercalate_singleton]
      | cons next parts =>
          rw [List.intercalate_cons_cons]
          exact (here.append between).append rest

end

/-! ## Octets of line ends -/

namespace Utf8

theorem getLast?_flatMap_encodeChar_iff {characters : List Char} :
    (characters.flatMap String.utf8EncodeChar).getLast? = some 0x0D ↔
      characters.getLast? = some '\r' := by
  induction characters using List.reverseRecOn with
  | nil => simp
  | append_singleton front last _ =>
      rw [List.flatMap_append, List.flatMap_singleton,
        List.getLast?_append_of_ne_nil _ String.utf8EncodeChar_ne_nil, List.getLast?_concat]
      constructor
      · intro ends
        rw [eq_of_mem_encodeChar (by decide) encodeChar_carriageReturn (List.mem_of_getLast? ends)]
      · intro ends
        rw [Option.some.inj ends, encodeChar_carriageReturn]
        rfl

/-- **Line feeds come after carriage returns in a text exactly when they do in its octets.** -/
theorem follows_encode_iff {text : String} :
    Follows 0x0D 0x0A (encode text) ↔ Follows '\r' '\n' text.toList := by
  rw [encode]
  induction text.toList using List.reverseRecOn with
  | nil => exact ⟨fun _ => follows_nil, fun _ => follows_nil⟩
  | append_singleton front last ih =>
      rw [List.flatMap_append, List.flatMap_singleton, follows_concat]
      by_cases isFeed : last = '\n'
      · rw [isFeed, encodeChar_lineFeed, follows_concat, ih, getLast?_flatMap_encodeChar_iff]
        simp
      · have absent : 0x0A ∉ String.utf8EncodeChar last := fun member =>
          isFeed (eq_of_mem_encodeChar (by decide) encodeChar_lineFeed member)
        rw [← ih]
        exact ⟨fun follows => ⟨follows.of_append_left, fun is => absurd is isFeed⟩,
          fun follows => follows.1.append (follows_of_notMem absent)⟩

end Utf8

/-- An offset between a carriage return and the line feed after it. -/
def Bytes.InLineEnd (source : Bytes) (offset : Nat) : Prop :=
  (source.take offset).getLast? = some 0x0D ∧ source[offset]? = some 0x0A

instance (source : Bytes) (offset : Nat) : Decidable (source.InLineEnd offset) :=
  inferInstanceAs (Decidable (_ ∧ _))

section

variable {source : Bytes} (paired : Follows 0x0D 0x0A source) {start stop : Nat}

include paired

/-- Where every line feed comes after a carriage return, only the inside of a line end has a line
feed after it. -/
theorem Bytes.inLineEnd_iff : source.InLineEnd start ↔ source[start]? = some 0x0A :=
  ⟨fun inside => inside.2, fun found => ⟨paired start found, found⟩⟩

/-- What follows an offset has the property when it does not begin with a line feed. -/
theorem Follows.drop (begins : source[start]? ≠ some 0x0A) :
    Follows 0x0D 0x0A (source.drop start) := by
  rw [← List.take_append_drop start source] at paired
  exact paired.of_append_right (by rwa [List.head?_drop])

theorem Follows.slice (begins : source[start]? ≠ some 0x0A) :
    Follows 0x0D 0x0A (source.slice start stop) := by
  have rest := paired.drop begins
  rw [← List.take_append_drop (stop - start) (source.drop start)] at rest
  exact rest.of_append_left

/-- The text of a node has the property when the node does not begin with a line feed. -/
theorem Node.follows_text {node : Node} (begins : source[node.start]? ≠ some 0x0A) :
    Follows '\r' '\n' (node.text source).toList := by
  rw [Node.text, Node.bytes, Utf8.decodeOrEmpty]
  cases read : Utf8.decode (source.slice node.start node.stop) with
  | error fault => exact follows_nil
  | ok text =>
      rw [← Utf8.follows_encode_iff, ← Utf8.decode_eq_ok_iff.mp read]
      exact paired.slice begins

/-- A deletion that takes the rest of its line takes both characters of the line end. -/
theorem ImportChange.getElem?_removalStop_ne (begins : source[stop]? ≠ some 0x0A) :
    source[removalStop stop (source.drop stop)]? ≠ some 0x0A := by
  rcases removalStop_cases stop (source.drop stop) with ⟨taken, closes, ends⟩ | ends
  · obtain ⟨blanks, ending, after, rest, isTaken, _, form⟩ := closes
    rw [← List.append_assoc, ← isTaken] at rest
    rw [ends, ← List.getElem?_drop, rest]
    intro found
    -- Such a line feed would come after a carriage return that the deletion takes last.
    have last : taken.getLast? = some 0x0D := by
      have here := paired.drop begins taken.length (rest ▸ found)
      rwa [rest, List.take_left] at here
    rcases form with rfl | rfl | ⟨_, rfl⟩
    · rw [isTaken, List.getLast?_append_of_ne_nil _ (by simp)] at last
      exact nomatch last
    · rw [isTaken, List.getLast?_append_of_ne_nil _ (by simp)] at last
      exact nomatch last
    · rw [List.append_nil, List.getElem?_eq_none (Nat.le_refl _)] at found
      exact nomatch found
  · rwa [ends]

end

/-! ## What a transform writes -/

theorem CodeStyle.hasCarriageLineFeed_of_occurs {characters : List Char}
    (somewhere : ['\r', '\n'] <:+: characters) : hasCarriageLineFeed characters = true := by
  fun_induction hasCarriageLineFeed characters with
  | case1 => exact absurd somewhere (by simp)
  | case2 => rfl
  | case3 c rest other ih =>
      refine ih ((List.infix_cons_iff.mp somewhere).resolve_left ?_)
      rintro ⟨after, same⟩
      obtain ⟨rfl, rfl⟩ := List.cons.inj same
      exact other after rfl rfl

/-- New imports take the line end of a unit that has one of two characters. -/
theorem CodeStyle.newline_detect {text : String} (somewhere : ['\r', '\n'] <:+: text.toList) :
    (detect text).newline = "\r\n" := by
  rw [detect]
  simp only [hasCarriageLineFeed_of_occurs somewhere, if_true]

/-- The literal of an import statement is the text of a node. -/
theorem ImportDeclaration.exists_occurrence_of_literal {source : Bytes} {root : Node}
    {declaration : ImportDeclaration} (member : declaration ∈ ofRoot source root) {literal : String}
    (found : declaration.literal = some literal) :
    ∃ occurrence ∈ root.occurrences, occurrence.node.text source = literal := by
  obtain ⟨statement, isStatement, rfl⟩ := List.mem_map.mp member
  have isChild : statement ∈ root.children :=
    (List.mem_filter.mp (List.mem_filter.mp isStatement).1).1
  obtain ⟨node, isLiteral, rfl⟩ := Option.map_eq_some_iff.mp found
  have below : node ∈ statement.children := by
    rcases Option.or_eq_some_iff.mp isLiteral with filled | ⟨_, string⟩
    · exact List.mem_of_find?_eq_some filled
    · exact (List.mem_filter.mp (List.mem_of_find?_eq_some string)).1
  have occurs := Node.child_mem_occurrences (Node.root_mem_occurrences root) isChild
  exact ⟨_, Node.child_mem_occurrences occurs below, rfl⟩

section

variable {source : Bytes} {root : Node}
  (texts : ∀ occurrence ∈ root.occurrences, Follows '\r' '\n' (occurrence.node.text source).toList)

include texts

/-- The name of a member is the text of a node. -/
theorem Reference.follows_member {language : Language} {namespaceName : String}
    {reference : Reference} (found : reference ∈ find source language namespaceName root) :
    Follows '\r' '\n' reference.member.toList := by
  obtain ⟨occurrence, occurs, stands⟩ := exists_stands_of_mem_find found
  obtain ⟨_, back, parts, _, same⟩ := stands.exists_hasParts
  have written := texts _ (Node.child_mem_occurrences occurs parts.mem.2.1)
  rwa [← same]

/-- The quotes of new imports are marks, or the first character of a literal. -/
theorem ImportChange.follows_quoteMark (options : Options) (style : CodeStyle) :
    Follows '\r' '\n'
      (quoteMark (ImportDeclaration.ofRoot source root) options style).toList := by
  have mark (quote : Quote) : Follows '\r' '\n' quote.mark.toList :=
    follows_of_notMem (by cases quote <;> decide)
  unfold quoteMark
  split
  next quote _ => exact mark quote
  next =>
    dsimp only
    split
    next literal found =>
      obtain ⟨declaration, first, isLiteral⟩ := Option.bind_eq_some_iff.mp found
      have declared : declaration ∈ ImportDeclaration.ofRoot source root := by
        have preferred := List.mem_of_head? first
        split at preferred
        · exact preferred
        · exact (List.mem_filter.mp preferred).1
      obtain ⟨occurrence, occurs, rfl⟩ :=
        ImportDeclaration.exists_occurrence_of_literal declared isLiteral
      have whole := texts occurrence occurs
      rw [← List.take_append_drop 1 (occurrence.node.text source).toList] at whole
      rw [String.toList_ofList]
      exact whole.of_append_left
    next => exact mark style.quote

/-- The specifiers of planned imports are written as nodes are. -/
theorem PlannedImport.follows_text {language : Language} {options : Options}
    {planned : List PlannedImport}
    (success : plan (.ofReferences (Reference.find source language options.namespaceName root))
      (ImportDeclaration.removedIn source root options.moduleName options.namespaceName)
      options.moduleName = .ok planned)
    {statement : PlannedImport} (member : statement ∈ planned)
    {specifier : Specifier} (listed : specifier ∈ statement.specifiers) :
    Follows '\r' '\n' specifier.text.toList := by
  obtain ⟨_, typeOnly, rfl⟩ := (mem_plan success).mp member
  rcases mem_complete listed with carried | ⟨name, among, rfl⟩
  · rw [ImportDeclaration.carried_eq_map] at carried
    obtain ⟨node, among, rfl⟩ := List.mem_map.mp carried
    have inTree := (ImportDeclaration.carriedNodes_sublist_preorder _ _ _ _ _).subset among
    obtain ⟨occurrence, occurs, rfl⟩ := List.mem_map.mp inTree
    exact texts occurrence occurs
  · obtain ⟨reference, found, _, rfl⟩ := MemberSet.mem_side_ofReferences.mp among
    exact Reference.follows_member texts found

end

/-- A new import has the property when its specifiers, its quotes and the module name have it. -/
theorem PlannedImport.follows_render {statement : PlannedImport}
    (specifiers : ∀ specifier ∈ statement.specifiers, Follows '\r' '\n' specifier.text.toList)
    (oneLine : '\n' ∉ statement.moduleName.toList) {quote : String}
    (quotes : Follows '\r' '\n' quote.toList) (semicolon : Bool) :
    Follows '\r' '\n' (statement.render quote semicolon).toList := by
  have names : Follows '\r' '\n' (", ".intercalate statement.names).toList := by
    rw [String.toList_intercalate]
    refine Follows.intercalate (follows_of_notMem (by decide)) ?_
    intro part member
    obtain ⟨_, named, rfl⟩ := List.mem_map.mp member
    obtain ⟨specifier, listed, rfl⟩ := List.mem_map.mp named
    exact specifiers specifier listed
  have keyword :
      Follows '\r' '\n' (if statement.typeOnly then "import type" else "import").toList :=
    follows_of_notMem (by split <;> decide)
  have ending : Follows '\r' '\n' (if semicolon then ";" else "").toList :=
    follows_of_notMem (by split <;> decide)
  have opening : Follows '\r' '\n' " \x7b ".toList := follows_of_notMem (by decide)
  have closing : Follows '\r' '\n' " \x7d from ".toList := follows_of_notMem (by decide)
  rw [render]
  simp only [String.toList_append]
  exact ((((((keyword.append opening).append names).append closing).append quotes).append
    (follows_of_notMem oneLine)).append quotes).append ending

/-! ## Whole transforms -/

namespace SourceUnit

variable {unit : SourceUnit} {parser : Parser} {options : Options}

section

variable {planned : List PlannedImport} (somewhere : ['\r', '\n'] <:+: unit.text.toList)
  (texts : ∀ occurrence ∈ (unit.root parser).occurrences,
    Follows '\r' '\n' (occurrence.node.text unit.source).toList)
  (oneLine : '\n' ∉ options.moduleName.toList)
  (success : PlannedImport.plan (.ofReferences (unit.references parser options))
    (unit.removed parser options) options.moduleName = .ok planned)

include somewhere texts oneLine success

/-- **The block of new imports takes the line end of the unit.** -/
theorem follows_blockText : Follows '\r' '\n' (unit.blockText parser options planned).toList := by
  have newline : Follows '\r' '\n' (CodeStyle.detect unit.text).newline.toList := by
    rw [CodeStyle.newline_detect somewhere]
    decide
  have quotes := ImportChange.follows_quoteMark texts options (CodeStyle.detect unit.text)
  rw [blockText, String.toList_append, String.toList_join, List.flatMap_map]
  refine Follows.append ?_ (Follows.flatten ?_)
  · split
    · exact newline
    · exact follows_nil
  · intro part member
    obtain ⟨statement, isPlanned, rfl⟩ := List.mem_map.mp member
    obtain ⟨_, typeOnly, rfl⟩ := (PlannedImport.mem_plan success).mp isPlanned
    rw [String.toList_append]
    refine Follows.append ?_ newline
    exact PlannedImport.follows_render
      (fun specifier => PlannedImport.follows_text texts success isPlanned) oneLine quotes _

/-- Every text that a transform puts into a unit has the property. -/
theorem follows_text_of_mem_editsFor {edit : Edit}
    (member : edit ∈ unit.editsFor parser options planned) :
    Follows '\r' '\n' edit.text.toList := by
  rw [editsFor_eq_changes, changes, List.mem_append, List.mem_append] at member
  rcases member with (inserted | deleted) | replaced
  · split at inserted
    · exact absurd inserted List.not_mem_nil
    · rw [List.mem_singleton.mp inserted]
      exact follows_blockText somewhere texts oneLine success
  · obtain ⟨declaration, _, rfl⟩ := List.mem_map.mp deleted
    exact follows_nil
  · obtain ⟨reference, found, rfl⟩ := List.mem_map.mp replaced
    exact Reference.follows_member texts found

end

/-- **A transform keeps line ends of two characters.** When a unit has such line ends and every line
feed of it is in one, when no node starts or ends inside of one and the module name has no line
feed, then every line feed of the output comes right after a carriage return. -/
theorem transform_keeps_line_ends {transformed : Transformed}
    (somewhere : ['\r', '\n'] <:+: unit.text.toList)
    (paired : Follows '\r' '\n' unit.text.toList)
    (whole : (unit.root parser).CutsAt fun offset => ¬ unit.source.InLineEnd offset)
    (oneLine : '\n' ∉ options.moduleName.toList)
    (success : unit.transform parser options = .ok transformed) :
    Follows '\r' '\n' transformed.output.toList := by
  have octets : Follows 0x0D 0x0A unit.source := Utf8.follows_encode_iff.mpr paired
  have cuts : (unit.root parser).CutsAt fun offset => unit.source[offset]? ≠ some 0x0A := by
    simpa only [Bytes.inLineEnd_iff octets] using whole
  have texts : ∀ occurrence ∈ (unit.root parser).occurrences,
      Follows '\r' '\n' (occurrence.node.text unit.source).toList :=
    fun occurrence occurs => Node.follows_text octets (cuts occurrence occurs).1
  obtain ⟨planned, plan, applied⟩ := applyAll_of_transform success
  rw [← Utf8.follows_encode_iff]
  refine Edit.of_applyAll (Follows 0x0D 0x0A) (fun _ _ => Follows.append)
    (fun start stop begins (_ : True) => octets.slice begins) ?_ trivial ?_ applied
  · intro found
    exact nomatch octets 0 found
  · intro edit member
    refine ⟨trivial, ?_, ?_⟩
    · exact Utf8.follows_encode_iff.mpr
        (follows_text_of_mem_editsFor somewhere texts oneLine plan member)
    · exact (cuts_of_mem_editsFor cuts (fun _ => ImportChange.getElem?_removalStop_ne octets)
        member).2

end SourceUnit

namespace Sample

/-- A unit with line ends of two characters, one of them inside a specifier that is carried over. -/
def twoLineText : String :=
  "import React, \x7b useRef\r\n  as ref \x7d from 'react';\r\nReact.useState(0);\r\n"

def twoLineUnit : SourceUnit where
  text := twoLineText

def twoLineRoot : Node :=
  branch "program" 0 70 [
    branch "import_statement" 0 48 [
      token "import" 0 6,
      branch "import_clause" 7 34 [
        branch "identifier" 7 12 [],
        token "," 12 13,
        branch "named_imports" 14 34 [
          token "\x7b" 14 15,
          branch "import_specifier" 16 32 [
            filling "name" "identifier" 16 22 [], token "as" 26 28,
            filling "alias" "identifier" 29 32 []],
          token "\x7d" 33 34]],
      token "from" 35 39, reactLiteral 40, token ";" 47 48],
    branch "expression_statement" 50 68 [
      branch "call_expression" 50 67 [
        filling "function" "member_expression" 50 64 [
          filling "object" "identifier" 50 55 [],
          token "." 55 56,
          filling "property" "property_identifier" 56 64 []],
        filling "arguments" "arguments" 64 67 [
          token "(" 64 65, branch "number" 65 66 [], token ")" 66 67]],
      token ";" 67 68]]

def twoLineParser : Parser :=
  fun _ _ _ => ⟨twoLineRoot, fun _ => true⟩

/-- The unit after its transform. -/
def twoLineOutput : String :=
  "import \x7b useRef\r\n  as ref, useState \x7d from 'react';\r\nuseState(0);\r\n"

def twoLinePlan : List PlannedImport :=
  [⟨[⟨"useRef\r\n  as ref", "useRef", "ref", false⟩, .plain "useState"], "react", false⟩]

theorem plan_twoLine :
    PlannedImport.plan (.ofReferences (twoLineUnit.references twoLineParser {}))
      (twoLineUnit.removed twoLineParser {}) ({} : Options).moduleName = .ok twoLinePlan := by
  rw [PlannedImport.plan_eq_ok_iff]
  decide +kernel

theorem editsFor_twoLine :
    twoLineUnit.editsFor twoLineParser {} twoLinePlan =
      [⟨0, 0, "import \x7b useRef\r\n  as ref, useState \x7d from 'react';\r\n"⟩, ⟨0, 50, ""⟩,
        ⟨50, 64, "useState"⟩] := by
  decide +kernel

theorem transform_twoLine :
    twoLineUnit.transform twoLineParser {} =
      .ok ⟨twoLineText, twoLineOutput, ⟨["useState"], []⟩, 1, 1⟩ := by
  refine SourceUnit.transform_eq_ok_iff.mpr ⟨rfl, twoLinePlan, plan_twoLine, .inr ?_⟩
  rw [editsFor_twoLine]
  refine ⟨List.cons_ne_nil _ _, twoLineOutput, ?_, rfl, by decide +kernel⟩
  exact Edit.applyAll_of_pairwise (by decide) (by decide +kernel)

end Sample

/-- A specifier that goes over two lines is carried with its line end, and the new import has the
line end of the unit. -/
theorem SourceUnit.transform_keeps_line_ends_of_carried :
    (Sample.twoLineUnit.transform Sample.twoLineParser {} =
        .ok ⟨Sample.twoLineText, Sample.twoLineOutput, ⟨["useState"], []⟩, 1, 1⟩) ∧
      '\n' ∈ Sample.twoLineOutput.toList ∧ Follows '\r' '\n' Sample.twoLineOutput.toList := by
  have whole : (Sample.twoLineUnit.root Sample.twoLineParser).CutsAt
      fun offset => ¬ Sample.twoLineUnit.source.InLineEnd offset := by
    unfold Node.CutsAt
    decide +kernel
  have keeps := transform_keeps_line_ends (by decide +kernel) (by decide +kernel) whole (by decide)
    Sample.transform_twoLine
  exact ⟨Sample.transform_twoLine, by decide +kernel, keeps⟩

end Unqualify
