import Mathlib.Data.List.Infix
import Unqualify.Proofs.Cut

/-!
# Cutting between characters

Offsets count octets, and a character can have several of them. An offset is a boundary of a text
when the octets in front of it are those of characters at the beginning of the text. The octets
between two boundaries are the form of a text (`Boundary.exists_slice_eq`), and an octet below 128
leads from one boundary to the next (`Boundary.succ_of_ascii`).

A parser gives nodes that start and end at boundaries. All that a transform reads from such a tree
is then text, and all its edits start and end at boundaries, also where a deletion takes the rest of
its line with it. So the outcome of the edits is the form of a text, and a transform never fails for
octets that cannot be read (`transform_stays_text`).
-/

set_option autoImplicit false

namespace Unqualify

namespace Utf8

/-! ## Boundaries -/

/-- An offset lies between two characters of a text, or at one of its ends. -/
def Boundary (text : String) (offset : Nat) : Prop :=
  ∃ before after : String, text = before ++ after ∧ (encode before).length = offset

theorem boundary_iff {text : String} {offset : Nat} :
    Boundary text offset ↔
      ∃ before ∈ text.toList.inits, (before.flatMap String.utf8EncodeChar).length = offset := by
  constructor
  · rintro ⟨before, after, rfl, rfl⟩
    refine ⟨before.toList, ?_, rfl⟩
    rw [List.mem_inits, String.toList_append]
    exact List.prefix_append _ _
  · rintro ⟨before, begins, rfl⟩
    obtain ⟨after, whole⟩ := (List.mem_inits _ _).mp begins
    refine ⟨String.ofList before, String.ofList after, ?_, ?_⟩
    · rw [← String.ofList_append, whole, String.ofList_toList]
    · rw [encode, String.toList_ofList]

instance (text : String) (offset : Nat) : Decidable (Boundary text offset) :=
  decidable_of_iff _ boundary_iff.symm

section

variable {text : String} {start stop offset : Nat}

theorem boundary_zero (text : String) : Boundary text 0 :=
  ⟨"", text, (String.empty_append).symm, rfl⟩

theorem boundary_length (text : String) : Boundary text (encode text).length :=
  ⟨text, "", (String.append_empty).symm, rfl⟩

/-- **The octets between two boundaries are the form of a text.** -/
theorem Boundary.exists_slice_eq (starts : Boundary text start) (stops : Boundary text stop) :
    ∃ part, (encode text).slice start stop = encode part := by
  obtain ⟨before, after, rfl, rfl⟩ := starts
  obtain ⟨front, back, same, rfl⟩ := stops
  have characters : before.toList ++ after.toList = front.toList ++ back.toList := by
    rw [← String.toList_append, ← String.toList_append, same]
  rcases List.append_eq_append_iff.mp characters with ⟨part, longer, rest⟩ | ⟨part, shorter, _⟩
  · -- The first boundary comes first, and `part` stands between the two.
    have frontEq : front = before ++ String.ofList part :=
      String.toList_inj.mp (by rw [String.toList_append, String.toList_ofList, longer])
    have afterEq : after = String.ofList part ++ back :=
      String.toList_inj.mp (by rw [String.toList_append, String.toList_ofList, rest])
    refine ⟨String.ofList part, ?_⟩
    rw [frontEq, afterEq, Bytes.slice, encode_append, encode_append, encode_append, List.drop_left,
      List.length_append, Nat.add_sub_cancel_left, List.take_left]
  · have beforeEq : before = front ++ String.ofList part :=
      String.toList_inj.mp (by rw [String.toList_append, String.toList_ofList, shorter])
    have nothing : (encode front).length - (encode before).length = 0 := by
      rw [beforeEq, encode_append, List.length_append]
      omega
    exact ⟨"", by rw [Bytes.slice, nothing, List.take_zero]; rfl⟩

/-- An octet below 128 at a boundary leads to the next boundary. -/
theorem Boundary.succ_of_ascii (here : Boundary text offset) {octet : UInt8}
    (found : (encode text)[offset]? = some octet) (ascii : octet.toNat < 0x80) :
    Boundary text (offset + 1) := by
  obtain ⟨before, after, rfl, rfl⟩ := here
  rw [encode_append, List.getElem?_append_right (Nat.le_refl _), Nat.sub_self] at found
  obtain ⟨c, rest, characters⟩ : ∃ c rest, after.toList = c :: rest := by
    cases characters : after.toList with
    | nil => simp [encode, characters] at found
    | cons c rest => exact ⟨c, rest, rfl⟩
  have afterEq : after = String.singleton c ++ String.ofList rest :=
    String.toList_inj.mp (by
      rw [String.toList_append, String.toList_ofList, String.toList_singleton, characters]
      rfl)
  -- The character that begins here begins with the octet, so it has no other one.
  have alone : String.utf8EncodeChar c = [octet] := by
    cases octets : String.utf8EncodeChar c with
    | nil => exact absurd octets String.utf8EncodeChar_ne_nil
    | cons lead tail =>
        rw [encode, characters, List.flatMap_cons, octets] at found
        obtain rfl : lead = octet := Option.some.inj found
        have member : lead ∈ String.utf8EncodeChar c := octets ▸ List.mem_cons_self
        rw [← octets]
        exact (encodeChar_of_mem_ascii member ascii).2
  refine ⟨before ++ String.singleton c, String.ofList rest, ?_, ?_⟩
  · rw [afterEq, String.append_assoc]
  · rw [encode_append, List.length_append, encode, encode, String.toList_singleton,
      List.flatMap_singleton, alone, List.length_singleton]

/-- Octets below 128 lead from a boundary to a boundary. -/
theorem Boundary.add_of_ascii (here : Boundary text offset) {taken rest : Bytes}
    (follows : (encode text).drop offset = taken ++ rest)
    (ascii : ∀ octet ∈ taken, octet.toNat < 0x80) : Boundary text (offset + taken.length) := by
  induction taken generalizing offset with
  | nil => exact here
  | cons octet taken ih =>
      have found : (encode text)[offset]? = some octet := by
        rw [← List.head?_drop, follows]
        rfl
      have next : (encode text).drop (offset + 1) = taken ++ rest := by
        rw [← List.drop_drop, follows]
        rfl
      have moved := ih (here.succ_of_ascii found (ascii octet List.mem_cons_self)) next
        fun other member => ascii other (List.mem_cons_of_mem _ member)
      rwa [List.length_cons, Nat.add_comm taken.length, ← Nat.add_assoc]

end

end Utf8

/-! ## Edits at boundaries -/

/-- **Edits that start and end at boundaries make a text of a text.** -/
theorem Edit.exists_encode_eq_of_applyAll {text : String} {edits : List Edit}
    (cuts : ∀ edit ∈ edits, Utf8.Boundary text edit.start ∧ Utf8.Boundary text edit.stop)
    {out : Bytes} (success : applyAll (Utf8.encode text) edits = .ok out) :
    ∃ output, out = Utf8.encode output := by
  refine of_applyAll (fun octets => ∃ output, octets = Utf8.encode output) ?_ ?_
    (Utf8.boundary_zero text) (Utf8.boundary_length text) ?_ success
  · rintro _ _ ⟨first, rfl⟩ ⟨second, rfl⟩
    exact ⟨first ++ second, (Utf8.encode_append first second).symm⟩
  · intro start stop starts stops
    exact starts.exists_slice_eq stops
  · intro edit member
    exact ⟨(cuts edit member).1, ⟨edit.text, rfl⟩, (cuts edit member).2⟩

theorem ImportChange.toNat_lt_of_isSpaceOctet {octet : UInt8} (space : isSpaceOctet octet = true) :
    octet.toNat < 0x80 := by
  simp only [isSpaceOctet, isBlankOctet, Bool.or_eq_true, beq_iff_eq] at space
  rcases space with ((rfl | rfl) | rfl) | rfl <;> decide

/-- A deletion that takes the rest of its line with it ends at a boundary, because the rest of a
line consists of octets below 128. -/
theorem ImportChange.boundary_removalStop {text : String} {stop : Nat}
    (here : Utf8.Boundary text stop) :
    Utf8.Boundary text (removalStop stop ((Utf8.encode text).drop stop)) := by
  rcases removalStop_cases stop ((Utf8.encode text).drop stop) with ⟨taken, closes, ends⟩ | ends
  · obtain ⟨⟨after, rest⟩, spaces⟩ := closes.exists_append_eq
    rw [ends]
    exact here.add_of_ascii rest fun octet member => toNat_lt_of_isSpaceOctet (spaces octet member)
  · rwa [ends]

/-! ## Transforms of text -/

section

variable {text : String} {root : Node} (cuts : root.CutsAt (Utf8.Boundary text))

include cuts

/-- A node that starts and ends at boundaries covers text. -/
theorem Node.CutsAt.decode_bytes {occurrence : Occurrence}
    (occurs : occurrence ∈ root.occurrences) :
    Utf8.decode (occurrence.node.bytes (Utf8.encode text)) =
      .ok (occurrence.node.text (Utf8.encode text)) := by
  obtain ⟨starts, stops⟩ := cuts occurrence occurs
  obtain ⟨part, covered⟩ := starts.exists_slice_eq stops
  rw [Node.text, Node.bytes, covered, Utf8.decode_encode, Utf8.decodeOrEmpty_encode]

theorem ImportChange.boundaries_of_plan {members : MemberSet} {options : Options}
    {change : ImportChange} (success : plan (Utf8.encode text) root members options = .ok change)
    {edit : Edit} (member : edit ∈ change.edits) :
    Utf8.Boundary text edit.start ∧ Utf8.Boundary text edit.stop := by
  obtain ⟨planned, _, rfl⟩ := plan_eq_ok_iff.mp success
  exact cuts_of_mem_editsOf cuts (fun _ => boundary_removalStop) member

theorem Reference.boundaries_of_mem_edits {language : Language} {namespaceName : String}
    {members : MemberSet} {edit : Edit}
    (member : edit ∈ edits (find (Utf8.encode text) language namespaceName root) members) :
    Utf8.Boundary text edit.start ∧ Utf8.Boundary text edit.stop := by
  obtain ⟨reference, found, rfl⟩ := List.mem_map.mp member
  exact cuts_of_mem_find cuts (List.mem_filter.mp found).1

end

namespace SourceUnit

variable {unit : SourceUnit} {parser : Parser} {options : Options}

/-- The edits of a unit whose nodes start and end at boundaries give the octets of a text. -/
theorem exists_encode_eq_of_applyAll (cuts : (unit.root parser).CutsAt (Utf8.Boundary unit.text))
    {planned : List PlannedImport} {out : Bytes}
    (success : Edit.applyAll unit.source (unit.editsFor parser options planned) = .ok out) :
    ∃ output, out = Utf8.encode output := by
  refine Edit.exists_encode_eq_of_applyAll ?_ success
  intro edit member
  exact cuts_of_mem_editsFor cuts (fun _ => ImportChange.boundary_removalStop) member

/-- **A transform stays within text.** When the nodes of a tree start and end between characters,
every node covers text, every edit starts and ends between characters, edits that do so make text of
text, and no transform fails because octets cannot be read. -/
theorem transform_stays_text (text : String) (root : Node)
    (cuts : root.CutsAt (Utf8.Boundary text)) :
    (∀ occurrence ∈ root.occurrences,
      Utf8.decode (occurrence.node.bytes (Utf8.encode text)) =
        .ok (occurrence.node.text (Utf8.encode text))) ∧
    (∀ members options change,
      ImportChange.plan (Utf8.encode text) root members options = .ok change →
      ∀ edit ∈ change.edits, Utf8.Boundary text edit.start ∧ Utf8.Boundary text edit.stop) ∧
    (∀ language namespaceName members,
      ∀ edit ∈ Reference.edits
        (Reference.find (Utf8.encode text) language namespaceName root) members,
        Utf8.Boundary text edit.start ∧ Utf8.Boundary text edit.stop) ∧
    (∀ edits out,
      (∀ edit ∈ edits, Utf8.Boundary text edit.start ∧ Utf8.Boundary text edit.stop) →
      Edit.applyAll (Utf8.encode text) edits = .ok out → ∃ output, Utf8.decode out = .ok output) ∧
    ∀ (unit : SourceUnit) (parser : Parser) (options : Options),
      unit.text = text → unit.root parser = root →
      ∀ fault, unit.transform parser options ≠ .error (.undecodable fault) := by
  refine ⟨fun occurrence occurs => cuts.decode_bytes occurs,
    fun members options change success edit member =>
      ImportChange.boundaries_of_plan cuts success member,
    fun language namespaceName members edit member =>
      Reference.boundaries_of_mem_edits cuts member, ?_, ?_⟩
  · intro edits out within success
    obtain ⟨output, rfl⟩ := Edit.exists_encode_eq_of_applyAll within success
    exact ⟨output, Utf8.decode_encode output⟩
  · rintro unit parser options rfl rfl fault failed
    obtain ⟨planned, octets, applied, unreadable⟩ := exists_applyAll_of_undecodable failed
    obtain ⟨output, rfl⟩ := exists_encode_eq_of_applyAll cuts applied
    exact nomatch unreadable.symm.trans (Utf8.decode_encode output)

end SourceUnit

namespace Sample

/-- A unit with a name in which a character has two octets. -/
def accentText : String :=
  "import React from 'react';\nReact.état();\n"

def accentRoot : Node :=
  branch "program" 0 42 [
    branch "import_statement" 0 26 [
      token "import" 0 6,
      branch "import_clause" 7 12 [branch "identifier" 7 12 []],
      token "from" 13 17,
      filling "source" "string" 18 25 [
        token "'" 18 19, branch "string_fragment" 19 24 [], token "'" 24 25],
      token ";" 25 26],
    branch "expression_statement" 27 41 [
      branch "call_expression" 27 40 [
        filling "function" "member_expression" 27 38 [
          filling "object" "identifier" 27 32 [],
          token "." 32 33,
          filling "property" "property_identifier" 33 38 []],
        filling "arguments" "arguments" 38 40 [token "(" 38 39, token ")" 39 40]],
      token ";" 40 41]]

end Sample

/-- The second octet of a character is not at a boundary, but no node of the unit starts or ends
there. -/
theorem SourceUnit.transform_stays_text_accent :
    Sample.accentRoot.CutsAt (Utf8.Boundary Sample.accentText) ∧
      ¬ Utf8.Boundary Sample.accentText 34 ∧
      ∀ (accepts : String → Bool) (fault : Utf8.Fault),
        SourceUnit.transform { text := Sample.accentText }
          (fun _ _ _ => ⟨Sample.accentRoot, accepts⟩) {} ≠ .error (.undecodable fault) := by
  have cuts : Sample.accentRoot.CutsAt (Utf8.Boundary Sample.accentText) := by
    unfold Node.CutsAt
    decide +kernel
  refine ⟨cuts, by decide +kernel, fun accepts => ?_⟩
  exact (transform_stays_text Sample.accentText Sample.accentRoot cuts).2.2.2.2 _ _ _ rfl rfl

end Unqualify
