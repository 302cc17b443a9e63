import Mathlib.Data.List.Basic
import Mathlib.Data.List.Flatten
import Unqualify.Edit

/-!
# What edits do to a text

The pass that splices edits runs over the edits, in the order of their ranges. Here its outcome is
described offset by offset and for the edits in the order in which they are given. In front of the
octet at an offset stand the texts inserted there, one after the other, and then the text for the
range that begins there; the octet itself stays unless a range covers it. The pass succeeds exactly
when all ranges lie in the text and no two of them overlap (`exists_applyAll_eq_ok_iff`), and then
the octets are the outcome so described (`eq_outcome_of_applyAll`). What becomes of a range of the
text is read off the outcome (`madeOf`): it stays when no edit meets it (`madeOf_of_apart`), and it
gives way to the new text when an edit covers it (`madeOf_of_covers`).
-/

set_option autoImplicit false

namespace Unqualify.Edit

/-! ## The outcome offset by offset -/

/-- Whether the octet at an offset lies in the range of an edit. -/
def covers (offset : Nat) (edit : Edit) : Bool :=
  edit.start ≤ offset && offset < edit.stop

/-- Whether an edit inserts at an offset. -/
def insertsAt (offset : Nat) (edit : Edit) : Bool :=
  edit.start == offset && edit.stop == offset

/-- Whether an edit replaces a range that begins at an offset. -/
def replacesFrom (offset : Nat) (edit : Edit) : Bool :=
  edit.start == offset && offset < edit.stop

def texts (edits : List Edit) : Bytes :=
  edits.flatMap fun edit => Utf8.encode edit.text

/-- What edits put in front of the octet at an offset. -/
def newAt (edits : List Edit) (offset : Nat) : Bytes :=
  texts (edits.filter (insertsAt offset)) ++ texts (edits.filter (replacesFrom offset))

/-- The octet at an offset, unless a range covers it. -/
def keptAt (source : Bytes) (edits : List Edit) (offset : Nat) : Bytes :=
  if edits.any (covers offset) then [] else source[offset]?.toList

/-- The octets that no range covers. -/
def kept (source : Bytes) (edits : List Edit) : Bytes :=
  (List.range source.length).flatMap (keptAt source edits)

/-- What edits make of one offset: what is new there, and what is kept. -/
def outcomeAt (source : Bytes) (edits : List Edit) (offset : Nat) : Bytes :=
  newAt edits offset ++ keptAt source edits offset

/-- A text with its edits, offset by offset up to the end of the text. -/
def outcome (source : Bytes) (edits : List Edit) : Bytes :=
  (List.range (source.length + 1)).flatMap (outcomeAt source edits)

/-- Two edits whose ranges do not overlap. -/
def Apart (a b : Edit) : Prop :=
  a.stop ≤ b.start ∨ b.stop ≤ a.start

/-- Edits that can be applied together: their ranges lie in the text and do not overlap. -/
structure Fits (source : Bytes) (edits : List Edit) : Prop where
  inBounds : ∀ edit ∈ edits, edit.start ≤ edit.stop ∧ edit.stop ≤ source.length
  apart : edits.Pairwise Apart

theorem Apart.symm {a b : Edit} (apart : Apart a b) : Apart b a :=
  Or.symm apart

/-! ## One offset -/

theorem newAt_cons_of_ne {edit : Edit} {edits : List Edit} {offset : Nat}
    (elsewhere : edit.start ≠ offset) : newAt (edit :: edits) offset = newAt edits offset := by
  have inserts : insertsAt offset edit = false := by simp [insertsAt, elsewhere]
  have replaces : replacesFrom offset edit = false := by simp [replacesFrom, elsewhere]
  rw [newAt, newAt, List.filter_cons_of_neg (by simp [inserts]),
    List.filter_cons_of_neg (by simp [replaces])]

theorem newAt_cons_of_inserts {edit : Edit} {offset : Nat} (starts : edit.start = offset)
    (stops : edit.stop = offset) (edits : List Edit) :
    newAt (edit :: edits) offset = Utf8.encode edit.text ++ newAt edits offset := by
  have inserts : insertsAt offset edit = true := by simp [insertsAt, starts, stops]
  have replaces : replacesFrom offset edit = false := by simp [replacesFrom, stops]
  rw [newAt, newAt, List.filter_cons_of_pos inserts, List.filter_cons_of_neg (by simp [replaces]),
    texts, List.flatMap_cons, List.append_assoc]
  rfl

theorem newAt_eq_nil {edits : List Edit} {offset : Nat}
    (elsewhere : ∀ edit ∈ edits, edit.start ≠ offset) : newAt edits offset = [] := by
  induction edits with
  | nil => rfl
  | cons edit edits ih =>
      rw [newAt_cons_of_ne (elsewhere edit List.mem_cons_self),
        ih fun other member => elsewhere other (List.mem_cons_of_mem _ member)]

theorem newAt_cons_of_replaces {edit : Edit} {edits : List Edit} (nonempty : edit.start < edit.stop)
    (later : ∀ other ∈ edits, edit.stop ≤ other.start) :
    newAt (edit :: edits) edit.start = Utf8.encode edit.text := by
  have none : newAt edits edit.start = [] := by
    apply newAt_eq_nil
    intro other member
    have := later other member
    omega
  have inserts : insertsAt edit.start edit = false := by simp [insertsAt]; omega
  have replaces : replacesFrom edit.start edit = true := by simp [replacesFrom, nonempty]
  obtain ⟨noInsertion, noReplacement⟩ := List.append_eq_nil_iff.mp none
  rw [newAt, List.filter_cons_of_neg (by simp [inserts]), List.filter_cons_of_pos replaces,
    noInsertion, texts, List.flatMap_cons]
  show [] ++ (Utf8.encode edit.text ++ texts (edits.filter (replacesFrom edit.start))) = _
  rw [noReplacement, List.nil_append, List.append_nil]

theorem keptAt_cons_of_not_covers {edit : Edit} {offset : Nat}
    (uncovered : covers offset edit = false)
    (source : Bytes) (edits : List Edit) :
    keptAt source (edit :: edits) offset = keptAt source edits offset := by
  rw [keptAt, keptAt, List.any_cons, uncovered, Bool.false_or]

theorem keptAt_cons_of_covers {edit : Edit} {offset : Nat} (covered : covers offset edit = true)
    (source : Bytes) (edits : List Edit) : keptAt source (edit :: edits) offset = [] := by
  rw [keptAt, List.any_cons, covered, Bool.true_or, if_pos rfl]

theorem covers_of_lt {edit : Edit} {offset : Nat} (early : offset < edit.start) :
    covers offset edit = false := by
  rw [covers, decide_eq_false (Nat.not_le.mpr early), Bool.false_and]

theorem keptAt_of_lt {edits : List Edit} {offset : Nat}
    (later : ∀ edit ∈ edits, offset < edit.start) (source : Bytes) :
    keptAt source edits offset = source[offset]?.toList := by
  have uncovered : edits.any (covers offset) = false := by
    apply List.any_eq_false.mpr
    intro edit member
    simp [covers_of_lt (later edit member)]
  rw [keptAt, uncovered, if_neg Bool.false_ne_true]

/-! ## Splicing -/

/-- One step of the pass: the edit fits, the octets up to it are copied, and its text follows. -/
theorem splice_cons_eq_ok_iff {size cursor : Nat} {rest out : Bytes} {edit : Edit}
    {edits : List Edit} :
    splice size cursor rest (edit :: edits) = .ok out ↔
      (edit.start ≤ edit.stop ∧ edit.stop ≤ size) ∧ cursor ≤ edit.start ∧
        ∃ after, splice size edit.stop (rest.drop (edit.stop - cursor)) edits = .ok after ∧
          out = rest.take (edit.start - cursor) ++ Utf8.encode edit.text ++ after := by
  by_cases out : edit.stop < edit.start ∨ size < edit.stop
  · rw [splice, if_pos (by simpa using out)]
    apply iff_of_false
    · exact (nomatch ·)
    · rintro ⟨inBounds, _⟩
      omega
  rw [splice, if_neg (by simpa using out)]
  by_cases early : edit.start < cursor
  · rw [if_pos early]
    apply iff_of_false
    · exact (nomatch ·)
    · rintro ⟨_, late, _⟩
      omega
  rw [if_neg early]
  have fits : (edit.start ≤ edit.stop ∧ edit.stop ≤ size) ∧ cursor ≤ edit.start := by omega
  cases splice size edit.stop (rest.drop (edit.stop - cursor)) edits with
  | error conflict =>
      exact iff_of_false (fun impossible => nomatch impossible)
        fun ⟨_, _, _, impossible, _⟩ => nomatch impossible
  | ok after =>
      constructor
      · intro same
        exact ⟨fits.1, fits.2, after, rfl, (Except.ok.inj same).symm⟩
      · rintro ⟨_, _, _, same, rfl⟩
        cases same
        rfl

/-- A pass over a text moves its cursor to the end of the edit, and behind it the octets of the text
are still whole. -/
theorem exists_splice_of_splice_cons {size cursor : Nat} {source out : Bytes} {edit : Edit}
    {edits : List Edit}
    (success : splice size cursor (source.drop cursor) (edit :: edits) = .ok out) :
    (edit.start ≤ edit.stop ∧ edit.stop ≤ size) ∧ cursor ≤ edit.start ∧
      ∃ after, splice size edit.stop (source.drop edit.stop) edits = .ok after ∧
        out =
          (source.drop cursor).take (edit.start - cursor) ++ Utf8.encode edit.text ++ after := by
  obtain ⟨inBounds, behind, after, rest, made⟩ := splice_cons_eq_ok_iff.mp success
  have next : (source.drop cursor).drop (edit.stop - cursor) = source.drop edit.stop := by
    rw [List.drop_drop]
    congr 1
    omega
  rw [next] at rest
  exact ⟨inBounds, behind, after, rest, made⟩

/-- The edits of a pass that succeeds lie behind the cursor and in the text, one behind the
other. -/
theorem ascending_of_splice {size cursor : Nat} {rest out : Bytes} {edits : List Edit}
    (success : splice size cursor rest edits = .ok out) :
    (∀ edit ∈ edits, cursor ≤ edit.start ∧ edit.start ≤ edit.stop ∧ edit.stop ≤ size) ∧
      edits.Pairwise fun a b => a.stop ≤ b.start := by
  induction edits generalizing cursor rest out with
  | nil => exact ⟨fun _ => (nomatch ·), .nil⟩
  | cons edit edits ih =>
      obtain ⟨inBounds, behind, after, rest, _⟩ := splice_cons_eq_ok_iff.mp success
      obtain ⟨each, pairwise⟩ := ih rest
      refine ⟨List.forall_mem_cons.mpr ⟨⟨behind, inBounds⟩, ?_⟩,
        List.pairwise_cons.mpr ⟨?_, pairwise⟩⟩
      · intro other member
        have := each other member
        omega
      · intro other member
        exact (each other member).1

/-- A pass succeeds when its edits lie behind the cursor and in the text, one behind the other. -/
theorem exists_splice_eq_ok {size cursor : Nat} {rest : Bytes} {edits : List Edit}
    (each : ∀ edit ∈ edits, cursor ≤ edit.start ∧ edit.start ≤ edit.stop ∧ edit.stop ≤ size)
    (ascending : edits.Pairwise fun a b => a.stop ≤ b.start) :
    ∃ out, splice size cursor rest edits = .ok out := by
  induction edits generalizing cursor rest with
  | nil => exact ⟨rest, rfl⟩
  | cons edit edits ih =>
      obtain ⟨behind, inBounds⟩ := each edit List.mem_cons_self
      obtain ⟨later, ascending⟩ := List.pairwise_cons.mp ascending
      have next : ∀ other ∈ edits,
          edit.stop ≤ other.start ∧ other.start ≤ other.stop ∧ other.stop ≤ size :=
        fun other member => ⟨later other member, (each other (List.mem_cons_of_mem _ member)).2⟩
      obtain ⟨after, success⟩ :
          ∃ after, splice size edit.stop (rest.drop (edit.stop - cursor)) edits = .ok after :=
        ih next ascending
      exact ⟨_, splice_cons_eq_ok_iff.mpr ⟨inBounds, behind, after, success, rfl⟩⟩

theorem outcomeAt_of_lt {edits : List Edit} {offset : Nat}
    (later : ∀ edit ∈ edits, offset < edit.start) (source : Bytes) :
    outcomeAt source edits offset = source[offset]?.toList := by
  rw [outcomeAt, keptAt_of_lt later,
    newAt_eq_nil fun edit member => Nat.ne_of_gt (later edit member), List.nil_append]

theorem outcomeAt_cons_of_lt {edit : Edit} {offset : Nat} (behind : edit.start < offset)
    (stopped : edit.stop ≤ offset) (source : Bytes) (edits : List Edit) :
    outcomeAt source (edit :: edits) offset = outcomeAt source edits offset := by
  have uncovered : covers offset edit = false := by
    rw [covers, decide_eq_false (Nat.not_lt.mpr stopped), Bool.and_false]
  rw [outcomeAt, outcomeAt, newAt_cons_of_ne (Nat.ne_of_lt behind),
    keptAt_cons_of_not_covers uncovered]

theorem flatMap_getElem?_range' (source : Bytes) (start count : Nat) :
    ((List.range' start count).flatMap fun offset => source[offset]?.toList) =
      (source.drop start).take count := by
  induction count with
  | zero => rfl
  | succ count ih =>
      rw [List.range'_1_concat, List.flatMap_append, ih, List.flatMap_singleton, List.take_add_one,
        List.getElem?_drop]

theorem range'_split {start middle stop : Nat} (low : start ≤ middle) (high : middle ≤ stop) :
    List.range' start (stop - start) =
      List.range' start (middle - start) ++ List.range' middle (stop - middle) := by
  have sizes : stop - start = (middle - start) + (stop - middle) := by omega
  have next : middle = start + (middle - start) := by omega
  rw [sizes, ← List.range'_append_1, ← next]

/-- Before its edits a text is as it was. -/
theorem flatMap_outcomeAt_before {edits : List Edit} {cursor limit : Nat}
    (later : ∀ edit ∈ edits, limit ≤ edit.start) (source : Bytes) :
    (List.range' cursor (limit - cursor)).flatMap (outcomeAt source edits) =
      (source.drop cursor).take (limit - cursor) := by
  rw [← flatMap_getElem?_range']
  apply List.flatMap_congr
  intro offset member
  have inside := List.mem_range'_1.mp member
  apply outcomeAt_of_lt
  intro edit among
  have := later edit among
  omega

/-- From an edit on, a text goes on with the text of the edit and then with what the other edits
make of the octets behind the range. -/
theorem flatMap_outcomeAt_from {edit : Edit} {edits : List Edit} {source : Bytes}
    (inBounds : edit.start ≤ edit.stop ∧ edit.stop ≤ source.length)
    (later : ∀ other ∈ edits, edit.stop ≤ other.start) :
    (List.range' edit.start (source.length + 1 - edit.start)).flatMap
        (outcomeAt source (edit :: edits)) =
      Utf8.encode edit.text ++
        (List.range' edit.stop (source.length + 1 - edit.stop)).flatMap
          (outcomeAt source edits) := by
  have behind (start count : Nat) (past : edit.start < start) (stopped : edit.stop ≤ start) :
      (List.range' start count).flatMap (outcomeAt source (edit :: edits)) =
        (List.range' start count).flatMap (outcomeAt source edits) := by
    apply List.flatMap_congr
    intro offset member
    have low := (List.mem_range'_1.mp member).1
    exact outcomeAt_cons_of_lt (Nat.lt_of_lt_of_le past low) (Nat.le_trans stopped low) _ _
  rcases Nat.eq_or_lt_of_le inBounds.1 with empty | nonempty
  · -- An insertion: the octet at its offset stays, with what other edits do there.
    have count : source.length + 1 - edit.start = (source.length - edit.start) + 1 := by omega
    have here : outcomeAt source (edit :: edits) edit.start =
        Utf8.encode edit.text ++ outcomeAt source edits edit.start := by
      have uncovered : covers edit.start edit = false := by
        rw [covers, decide_eq_false (Nat.not_lt.mpr (Nat.le_of_eq empty.symm)), Bool.and_false]
      rw [outcomeAt, outcomeAt, newAt_cons_of_inserts rfl empty.symm,
        keptAt_cons_of_not_covers uncovered, List.append_assoc]
    rw [← empty, count, List.range'_succ, List.flatMap_cons, List.flatMap_cons, here,
      behind _ _ (Nat.lt_succ_self _) (by omega), List.append_assoc]
  · -- A replacement: nothing else is left of the range.
    have covered (offset : Nat) (low : edit.start ≤ offset) (high : offset < edit.stop) :
        keptAt source (edit :: edits) offset = [] := by
      refine keptAt_cons_of_covers ?_ source edits
      rw [covers, decide_eq_true low, decide_eq_true high, Bool.and_true]
    have inside : (List.range' (edit.start + 1) (edit.stop - (edit.start + 1))).flatMap
        (outcomeAt source (edit :: edits)) = [] := by
      apply List.flatMap_eq_nil_iff.mpr
      intro offset member
      have limits := List.mem_range'_1.mp member
      rw [outcomeAt, covered offset (by omega) (by omega), List.append_nil]
      refine newAt_eq_nil (List.forall_mem_cons.mpr ⟨by omega, ?_⟩)
      intro other among
      have := later other among
      omega
    rw [range'_split inBounds.1 (by omega), List.flatMap_append,
      behind edit.stop _ nonempty (Nat.le_refl _),
      show edit.stop - edit.start = (edit.stop - (edit.start + 1)) + 1 by omega, List.range'_succ,
      List.flatMap_cons, inside, List.append_nil, outcomeAt,
      newAt_cons_of_replaces nonempty later, covered _ (Nat.le_refl _) nonempty, List.append_nil]

/-- **A pass that succeeds gives what the edits make of the octets from the cursor on.** -/
theorem eq_flatMap_of_splice {source : Bytes} {cursor : Nat} (inside : cursor ≤ source.length)
    {edits : List Edit} {out : Bytes}
    (success : splice source.length cursor (source.drop cursor) edits = .ok out) :
    out = (List.range' cursor (source.length + 1 - cursor)).flatMap (outcomeAt source edits) := by
  induction edits generalizing cursor out with
  | nil =>
      have none : ∀ edit ∈ ([] : List Edit), source.length + 1 ≤ edit.start := fun _ => (nomatch ·)
      rw [splice] at success
      rw [flatMap_outcomeAt_before none, List.take_of_length_le]
      · exact (Except.ok.inj success).symm
      · rw [List.length_drop]
        omega
  | cons edit edits ih =>
      obtain ⟨inBounds, behind, after, rest, rfl⟩ := exists_splice_of_splice_cons success
      have later : ∀ other ∈ edits, edit.stop ≤ other.start :=
        fun other member => ((ascending_of_splice rest).1 other member).1
      have ahead : ∀ other ∈ edit :: edits, edit.start ≤ other.start :=
        List.forall_mem_cons.mpr ⟨Nat.le_refl _, fun other member =>
          Nat.le_trans inBounds.1 (later other member)⟩
      rw [range'_split behind (by omega), List.flatMap_append, flatMap_outcomeAt_before ahead,
        flatMap_outcomeAt_from inBounds later, ← ih inBounds.2 rest, List.append_assoc]

/-! ## The order of the edits -/

theorem precedes_iff {a b : Edit} :
    precedes a b = true ↔ a.start < b.start ∨ a.start = b.start ∧ a.stop ≤ b.stop := by
  simp [precedes]

theorem precedes_trans (a b c : Edit) (first : precedes a b = true) (second : precedes b c = true) :
    precedes a c = true := by
  rw [precedes_iff] at *
  omega

theorem precedes_total (a b : Edit) : (precedes a b || precedes b a) = true := by
  rw [Bool.or_eq_true, precedes_iff, precedes_iff]
  omega

theorem ordered_perm (edits : List Edit) : (ordered edits).Perm edits :=
  List.mergeSort_perm edits precedes

theorem ordered_of_pairwise {edits : List Edit}
    (sorted : edits.Pairwise fun a b => precedes a b = true) : ordered edits = edits :=
  List.mergeSort_of_pairwise sorted

/-- Edits that are given in order are applied by one pass. -/
theorem applyAll_of_pairwise {source out : Bytes} {edits : List Edit}
    (sorted : edits.Pairwise fun a b => precedes a b = true)
    (spliced : (splice source.length 0 source edits).toOption = some out) :
    applyAll source edits = .ok out := by
  rw [applyAll, ordered_of_pairwise sorted]
  cases outcome : splice source.length 0 source edits with
  | error conflict => rw [outcome] at spliced; exact nomatch spliced
  | ok result => rw [outcome] at spliced; exact congrArg Except.ok (Option.some.inj spliced)

/-- Edits of one range keep their order. -/
theorem filter_ordered {select : Edit → Bool}
    (tied : ∀ a b, select a = true → select b = true → precedes a b = true) (edits : List Edit) :
    (ordered edits).filter select = edits.filter select := by
  have sorted : (edits.filter select).Pairwise fun a b => precedes a b = true :=
    List.pairwise_of_forall_mem_list fun a hA b hB =>
      tied a b (List.mem_filter.mp hA).2 (List.mem_filter.mp hB).2
  have stable : (edits.filter select).Sublist (ordered edits) :=
    List.sublist_mergeSort precedes_trans precedes_total sorted List.filter_sublist
  -- Sorting is stable, so nothing is lost, and the numbers agree.
  have selected : (edits.filter select).Sublist ((ordered edits).filter select) := by
    have again := stable.filter select
    simp only [List.filter_filter, Bool.and_self] at again
    exact again
  exact (selected.eq_of_length ((ordered_perm edits).filter select).length_eq.symm).symm

/-- Of edits that lie apart, at most one replaces a range from an offset on, in whatever order they
are listed. -/
theorem filter_replacesFrom_of_perm {edits listed : List Edit} (perm : listed.Perm edits)
    (apart : listed.Pairwise Apart) (offset : Nat) :
    listed.filter (replacesFrom offset) = edits.filter (replacesFrom offset) := by
  have selected := perm.filter (replacesFrom offset)
  -- Two ranges that begin at one offset would overlap.
  have few : (listed.filter (replacesFrom offset)).Pairwise fun _ _ => False := by
    apply (apart.filter _).imp_of_mem
    intro a b hA hB separate
    have first := (List.mem_filter.mp hA).2
    have second := (List.mem_filter.mp hB).2
    simp only [replacesFrom, Bool.and_eq_true, beq_iff_eq, decide_eq_true_eq] at first second
    rcases separate with behind | ahead <;> omega
  match found : listed.filter (replacesFrom offset) with
  | [] => rw [found] at selected; exact (List.nil_perm.mp selected).symm
  | [only] => rw [found] at selected; exact List.singleton_perm.mp selected
  | _ :: _ :: _ =>
      rw [found] at few
      exact ((List.pairwise_cons.mp few).1 _ List.mem_cons_self).elim

/-- The outcome of edits that lie apart depends on their order only through the texts that are
inserted at one offset. -/
theorem outcome_congr {edits listed : List Edit} (perm : listed.Perm edits)
    (apart : listed.Pairwise Apart)
    (inserted : ∀ offset, texts (listed.filter (insertsAt offset)) =
      texts (edits.filter (insertsAt offset)))
    (source : Bytes) : outcome source listed = outcome source edits := by
  apply List.flatMap_congr
  intro offset _
  have covered : listed.any (covers offset) = edits.any (covers offset) := perm.any_eq
  rw [outcomeAt, outcomeAt, newAt, newAt, keptAt, keptAt, inserted, covered,
    filter_replacesFrom_of_perm perm apart]

/-! ## Applying edits -/

theorem fits_of_applyAll {source out : Bytes} {edits : List Edit}
    (success : applyAll source edits = .ok out) : Fits source edits := by
  obtain ⟨each, ascending⟩ := ascending_of_splice success
  refine ⟨fun edit member => (each edit ((ordered_perm edits).mem_iff.mpr member)).2, ?_⟩
  exact ((ordered_perm edits).pairwise_iff Apart.symm).mp (ascending.imp .inl)

/-- Edits that fit come one behind the other when they are ordered. -/
theorem ordered_ascending_of_fits {source : Bytes} {edits : List Edit} (fits : Fits source edits) :
    (ordered edits).Pairwise fun a b => a.stop ≤ b.start := by
  have sorted : (ordered edits).Pairwise fun a b => precedes a b = true :=
    List.pairwise_mergeSort precedes_trans precedes_total edits
  have apart : (ordered edits).Pairwise Apart :=
    ((ordered_perm edits).pairwise_iff Apart.symm).mpr fits.apart
  apply (sorted.and apart).imp_of_mem
  rintro a b memberA memberB ⟨before, separate⟩
  have forward := (fits.inBounds b ((ordered_perm edits).mem_iff.mp memberB)).1
  rw [precedes_iff] at before
  -- An edit that ends where an earlier one starts is empty, and so is the earlier one.
  rcases separate with behind | ahead
  · exact behind
  · omega

/-- **Edits can be applied exactly when they lie in the text and do not overlap.** -/
theorem exists_applyAll_eq_ok_iff {source : Bytes} {edits : List Edit} :
    (∃ out, applyAll source edits = .ok out) ↔ Fits source edits := by
  constructor
  · rintro ⟨out, success⟩
    exact fits_of_applyAll success
  · intro fits
    refine exists_splice_eq_ok ?_ (ordered_ascending_of_fits fits)
    intro edit member
    exact ⟨Nat.zero_le _, fits.inBounds edit ((ordered_perm edits).mem_iff.mp member)⟩

/-- Edits conflict exactly when they do not fit. -/
theorem exists_applyAll_eq_error_iff {source : Bytes} {edits : List Edit} :
    (∃ conflict, applyAll source edits = .error conflict) ↔ ¬ Fits source edits := by
  rw [← exists_applyAll_eq_ok_iff]
  cases applyAll source edits with
  | error conflict => exact iff_of_true ⟨conflict, rfl⟩ fun ⟨_, impossible⟩ => nomatch impossible
  | ok out =>
      exact iff_of_false (fun ⟨_, impossible⟩ => nomatch impossible) (not_not_intro ⟨out, rfl⟩)

/-- **Edits that are applied give their outcome.** -/
theorem eq_outcome_of_applyAll {source out : Bytes} {edits : List Edit}
    (success : applyAll source edits = .ok out) : out = outcome source edits := by
  have ascending := (ascending_of_splice success).2
  have passed := eq_flatMap_of_splice (Nat.zero_le _) success
  rw [Nat.sub_zero, ← List.range_eq_range'] at passed
  rw [passed]
  refine outcome_congr (ordered_perm edits) (ascending.imp .inl) (fun offset => ?_) source
  congr 1
  apply filter_ordered
  intro a b hA hB
  simp only [insertsAt, Bool.and_eq_true, beq_iff_eq] at hA hB
  exact precedes_iff.mpr (.inr (by omega))

/-! ## What stays -/

/-- The octets that no range covers are all there, in their order. -/
theorem kept_sublist_outcome (source : Bytes) (edits : List Edit) :
    (kept source edits).Sublist (outcome source edits) := by
  rw [kept, outcome, List.range_succ, List.flatMap_append]
  refine List.Sublist.trans ?_ (List.sublist_append_left _ _)
  exact .flatMap_right _ fun offset _ => List.sublist_append_right _ _

/-- When no edit begins before an offset, the text up to there comes first, and then what is
inserted there. -/
theorem take_append_prefix_outcome {source : Bytes} {edits : List Edit} {offset : Nat}
    (inside : offset ≤ source.length) (later : ∀ edit ∈ edits, offset ≤ edit.start) :
    source.take offset ++ texts (edits.filter (insertsAt offset)) <+: outcome source edits := by
  have rest : source.length + 1 - offset = (source.length - offset) + 1 := by omega
  have before : (List.range' 0 offset).flatMap (outcomeAt source edits) = source.take offset :=
    flatMap_outcomeAt_before later source
  rw [outcome, List.range_eq_range', ← Nat.sub_zero (source.length + 1),
    range'_split (Nat.zero_le offset) (by omega), List.flatMap_append, Nat.sub_zero, before, rest,
    List.range'_succ, List.flatMap_cons, outcomeAt, newAt]
  simp only [List.append_assoc]
  exact (List.prefix_append_right_inj _).mpr (List.prefix_append _ _)

/-! ## What becomes of a range -/

/-- What edits make of the octets from `start` up to `stop`, with what they put in front of each. -/
def madeOf (source : Bytes) (edits : List Edit) (start stop : Nat) : Bytes :=
  (List.range' start (stop - start)).flatMap (outcomeAt source edits)

/-- Edits that fit are applied, and the result is what they make of the whole text, its end
included. -/
theorem applyAll_eq_ok_of_fits {source : Bytes} {edits : List Edit} (fits : Fits source edits) :
    applyAll source edits = .ok (madeOf source edits 0 (source.length + 1)) := by
  obtain ⟨out, success⟩ := exists_applyAll_eq_ok_iff.mpr fits
  rw [success, eq_outcome_of_applyAll success, outcome, madeOf, List.range_eq_range', Nat.sub_zero]

/-- What edits make of a range is what they make of its parts. -/
theorem madeOf_split {start middle stop : Nat} (low : start ≤ middle) (high : middle ≤ stop)
    (source : Bytes) (edits : List Edit) :
    madeOf source edits start stop =
      madeOf source edits start middle ++ madeOf source edits middle stop := by
  rw [madeOf, madeOf, madeOf, range'_split low high, List.flatMap_append]

theorem madeOf_succ (source : Bytes) (edits : List Edit) (offset : Nat) :
    madeOf source edits offset (offset + 1) = outcomeAt source edits offset := by
  rw [madeOf, Nat.add_sub_cancel_left, List.range'_one, List.flatMap_singleton]

/-- A range that no edit meets stays as it is. -/
theorem madeOf_of_apart {source : Bytes} {edits : List Edit} {start stop : Nat}
    (nonempty : ∀ edit ∈ edits, edit.start < edit.stop)
    (apart : ∀ edit ∈ edits, edit.stop ≤ start ∨ stop ≤ edit.start) :
    madeOf source edits start stop = source.slice start stop := by
  rw [madeOf, Bytes.slice, ← flatMap_getElem?_range']
  apply List.flatMap_congr
  intro offset member
  have inside := List.mem_range'_1.mp member
  have uncovered : edits.any (covers offset) = false := by
    apply List.any_eq_false.mpr
    intro edit among
    have := apart edit among
    simp only [covers, Bool.and_eq_true, decide_eq_true_eq]
    omega
  have nothingNew : newAt edits offset = [] := by
    apply newAt_eq_nil
    intro edit among
    have := apart edit among
    have := nonempty edit among
    omega
  rw [outcomeAt, nothingNew, keptAt, uncovered, if_neg Bool.false_ne_true, List.nil_append]

section Covered

variable {source : Bytes} {edits : List Edit} {edit : Edit}
  (nonempty : ∀ edit ∈ edits, edit.start < edit.stop) (apart : edits.Pairwise Apart)
  (among : edit ∈ edits)

include nonempty apart among

/-- Where a range is replaced there is the new text, once and at its start. -/
theorem outcomeAt_of_covers {offset : Nat} (inside : edit.start ≤ offset ∧ offset < edit.stop) :
    outcomeAt source edits offset = if offset = edit.start then Utf8.encode edit.text else [] := by
  have covered : edits.any (covers offset) = true :=
    List.any_eq_true.mpr ⟨edit, among, by simpa [covers] using inside⟩
  have noInsertion : edits.filter (insertsAt offset) = [] := by
    apply List.filter_eq_nil_iff.mpr
    intro other isOther
    have := nonempty other isOther
    simp only [insertsAt, Bool.and_eq_true, beq_iff_eq]
    omega
  -- No other range begins at an offset in this one.
  obtain ⟨before, after, rfl⟩ := List.append_of_mem among
  obtain ⟨_, fromHere, toHere⟩ := List.pairwise_append.mp apart
  have noOther : ∀ other ∈ before ++ after, replacesFrom offset other = false := by
    intro other isOther
    have separate : Apart other edit := by
      rcases List.mem_append.mp isOther with isBefore | isAfter
      · exact toHere other isBefore edit List.mem_cons_self
      · exact ((List.pairwise_cons.mp fromHere).1 other isAfter).symm
    simp only [replacesFrom, Bool.and_eq_false_iff, beq_eq_false_iff_ne, decide_eq_false_iff_not]
    rcases separate with ends | begins <;> omega
  have noneBefore : before.filter (replacesFrom offset) = [] :=
    List.filter_eq_nil_iff.mpr fun other isOther => by
      simp [noOther other (List.mem_append_left _ isOther)]
  have noneAfter : after.filter (replacesFrom offset) = [] :=
    List.filter_eq_nil_iff.mpr fun other isOther => by
      simp [noOther other (List.mem_append_right _ isOther)]
  rw [outcomeAt, newAt, noInsertion, keptAt, covered, if_pos rfl, List.append_nil,
    List.filter_append, List.filter_cons, noneBefore, noneAfter, List.nil_append]
  by_cases starts : offset = edit.start
  · rw [if_pos starts, if_pos (by simp [replacesFrom, ← starts, inside.2])]
    simp [texts]
  · rw [if_neg starts, if_neg (by simp [replacesFrom, Ne.symm starts])]
    rfl

/-- Of a range that is replaced together with more the new text is left, if the larger range begins
with it, and nothing otherwise. -/
theorem madeOf_of_covers {start stop : Nat} (some : start < stop)
    (inside : edit.start ≤ start ∧ stop ≤ edit.stop) :
    madeOf source edits start stop = if start = edit.start then Utf8.encode edit.text else [] := by
  have rest :
      (List.range' (start + 1) (stop - (start + 1))).flatMap (outcomeAt source edits) = [] := by
    apply List.flatMap_eq_nil_iff.mpr
    intro offset member
    have limits := List.mem_range'_1.mp member
    rw [outcomeAt_of_covers nonempty apart among (by omega), if_neg (by omega)]
  rw [madeOf, show stop - start = (stop - (start + 1)) + 1 by omega, List.range'_succ,
    List.flatMap_cons, rest, List.append_nil,
    outcomeAt_of_covers nonempty apart among ⟨inside.1, by omega⟩]

end Covered

end Unqualify.Edit
