import Mathlib.Data.List.Basic
import Unqualify.Text.Utf8

/-!
# The UTF-8 form and its reader

Reading the octets of a text gives the text back (`decode_encode`), and octets that can be read are
those of the text that is read (`encode_of_decode`). So reading succeeds exactly on the forms of
texts, and a text has one form.

Both directions rest on what a pending character asks for. Octets complete it when the first lies in
the range that it names, the others are continuations, and there are as many as it owes. Reading
takes such octets and yields the character of the collected value (`decodeFrom_of_completes`), and
it can succeed in no other way (`completes_of_decodeFrom`).

An octet below 128 stands for a character by itself and occurs in the octets of no other one
(`encodeChar_of_mem_ascii`).
-/

set_option autoImplicit false

namespace Unqualify.Utf8

/-! ## Completing a character -/

namespace Pending

/-- The octets `tail` complete a pending character. -/
def Completes (pending : Pending) : (tail : Bytes) → Prop
  | [] => False
  | octet :: rest =>
      (pending.low ≤ octet ∧ octet ≤ pending.high) ∧ pending.owed = rest.length + 1 ∧
        ∀ other ∈ rest, (0x80 : UInt8) ≤ other ∧ other ≤ 0xBF

/-- The value collected when the octets `tail` are read. -/
def total (pending : Pending) (tail : Bytes) : Nat :=
  tail.foldl (fun value octet => value * 64 + (octet.toNat - 0x80)) pending.value

/-- The pending character after one more octet. -/
def next (pending : Pending) (octet : UInt8) : Pending :=
  { pending with
    value := pending.value * 64 + (octet.toNat - 0x80)
    owed := pending.owed - 1
    low := 0x80
    high := 0xBF }

theorem total_cons (pending : Pending) (octet : UInt8) (rest : Bytes) :
    pending.total (octet :: rest) = (pending.next octet).total rest := by
  rw [total, total, List.foldl_cons, next]

/-- All but the first of the octets that complete a character complete it after the first. -/
theorem completes_next {pending : Pending} {octet : UInt8} {rest : Bytes}
    (complete : pending.Completes (octet :: rest)) (more : rest ≠ []) :
    (pending.next octet).Completes rest := by
  obtain ⟨_, owed, continuations⟩ := complete
  cases rest with
  | nil => exact absurd rfl more
  | cons head tail =>
      refine ⟨continuations head List.mem_cons_self, ?_, fun other member =>
        continuations other (List.mem_cons_of_mem _ member)⟩
      rw [next, owed]
      rfl

end Pending

theorem decodeFrom_some_cons {pending : Pending} {octet : UInt8}
    (inRange : pending.low ≤ octet ∧ octet ≤ pending.high) (offset : Nat) (rest : Bytes) :
    decodeFrom offset (some pending) (octet :: rest) =
      if pending.owed ≤ 1 then
        (decodeFrom (offset + 1) none rest).map (Char.ofNat (pending.total [octet]) :: ·)
      else decodeFrom (offset + 1) (some (pending.next octet)) rest := by
  have notOut : ¬ (decide (octet < pending.low) || decide (pending.high < octet)) = true := by
    rw [Bool.or_eq_true, decide_eq_true_eq, decide_eq_true_eq, not_or]
    exact ⟨UInt8.not_lt.mpr inRange.1, UInt8.not_lt.mpr inRange.2⟩
  rw [decodeFrom, if_neg notOut]
  rfl

/-- **Octets that complete a character are read as the character of their value.** -/
theorem decodeFrom_of_completes {pending : Pending} {tail : Bytes}
    (complete : pending.Completes tail) (offset : Nat) (rest : Bytes) :
    decodeFrom offset (some pending) (tail ++ rest) =
      (decodeFrom (offset + tail.length) none rest).map (Char.ofNat (pending.total tail) :: ·) := by
  induction tail generalizing pending offset with
  | nil => exact complete.elim
  | cons octet tail ih =>
      have owed := complete.2.1
      rw [List.cons_append, decodeFrom_some_cons complete.1]
      cases tail with
      | nil => rw [if_pos (by rw [owed]; decide)]; rfl
      | cons head tail =>
          rw [if_neg (by rw [owed, List.length_cons]; omega),
            ih (Pending.completes_next complete (List.cons_ne_nil _ _)), ← Pending.total_cons,
            List.length_cons, Nat.add_assoc, Nat.add_comm 1]
          rfl

/-- **Reading inside a character succeeds only when the next octets complete it.** -/
theorem completes_of_decodeFrom {pending : Pending} (owes : 1 ≤ pending.owed) {offset : Nat}
    {bytes : Bytes} {characters : List Char}
    (success : decodeFrom offset (some pending) bytes = .ok characters) :
    ∃ tail rest others, bytes = tail ++ rest ∧ pending.Completes tail ∧
      characters = Char.ofNat (pending.total tail) :: others ∧
      decodeFrom (offset + tail.length) none rest = .ok others := by
  induction bytes generalizing pending offset with
  | nil => rw [decodeFrom] at success; exact nomatch success
  | cons octet bytes ih =>
      by_cases inRange : pending.low ≤ octet ∧ octet ≤ pending.high
      · rw [decodeFrom_some_cons inRange] at success
        split at success
        next last =>
          cases here : decodeFrom (offset + 1) none bytes with
          | error fault => rw [here] at success; exact nomatch success
          | ok others =>
              rw [here] at success
              refine ⟨[octet], bytes, others, rfl, ⟨inRange, ?_, fun _ member => nomatch member⟩,
                (Except.ok.inj success).symm, here⟩
              exact Nat.le_antisymm last owes
        next more =>
          have stillOwes : 1 ≤ (pending.next octet).owed := by
            show 1 ≤ pending.owed - 1
            omega
          obtain ⟨tail, rest, others, rfl, complete, same, after⟩ := ih stillOwes success
          rw [← Pending.total_cons] at same
          refine ⟨octet :: tail, rest, others, rfl, ?_, same, ?_⟩
          · cases tail with
            | nil => exact complete.elim
            | cons head tail =>
                refine ⟨inRange, ?_, List.forall_mem_cons.mpr ⟨complete.1, complete.2.2⟩⟩
                have owed : pending.owed - 1 = tail.length + 1 := complete.2.1
                rw [List.length_cons]
                omega
          · rw [List.length_cons, ← after, Nat.add_assoc, Nat.add_comm 1]
      · have out : (decide (octet < pending.low) || decide (pending.high < octet)) = true := by
          rw [Bool.or_eq_true, decide_eq_true_eq, decide_eq_true_eq, ← UInt8.not_le,
            ← UInt8.not_le, ← not_and_or]
          exact inRange
        rw [decodeFrom, if_pos out] at success
        exact nomatch success

/-! ## First octets -/

namespace Pending

theorem ofLead_two (offset : Nat) {lead : UInt8} (low : 0xC2 ≤ lead.toNat)
    (high : lead.toNat < 0xE0) :
    ofLead offset lead = some ⟨offset, lead, lead.toNat - 0xC0, 1, 0x80, 0xBF⟩ := by
  have notBelow : ¬ lead < 0xC2 := by simpa [UInt8.lt_iff_toNat_lt] using low
  have below : lead < 0xE0 := by simpa [UInt8.lt_iff_toNat_lt] using high
  rw [ofLead, if_neg notBelow, if_pos below]

/-- A first octet of a character of three octets. The second octet is narrowed after the lowest, so
that two octets would not do, and after the one that surrogates begin with. -/
theorem ofLead_three (offset : Nat) {lead : UInt8} (low : 0xE0 ≤ lead.toNat)
    (high : lead.toNat < 0xF0) :
    ofLead offset lead = some ⟨offset, lead, lead.toNat - 0xE0, 2,
      if lead.toNat = 0xE0 then 0xA0 else 0x80, if lead.toNat = 0xED then 0x9F else 0xBF⟩ := by
  have notBelow : ¬ lead < 0xC2 := by simp [UInt8.lt_iff_toNat_lt]; omega
  have notTwo : ¬ lead < 0xE0 := by simp [UInt8.lt_iff_toNat_lt]; omega
  have below : lead < 0xF0 := by simpa [UInt8.lt_iff_toNat_lt] using high
  rw [ofLead, if_neg notBelow, if_neg notTwo]
  by_cases lowest : lead.toNat = 0xE0
  · obtain rfl : lead = 0xE0 := UInt8.toNat_inj.mp lowest
    rfl
  · have notLowest : lead ≠ 0xE0 := fun same => lowest (by rw [same]; rfl)
    rw [if_neg notLowest, if_neg lowest]
    by_cases surrogate : lead.toNat = 0xED
    · obtain rfl : lead = 0xED := UInt8.toNat_inj.mp surrogate
      rfl
    · have notSurrogate : lead ≠ 0xED := fun same => surrogate (by rw [same]; rfl)
      rw [if_neg notSurrogate, if_neg surrogate, if_pos below]

/-- A first octet of a character of four octets. The second octet is narrowed after the lowest, so
that three octets would not do, and after the highest, so that the value is a code point. -/
theorem ofLead_four (offset : Nat) {lead : UInt8} (low : 0xF0 ≤ lead.toNat)
    (high : lead.toNat ≤ 0xF4) :
    ofLead offset lead = some ⟨offset, lead, lead.toNat - 0xF0, 3,
      if lead.toNat = 0xF0 then 0x90 else 0x80, if lead.toNat = 0xF4 then 0x8F else 0xBF⟩ := by
  have notBelow : ¬ lead < 0xC2 := by simp [UInt8.lt_iff_toNat_lt]; omega
  have notTwo : ¬ lead < 0xE0 := by simp [UInt8.lt_iff_toNat_lt]; omega
  have notThree : ¬ lead < 0xF0 := by simp [UInt8.lt_iff_toNat_lt]; omega
  have not224 : lead ≠ 0xE0 := by
    intro same
    rw [same] at low
    exact absurd low (by decide)
  have not237 : lead ≠ 0xED := by
    intro same
    rw [same] at low
    exact absurd low (by decide)
  rw [ofLead, if_neg notBelow, if_neg notTwo, if_neg not224, if_neg not237, if_neg notThree]
  by_cases lowest : lead.toNat = 0xF0
  · obtain rfl : lead = 0xF0 := UInt8.toNat_inj.mp lowest
    rfl
  · have notLowest : lead ≠ 0xF0 := fun same => lowest (by rw [same]; rfl)
    rw [if_neg notLowest, if_neg lowest]
    by_cases highest : lead.toNat = 0xF4
    · obtain rfl : lead = 0xF4 := UInt8.toNat_inj.mp highest
      rfl
    · have below : lead < 0xF4 := by simp [UInt8.lt_iff_toNat_lt]; omega
      rw [if_pos below, if_neg highest]

/-- A first octet of a character of several octets lies between the lowest and the highest. -/
theorem lead_of_ofLead {offset : Nat} {lead : UInt8} {pending : Pending}
    (starts : ofLead offset lead = some pending) : 0xC2 ≤ lead.toNat ∧ lead.toNat ≤ 0xF4 := by
  have notBelow : ¬ lead < 0xC2 := by
    intro below
    rw [ofLead, if_pos below] at starts
    exact nomatch starts
  have atMost : ¬ 0xF4 < lead.toNat := by
    intro above
    have notTwo : ¬ lead < 0xE0 := by simp [UInt8.lt_iff_toNat_lt]; omega
    have notThree : ¬ lead < 0xF0 := by simp [UInt8.lt_iff_toNat_lt]; omega
    have notFour : ¬ lead < 0xF4 := by simp [UInt8.lt_iff_toNat_lt]; omega
    have differs {other : UInt8} (small : other.toNat ≤ 0xF4) : lead ≠ other :=
      fun same => by rw [same] at above; omega
    rw [ofLead, if_neg notBelow, if_neg notTwo, if_neg (differs (by decide)),
      if_neg (differs (by decide)), if_neg notThree, if_neg (differs (by decide)), if_neg notFour,
      if_neg (differs (by decide))] at starts
    exact nomatch starts
  exact ⟨by simpa [UInt8.lt_iff_toNat_lt] using notBelow, by omega⟩

/-- What a first octet asks for, by the number of octets of the character. -/
theorem ofLead_cases {offset : Nat} {lead : UInt8} {pending : Pending}
    (starts : ofLead offset lead = some pending) :
    ((0xC2 ≤ lead.toNat ∧ lead.toNat < 0xE0) ∧
        pending = ⟨offset, lead, lead.toNat - 0xC0, 1, 0x80, 0xBF⟩) ∨
      ((0xE0 ≤ lead.toNat ∧ lead.toNat < 0xF0) ∧
        pending = ⟨offset, lead, lead.toNat - 0xE0, 2,
          if lead.toNat = 0xE0 then 0xA0 else 0x80, if lead.toNat = 0xED then 0x9F else 0xBF⟩) ∨
      ((0xF0 ≤ lead.toNat ∧ lead.toNat ≤ 0xF4) ∧
        pending = ⟨offset, lead, lead.toNat - 0xF0, 3,
          if lead.toNat = 0xF0 then 0x90 else 0x80, if lead.toNat = 0xF4 then 0x8F else 0xBF⟩) := by
  obtain ⟨atLeast, atMost⟩ := lead_of_ofLead starts
  by_cases two : lead.toNat < 0xE0
  · rw [ofLead_two offset atLeast two] at starts
    exact .inl ⟨⟨atLeast, two⟩, (Option.some.inj starts).symm⟩
  have from224 : 0xE0 ≤ lead.toNat := Nat.le_of_not_lt two
  by_cases three : lead.toNat < 0xF0
  · rw [ofLead_three offset from224 three] at starts
    exact .inr (.inl ⟨⟨from224, three⟩, (Option.some.inj starts).symm⟩)
  · have from240 : 0xF0 ≤ lead.toNat := Nat.le_of_not_lt three
    rw [ofLead_four offset from240 atMost] at starts
    exact .inr (.inr ⟨⟨from240, atMost⟩, (Option.some.inj starts).symm⟩)

/-- A character of several octets owes at least one after its first. -/
theorem one_le_owed_of_ofLead {offset : Nat} {lead : UInt8} {pending : Pending}
    (starts : ofLead offset lead = some pending) : 1 ≤ pending.owed := by
  rcases ofLead_cases starts with ⟨_, rfl⟩ | ⟨_, rfl⟩ | ⟨_, rfl⟩
  · exact Nat.le_refl 1
  · exact Nat.le_add_left 1 1
  · exact Nat.le_add_left 1 2

end Pending

/-! ## The octets of a character -/

theorem toNat_ofNat (value : Nat) (valid : value.isValidChar) :
    (Char.ofNat value).toNat = value := by
  rw [Char.ofNat, dif_pos valid]
  rfl

theorem encodeChar_one {c : Char} (high : c.toNat < 0x80) :
    String.utf8EncodeChar c = [UInt8.ofNat c.toNat] := by
  have one : c.val.toNat ≤ 0x7F := Nat.le_of_lt_succ high
  rw [String.utf8EncodeChar, if_pos one]
  rfl

theorem encodeChar_two {c : Char} (low : 0x80 ≤ c.toNat) (high : c.toNat < 0x800) :
    String.utf8EncodeChar c =
      [UInt8.ofNat (c.toNat / 64 + 0xC0), UInt8.ofNat (c.toNat % 64 + 0x80)] := by
  have value : c.val.toNat = c.toNat := rfl
  have first : c.toNat / 64 % 0x20 = c.toNat / 64 := by omega
  simp only [String.utf8EncodeChar, value]
  rw [if_neg (by omega), if_pos (by omega), first]

theorem encodeChar_three {c : Char} (low : 0x800 ≤ c.toNat) (high : c.toNat < 0x10000) :
    String.utf8EncodeChar c =
      [UInt8.ofNat (c.toNat / 4096 + 0xE0), UInt8.ofNat (c.toNat / 64 % 64 + 0x80),
        UInt8.ofNat (c.toNat % 64 + 0x80)] := by
  have value : c.val.toNat = c.toNat := rfl
  have first : c.toNat / 4096 % 0x10 = c.toNat / 4096 := by omega
  simp only [String.utf8EncodeChar, value]
  rw [if_neg (by omega), if_neg (by omega), if_pos (by omega), first]

theorem encodeChar_four {c : Char} (low : 0x10000 ≤ c.toNat) (high : c.toNat < 0x110000) :
    String.utf8EncodeChar c =
      [UInt8.ofNat (c.toNat / 262144 + 0xF0), UInt8.ofNat (c.toNat / 4096 % 64 + 0x80),
        UInt8.ofNat (c.toNat / 64 % 64 + 0x80), UInt8.ofNat (c.toNat % 64 + 0x80)] := by
  have value : c.val.toNat = c.toNat := rfl
  have first : c.toNat / 262144 % 0x08 = c.toNat / 262144 := by omega
  simp only [String.utf8EncodeChar, value]
  rw [if_neg (by omega), if_neg (by omega), if_neg (by omega), first]

theorem ofNat_eq_of_toNat_eq (octet : UInt8) {value : Nat} (same : value = octet.toNat) :
    UInt8.ofNat value = octet := by
  rw [same, UInt8.ofNat_toNat]

/-- Octets of the form of a character of two octets are the octets of the character they collect. -/
theorem encodeChar_of_two {lead second : UInt8} (leads : 0xC2 ≤ lead.toNat ∧ lead.toNat < 0xE0)
    (follows : 0x80 ≤ second.toNat ∧ second.toNat ≤ 0xBF) :
    String.utf8EncodeChar (Char.ofNat ((lead.toNat - 0xC0) * 64 + (second.toNat - 0x80))) =
      [lead, second] := by
  generalize collected : (lead.toNat - 0xC0) * 64 + (second.toNat - 0x80) = value
  have same := toNat_ofNat value (.inl (by omega))
  rw [encodeChar_two (by omega) (by omega), same, ofNat_eq_of_toNat_eq lead (by omega),
    ofNat_eq_of_toNat_eq second (by omega)]

/-- Octets of the form of a character of three octets are the octets of the character they collect.
The narrowed ranges keep the value large enough and off the surrogates. -/
theorem encodeChar_of_three {lead second third : UInt8}
    (leads : 0xE0 ≤ lead.toNat ∧ lead.toNat < 0xF0)
    (follows : 0x80 ≤ second.toNat ∧ second.toNat ≤ 0xBF)
    (lowest : lead.toNat = 0xE0 → 0xA0 ≤ second.toNat)
    (surrogate : lead.toNat = 0xED → second.toNat ≤ 0x9F)
    (last : 0x80 ≤ third.toNat ∧ third.toNat ≤ 0xBF) :
    String.utf8EncodeChar (Char.ofNat
      (((lead.toNat - 0xE0) * 64 + (second.toNat - 0x80)) * 64 + (third.toNat - 0x80))) =
      [lead, second, third] := by
  generalize collected :
    ((lead.toNat - 0xE0) * 64 + (second.toNat - 0x80)) * 64 + (third.toNat - 0x80) = value
  have large : 0x800 ≤ value := by omega
  have scalar : value < 0xD800 ∨ 0xDFFF < value ∧ value < 0x110000 := by omega
  have same := toNat_ofNat value scalar
  rw [encodeChar_three (by omega) (by omega), same, ofNat_eq_of_toNat_eq lead (by omega),
    ofNat_eq_of_toNat_eq second (by omega), ofNat_eq_of_toNat_eq third (by omega)]

/-- Octets of the form of a character of four octets are the octets of the character they collect.
The narrowed ranges keep the value between the limits. -/
theorem encodeChar_of_four {lead second third fourth : UInt8}
    (leads : 0xF0 ≤ lead.toNat ∧ lead.toNat ≤ 0xF4)
    (follows : 0x80 ≤ second.toNat ∧ second.toNat ≤ 0xBF)
    (lowest : lead.toNat = 0xF0 → 0x90 ≤ second.toNat)
    (highest : lead.toNat = 0xF4 → second.toNat ≤ 0x8F)
    (middle : 0x80 ≤ third.toNat ∧ third.toNat ≤ 0xBF)
    (last : 0x80 ≤ fourth.toNat ∧ fourth.toNat ≤ 0xBF) :
    String.utf8EncodeChar (Char.ofNat
      ((((lead.toNat - 0xF0) * 64 + (second.toNat - 0x80)) * 64 + (third.toNat - 0x80)) * 64 +
        (fourth.toNat - 0x80))) = [lead, second, third, fourth] := by
  generalize collected :
    (((lead.toNat - 0xF0) * 64 + (second.toNat - 0x80)) * 64 + (third.toNat - 0x80)) * 64 +
      (fourth.toNat - 0x80) = value
  have limits : 0x10000 ≤ value ∧ value < 0x110000 := by omega
  have same := toNat_ofNat value (.inr (by omega))
  rw [encodeChar_four (by omega) (by omega), same, ofNat_eq_of_toNat_eq lead (by omega),
    ofNat_eq_of_toNat_eq second (by omega), ofNat_eq_of_toNat_eq third (by omega),
    ofNat_eq_of_toNat_eq fourth (by omega)]

theorem continuation_toNat {octet : UInt8} (inRange : (0x80 : UInt8) ≤ octet ∧ octet ≤ 0xBF) :
    0x80 ≤ octet.toNat ∧ octet.toNat ≤ 0xBF :=
  ⟨UInt8.le_iff_toNat_le.mp inRange.1, UInt8.le_iff_toNat_le.mp inRange.2⟩

/-- What a range narrowed at one first octet each says of an octet in it. -/
theorem narrowed_toNat {octet lowNarrow highNarrow : UInt8} {atLow atHigh : Prop} [Decidable atLow]
    [Decidable atHigh] (lowFits : 0x80 ≤ lowNarrow.toNat) (highFits : highNarrow.toNat ≤ 0xBF)
    (inRange : (if atLow then lowNarrow else 0x80) ≤ octet ∧
      octet ≤ if atHigh then highNarrow else 0xBF) :
    (0x80 ≤ octet.toNat ∧ octet.toNat ≤ 0xBF) ∧ (atLow → lowNarrow.toNat ≤ octet.toNat) ∧
      (atHigh → octet.toNat ≤ highNarrow.toNat) := by
  obtain ⟨above, below⟩ := inRange
  rw [UInt8.le_iff_toNat_le] at above below
  refine ⟨⟨?_, ?_⟩, ?_, ?_⟩
  · split at above
    · exact Nat.le_trans lowFits above
    · exact above
  · split at below
    · exact Nat.le_trans below highFits
    · exact below
  · intro holds
    rwa [if_pos holds] at above
  · intro holds
    rwa [if_pos holds] at below

/-- **The octets of a character that was completed are those that were read.** -/
theorem encodeChar_total {offset : Nat} {lead : UInt8} {pending : Pending}
    (starts : Pending.ofLead offset lead = some pending) {tail : Bytes}
    (complete : pending.Completes tail) :
    String.utf8EncodeChar (Char.ofNat (pending.total tail)) = lead :: tail := by
  rcases Pending.ofLead_cases starts with ⟨leads, rfl⟩ | ⟨leads, rfl⟩ | ⟨leads, rfl⟩
  · match tail, complete with
    | [second], ⟨inRange, _, _⟩ => exact encodeChar_of_two leads (continuation_toNat inRange)
  · match tail, complete with
    | [second, third], ⟨inRange, _, continuations⟩ =>
      obtain ⟨range, lowest, surrogate⟩ := narrowed_toNat (by decide) (by decide) inRange
      exact encodeChar_of_three leads range lowest surrogate
        (continuation_toNat (continuations third (by simp)))
  · match tail, complete with
    | [second, third, fourth], ⟨inRange, _, continuations⟩ =>
      obtain ⟨range, lowest, highest⟩ := narrowed_toNat (by decide) (by decide) inRange
      exact encodeChar_of_four leads range lowest highest
        (continuation_toNat (continuations third (by simp)))
        (continuation_toNat (continuations fourth (by simp)))

theorem toNat_octet (value : Nat) (small : value < 256) : (UInt8.ofNat value).toNat = value := by
  rw [UInt8.toNat_ofNat']
  omega

theorem continuation_ofNat (value : Nat) (small : value < 64) :
    (0x80 : UInt8) ≤ UInt8.ofNat (value + 0x80) ∧ UInt8.ofNat (value + 0x80) ≤ 0xBF := by
  rw [UInt8.le_iff_toNat_le, UInt8.le_iff_toNat_le, toNat_octet _ (by omega)]
  exact ⟨Nat.le_add_left _ _, show value + 0x80 ≤ 0xBF by omega⟩

/-- An octet lies in a narrowed range when it is a continuation and heeds the narrowing. -/
theorem narrowed_of_toNat {octet lowNarrow highNarrow : UInt8} {atLow atHigh : Prop}
    [Decidable atLow] [Decidable atHigh] (range : (0x80 : UInt8) ≤ octet ∧ octet ≤ 0xBF)
    (lowest : atLow → lowNarrow.toNat ≤ octet.toNat)
    (highest : atHigh → octet.toNat ≤ highNarrow.toNat) :
    (if atLow then lowNarrow else 0x80) ≤ octet ∧ octet ≤ if atHigh then highNarrow else 0xBF := by
  constructor
  · split
    next holds => exact UInt8.le_iff_toNat_le.mpr (lowest holds)
    next => exact range.1
  · split
    next holds => exact UInt8.le_iff_toNat_le.mpr (highest holds)
    next => exact range.2

/-- Wherever they stand, the octets `lead :: tail` are taken for one character of the given
value. -/
def Taken (lead : UInt8) (tail : Bytes) (value : Nat) : Prop :=
  0x80 ≤ lead.toNat ∧ ∀ offset, ∃ pending, Pending.ofLead offset lead = some pending ∧
    pending.Completes tail ∧ pending.total tail = value

theorem taken_two {c : Char} (low : 0x80 ≤ c.toNat) (high : c.toNat < 0x800) :
    Taken (UInt8.ofNat (c.toNat / 64 + 0xC0)) [UInt8.ofNat (c.toNat % 64 + 0x80)] c.toNat := by
  have lead := toNat_octet (c.toNat / 64 + 0xC0) (by omega)
  have second := toNat_octet (c.toNat % 64 + 0x80) (by omega)
  refine ⟨by omega, fun offset => ⟨_, Pending.ofLead_two offset (by omega) (by omega),
    ⟨continuation_ofNat _ (by omega), rfl, by simp⟩, ?_⟩⟩
  simp only [Pending.total, List.foldl_cons, List.foldl_nil, lead, second]
  omega

theorem taken_three {c : Char} (low : 0x800 ≤ c.toNat) (high : c.toNat < 0x10000) :
    Taken (UInt8.ofNat (c.toNat / 4096 + 0xE0))
      [UInt8.ofNat (c.toNat / 64 % 64 + 0x80), UInt8.ofNat (c.toNat % 64 + 0x80)] c.toNat := by
  have scalar : c.toNat < 0xD800 ∨ 0xDFFF < c.toNat ∧ c.toNat < 0x110000 := c.valid
  have lead := toNat_octet (c.toNat / 4096 + 0xE0) (by omega)
  have second := toNat_octet (c.toNat / 64 % 64 + 0x80) (by omega)
  have third := toNat_octet (c.toNat % 64 + 0x80) (by omega)
  have narrowed := narrowed_of_toNat (continuation_ofNat (c.toNat / 64 % 64) (by omega))
    (show c.toNat / 4096 + 0xE0 = 0xE0 → (0xA0 : UInt8).toNat ≤ _ by rw [second]; simp; omega)
    (show c.toNat / 4096 + 0xE0 = 0xED → _ ≤ (0x9F : UInt8).toNat by rw [second]; simp; omega)
  rw [← lead] at narrowed
  refine ⟨by omega, fun offset => ⟨_, Pending.ofLead_three offset (by omega) (by omega),
    ⟨narrowed, rfl, List.forall_mem_singleton.mpr (continuation_ofNat _ (by omega))⟩, ?_⟩⟩
  simp only [Pending.total, List.foldl_cons, List.foldl_nil, lead, second, third]
  omega

theorem taken_four {c : Char} (low : 0x10000 ≤ c.toNat) (high : c.toNat < 0x110000) :
    Taken (UInt8.ofNat (c.toNat / 262144 + 0xF0))
      [UInt8.ofNat (c.toNat / 4096 % 64 + 0x80), UInt8.ofNat (c.toNat / 64 % 64 + 0x80),
        UInt8.ofNat (c.toNat % 64 + 0x80)] c.toNat := by
  have lead := toNat_octet (c.toNat / 262144 + 0xF0) (by omega)
  have second := toNat_octet (c.toNat / 4096 % 64 + 0x80) (by omega)
  have third := toNat_octet (c.toNat / 64 % 64 + 0x80) (by omega)
  have fourth := toNat_octet (c.toNat % 64 + 0x80) (by omega)
  have narrowed := narrowed_of_toNat (continuation_ofNat (c.toNat / 4096 % 64) (by omega))
    (show c.toNat / 262144 + 0xF0 = 0xF0 → (0x90 : UInt8).toNat ≤ _ by rw [second]; simp; omega)
    (show c.toNat / 262144 + 0xF0 = 0xF4 → _ ≤ (0x8F : UInt8).toNat by rw [second]; simp; omega)
  rw [← lead] at narrowed
  refine ⟨by omega, fun offset => ⟨_, Pending.ofLead_four offset (by omega) (by omega),
    ⟨narrowed, rfl, ?_⟩, ?_⟩⟩
  · exact List.forall_mem_cons.mpr ⟨continuation_ofNat _ (by omega),
      List.forall_mem_singleton.mpr (continuation_ofNat _ (by omega))⟩
  · simp only [Pending.total, List.foldl_cons, List.foldl_nil, lead, second, third, fourth]
    omega

/-- **The octets of a character above the first 128 are taken for that character.** -/
theorem exists_taken {c : Char} (several : 0x80 ≤ c.toNat) :
    ∃ lead tail, String.utf8EncodeChar c = lead :: tail ∧ Taken lead tail c.toNat := by
  have scalar : c.toNat < 0xD800 ∨ 0xDFFF < c.toNat ∧ c.toNat < 0x110000 := c.valid
  by_cases two : c.toNat < 0x800
  · exact ⟨_, _, encodeChar_two several two, taken_two several two⟩
  by_cases three : c.toNat < 0x10000
  · have low : 0x800 ≤ c.toNat := Nat.le_of_not_lt two
    exact ⟨_, _, encodeChar_three low three, taken_three low three⟩
  · have low : 0x10000 ≤ c.toNat := Nat.le_of_not_lt three
    have high : c.toNat < 0x110000 := by omega
    exact ⟨_, _, encodeChar_four low high, taken_four low high⟩

/-! ## Texts -/

/-- A first octet below 128 is a character by itself. -/
theorem decodeFrom_none_ascii {octet : UInt8} (ascii : octet < 0x80) (offset : Nat) (rest : Bytes) :
    decodeFrom offset none (octet :: rest) =
      (decodeFrom (offset + 1) none rest).map (Char.ofNat octet.toNat :: ·) := by
  rw [decodeFrom, if_pos ascii]

/-- A first octet from 128 on has to ask for more. -/
theorem decodeFrom_none_lead {octet : UInt8} (notAscii : ¬ octet < 0x80) (offset : Nat)
    (rest : Bytes) :
    decodeFrom offset none (octet :: rest) =
      match Pending.ofLead offset octet with
      | none => .error ⟨offset, offset + 1, octet, .invalidStart⟩
      | some pending => decodeFrom (offset + 1) (some pending) rest := by
  rw [decodeFrom]
  exact if_neg notAscii

/-- The octets of a character are read as that character. -/
theorem decodeFrom_encodeChar (c : Char) (offset : Nat) (rest : Bytes) :
    decodeFrom offset none (String.utf8EncodeChar c ++ rest) =
      (decodeFrom (offset + (String.utf8EncodeChar c).length) none rest).map (c :: ·) := by
  by_cases one : c.toNat < 0x80
  · have octet := toNat_octet c.toNat (by omega)
    have ascii : UInt8.ofNat c.toNat < 0x80 := by
      rw [UInt8.lt_iff_toNat_lt, octet]
      exact one
    rw [encodeChar_one one, List.singleton_append, decodeFrom_none_ascii ascii, octet,
      Char.ofNat_toNat]
    rfl
  · obtain ⟨lead, tail, octets, several, asks⟩ := exists_taken (Nat.le_of_not_lt one)
    obtain ⟨pending, starts, complete, total⟩ := asks offset
    have notAscii : ¬ lead < 0x80 := by
      rw [UInt8.lt_iff_toNat_lt]
      exact Nat.not_lt.mpr several
    rw [octets, List.cons_append, decodeFrom_none_lead notAscii, starts]
    dsimp only
    rw [decodeFrom_of_completes complete, total, Char.ofNat_toNat, List.length_cons, Nat.add_assoc,
      Nat.add_comm 1]

theorem decodeFrom_flatMap_encodeChar (characters : List Char) (offset : Nat) :
    decodeFrom offset none (characters.flatMap String.utf8EncodeChar) = .ok characters := by
  induction characters generalizing offset with
  | nil => rfl
  | cons c characters ih => rw [List.flatMap_cons, decodeFrom_encodeChar, ih]; rfl

/-- **Reading the octets of a text gives the text.** -/
theorem decode_encode (text : String) : decode (encode text) = .ok text := by
  rw [decode, encode, decodeFrom_flatMap_encodeChar]
  simp [Except.map]

theorem decodeOrEmpty_encode (text : String) : decodeOrEmpty (encode text) = text := by
  rw [decodeOrEmpty, decode_encode]

/-- Octets that are read between characters are the octets of the characters that are read. -/
theorem flatMap_encodeChar_of_decodeFrom {offset : Nat} {bytes : Bytes} {characters : List Char}
    (success : decodeFrom offset none bytes = .ok characters) :
    characters.flatMap String.utf8EncodeChar = bytes := by
  -- One character takes one octet or more, so the induction is on the number of octets.
  induction size : bytes.length using Nat.strongRecOn generalizing bytes offset characters with
  | ind count ih =>
      cases bytes with
      | nil =>
          rw [decodeFrom] at success
          cases success
          rfl
      | cons octet rest =>
          by_cases ascii : octet < 0x80
          · rw [decodeFrom_none_ascii ascii] at success
            cases here : decodeFrom (offset + 1) none rest with
            | error fault => rw [here] at success; exact nomatch success
            | ok others =>
                rw [here] at success
                cases success
                have small : octet.toNat < 0x80 := UInt8.lt_iff_toNat_lt.mp ascii
                have same := toNat_ofNat octet.toNat (.inl (by omega))
                have after := ih rest.length (by rw [← size, List.length_cons]; omega) here rfl
                rw [List.flatMap_cons, after, encodeChar_one (by rw [same]; exact small), same,
                  UInt8.ofNat_toNat]
                rfl
          · rw [decodeFrom_none_lead ascii] at success
            cases starts : Pending.ofLead offset octet with
            | none => rw [starts] at success; exact nomatch success
            | some pending =>
                rw [starts] at success
                have owes := Pending.one_le_owed_of_ofLead starts
                obtain ⟨tail, left, others, rfl, complete, rfl, after⟩ :=
                  completes_of_decodeFrom owes success
                have shorter : left.length < count := by
                  rw [← size, List.length_cons, List.length_append]
                  omega
                rw [List.flatMap_cons, encodeChar_total starts complete,
                  ih left.length shorter after rfl, List.cons_append]

/-- **Octets that can be read are the octets of the text that is read.** -/
theorem encode_of_decode {bytes : Bytes} {text : String} (success : decode bytes = .ok text) :
    encode text = bytes := by
  rw [decode] at success
  cases here : decodeFrom 0 none bytes with
  | error fault => rw [here] at success; exact nomatch success
  | ok characters =>
      rw [here] at success
      cases success
      rw [encode, String.toList_ofList, flatMap_encodeChar_of_decodeFrom here]

/-- Octets are read as a text exactly when they are the octets of the text. -/
theorem decode_eq_ok_iff {bytes : Bytes} {text : String} :
    decode bytes = .ok text ↔ bytes = encode text :=
  ⟨fun success => (encode_of_decode success).symm, fun same => same ▸ decode_encode text⟩

theorem encode_injective : Function.Injective encode := by
  intro first second same
  have decoded := decode_encode first
  rw [same, decode_encode] at decoded
  exact (Except.ok.inj decoded).symm

theorem encode_append (first second : String) :
    encode (first ++ second) = encode first ++ encode second := by
  rw [encode, encode, encode, String.toList_append, List.flatMap_append]

/-! ## Octets below 128 -/

/-- All octets of a character above the first 128 are from 128 on. -/
theorem le_toNat_of_mem_encodeChar {c : Char} (several : 0x80 ≤ c.toNat) {octet : UInt8}
    (member : octet ∈ String.utf8EncodeChar c) : 0x80 ≤ octet.toNat := by
  have scalar : c.toNat < 0xD800 ∨ 0xDFFF < c.toNat ∧ c.toNat < 0x110000 := c.valid
  have from128 (value : Nat) (low : 0x80 ≤ value) (high : value < 0x100) :
      0x80 ≤ (UInt8.ofNat value).toNat := by
    rw [toNat_octet value high]
    exact low
  by_cases two : c.toNat < 0x800
  · rw [encodeChar_two several two, List.mem_pair] at member
    rcases member with rfl | rfl <;> exact from128 _ (by omega) (by omega)
  by_cases three : c.toNat < 0x10000
  · rw [encodeChar_three (by omega) three] at member
    simp only [List.mem_cons, List.not_mem_nil, or_false] at member
    rcases member with rfl | rfl | rfl <;> exact from128 _ (by omega) (by omega)
  · rw [encodeChar_four (by omega) (by omega)] at member
    simp only [List.mem_cons, List.not_mem_nil, or_false] at member
    rcases member with rfl | rfl | rfl | rfl <;> exact from128 _ (by omega) (by omega)

/-- **An octet below 128 is a character by itself, and occurs in no other one.** -/
theorem encodeChar_of_mem_ascii {c : Char} {octet : UInt8}
    (member : octet ∈ String.utf8EncodeChar c) (ascii : octet.toNat < 0x80) :
    c.toNat = octet.toNat ∧ String.utf8EncodeChar c = [octet] := by
  by_cases one : c.toNat < 0x80
  · rw [encodeChar_one one, List.mem_singleton] at member
    refine ⟨?_, ?_⟩
    · rw [member, toNat_octet c.toNat (by omega)]
    · rw [encodeChar_one one, member]
  · have above := le_toNat_of_mem_encodeChar (Nat.le_of_not_lt one) member
    omega

theorem encodeChar_carriageReturn : String.utf8EncodeChar '\r' = [0x0D] := by decide

theorem encodeChar_lineFeed : String.utf8EncodeChar '\n' = [0x0A] := by decide

/-- The octet of a character below 128 comes from that character alone. -/
theorem eq_of_mem_encodeChar {c plain : Char} {octet : UInt8} (ascii : octet.toNat < 0x80)
    (encodes : String.utf8EncodeChar plain = [octet]) (member : octet ∈ String.utf8EncodeChar c) :
    c = plain := by
  have same := (encodeChar_of_mem_ascii member ascii).1
  have samePlain := (encodeChar_of_mem_ascii (encodes ▸ List.mem_singleton_self octet) ascii).1
  exact Char.toNat_inj.mp (same.trans samePlain.symm)

end Unqualify.Utf8
