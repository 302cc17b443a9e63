/-!
# Octets and the UTF-8 form of a text

Positions in a source unit are counted in octets of its UTF-8 form, so the library keeps the
octets of a unit at hand as a list. `encode` gives the octets of a text. `decode` reads octets
back, one at a time: between characters it looks at the first octet of the next one, and inside a
character it holds what has been read so far together with the range in which the next octet has
to lie. The narrowed ranges after `E0`, `ED`, `F0` and `F4` rule out overlong forms, surrogates
and values above the last code point.

A failure names the octets at fault. An octet that starts no character is at fault alone; when a
continuation is wrong, the octets of the character read before it are; when the input ends inside
a character, all of its octets are.
-/

set_option autoImplicit false

namespace Unqualify

/-- A stored text: its octets in order. -/
abbrev Bytes := List UInt8

/-- The octets from offset `start` up to offset `stop`, cut off at the end of the text. -/
def Bytes.slice (bytes : Bytes) (start stop : Nat) : Bytes :=
  (bytes.drop start).take (stop - start)

namespace Utf8

/-- The octets of a text. -/
def encode (text : String) : Bytes :=
  text.toList.flatMap String.utf8EncodeChar

/-! ## What can go wrong -/

/-- Why octets are not the form of a text. -/
inductive Reason where
  | invalidStart
  | invalidContinuation
  | unexpectedEnd
  deriving DecidableEq, Repr

/-- The wording of a reason. -/
def Reason.text : Reason → String
  | .invalidStart => "invalid start byte"
  | .invalidContinuation => "invalid continuation byte"
  | .unexpectedEnd => "unexpected end of data"

/-- The octets from `start` up to `stop`, of which `lead` is the first, form no character. -/
structure Fault where
  start : Nat
  stop : Nat
  lead : UInt8
  reason : Reason
  deriving DecidableEq, Repr

/-- Two lower-case hexadecimal digits. -/
def hexPair (octet : UInt8) : String :=
  String.ofList [Nat.digitChar (octet.toNat / 16), Nat.digitChar (octet.toNat % 16)]

/-- One octet at fault is shown with its value, several only with their positions. -/
def Fault.message (fault : Fault) : String :=
  let place :=
    if fault.stop = fault.start + 1 then
      "byte 0x" ++ hexPair fault.lead ++ " in position " ++ toString fault.start
    else
      "bytes in position " ++ toString fault.start ++ "-" ++ toString (fault.stop - 1)
  "'utf-8' codec can't decode " ++ place ++ ": " ++ fault.reason.text

/-! ## Reading -/

/-- A character that has been read in part: where it starts, its first octet, the value collected
so far, how many octets are owed, and the range in which the next one has to lie. -/
structure Pending where
  start : Nat
  lead : UInt8
  value : Nat
  owed : Nat
  low : UInt8
  high : UInt8
  deriving DecidableEq, Repr

/-- What the first octet of a character of several octets asks for, if it is one. -/
def Pending.ofLead (offset : Nat) (octet : UInt8) : Option Pending :=
  let pending (value owed : Nat) (low high : UInt8) : Option Pending :=
    some ⟨offset, octet, value, owed, low, high⟩
  if octet < 0xC2 then none
  else if octet < 0xE0 then pending (octet.toNat - 0xC0) 1 0x80 0xBF
  else if octet = 0xE0 then pending 0 2 0xA0 0xBF
  else if octet = 0xED then pending 0xD 2 0x80 0x9F
  else if octet < 0xF0 then pending (octet.toNat - 0xE0) 2 0x80 0xBF
  else if octet = 0xF0 then pending 0 3 0x90 0xBF
  else if octet < 0xF4 then pending (octet.toNat - 0xF0) 3 0x80 0xBF
  else if octet = 0xF4 then pending 4 3 0x80 0x8F
  else none

/-- Reads the octets from `offset` on, inside the character `pending` if there is one. -/
def decodeFrom : Nat → Option Pending → Bytes → Except Fault (List Char)
  | _, none, [] => .ok []
  | offset, some pending, [] => .error ⟨pending.start, offset, pending.lead, .unexpectedEnd⟩
  | offset, none, octet :: rest =>
      if octet < 0x80 then
        (decodeFrom (offset + 1) none rest).map (Char.ofNat octet.toNat :: ·)
      else
        match Pending.ofLead offset octet with
        | none => .error ⟨offset, offset + 1, octet, .invalidStart⟩
        | some pending => decodeFrom (offset + 1) (some pending) rest
  | offset, some pending, octet :: rest =>
      if octet < pending.low || pending.high < octet then
        .error ⟨pending.start, offset, pending.lead, .invalidContinuation⟩
      else
        let value := pending.value * 64 + (octet.toNat - 0x80)
        if pending.owed ≤ 1 then
          (decodeFrom (offset + 1) none rest).map (Char.ofNat value :: ·)
        else
          decodeFrom (offset + 1)
            (some { pending with value, owed := pending.owed - 1, low := 0x80, high := 0xBF }) rest

/-- The text whose octets are given, or the first fault in them. -/
def decode (bytes : Bytes) : Except Fault String :=
  (decodeFrom 0 none bytes).map String.ofList

/-- The text whose octets are given, and the empty text when they are not the form of one. -/
def decodeOrEmpty (bytes : Bytes) : String :=
  match decode bytes with
  | .ok text => text
  | .error _ => ""

end Utf8

end Unqualify
