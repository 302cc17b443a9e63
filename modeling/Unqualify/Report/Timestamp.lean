/-!
# Times in reports

A time is read from a date, a separator and a time of day, of which the seconds, a fraction of a
second and a distance from universal time may be left out; a date alone is its first moment. A time
is written with seconds, with six places when there is a fraction, and with a `Z` for universal
time.
-/

set_option autoImplicit false

namespace Unqualify

/-- A point in time as it is written. -/
structure Timestamp where
  date : List Char
  hour : List Char
  minute : List Char
  second : List Char := ['0', '0']
  /-- Millionths of a second, as six digits. -/
  fraction : List Char := List.replicate 6 '0'
  /-- The distance from universal time: nothing, or a sign, hours and minutes. -/
  zone : Option (List Char) := none
  deriving DecidableEq, Repr

namespace Timestamp

/-- Digits cut or filled up to six places. -/
def sixPlaces (digits : List Char) : List Char :=
  (digits ++ List.replicate 6 '0').take 6

/-- A distance from universal time; none at all is universal time itself. -/
def distance? (sign : Char) (hour minute : List Char) : Option (Option (List Char)) :=
  if sign == '+' || sign == '-' then
    if (hour ++ minute).all (· == '0') then some (some ['Z'])
    else some (some (sign :: hour ++ ':' :: minute))
  else none

/-- Reads the distance from universal time. -/
def zone? : List Char → Option (Option (List Char))
  | [] => some none
  | ['Z'] => some (some ['Z'])
  | ['z'] => some (some ['Z'])
  | [sign, h, h', ':', m, m'] => distance? sign [h, h'] [m, m']
  | [sign, h, h', m, m'] => distance? sign [h, h'] [m, m']
  | _ => none

/-- Reads what follows the minutes. -/
def rest? (date hour minute : List Char) : List Char → Option Timestamp
  | ':' :: s :: s' :: rest =>
      let point := rest.takeWhile fun c => c == '.' || c == ','
      let digits := (rest.drop point.length).takeWhile Char.isDigit
      if point.isEmpty then
        (zone? rest).map fun zone => { date, hour, minute, second := [s, s'], zone }
      else
        (zone? (rest.drop (1 + digits.length))).map fun zone =>
          ⟨date, hour, minute, [s, s'], sixPlaces digits, zone⟩
  | rest => (zone? rest).map fun zone => { date, hour, minute, zone }

/-- Reads a time. -/
def ofText? (text : String) : Option Timestamp :=
  let date := text.toList.take 10
  match text.toList.drop 10 with
  | [] => some { date, hour := ['0', '0'], minute := ['0', '0'] }
  | separator :: h :: h' :: ':' :: m :: m' :: rest =>
      if ['T', 't', ' ', '_'].contains separator then rest? date [h, h'] [m, m'] rest else none
  | _ => none

/-- Writes a time. -/
def text (time : Timestamp) : String :=
  String.ofList
    (time.date ++ 'T' :: time.hour ++ ':' :: time.minute ++ ':' :: time.second ++
      (if time.fraction.all (· == '0') then [] else '.' :: time.fraction) ++ time.zone.getD [])

end Timestamp

end Unqualify
