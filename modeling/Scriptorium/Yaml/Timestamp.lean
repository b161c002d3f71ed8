/-
  Scriptorium.Yaml.Timestamp: plain scalars that are points in time.

  A timestamp is a date of the calendar, perhaps with a time of day after it: behind
  a letter with a zone, or behind blanks without one.  Nothing here needs the point
  in time itself, only whether a text is one.
-/

import Scriptorium.Number.Digits

namespace Scriptorium.Yaml.Timestamp

/-- Whether a byte is an ASCII digit. -/
def isDigit (b : UInt8) : Bool := 0x30 ≤ b && b ≤ 0x39

/-- One or two digits, and the rest. -/
def shortNumber? : Text → Option (Nat × Text)
  | a :: b :: rest =>
    if !isDigit a then none
    else if isDigit b then some (Number.natOfDigits [a, b], rest)
    else some (Number.natOfDigits [a], b :: rest)
  | [a] => if isDigit a then some (Number.natOfDigits [a], []) else none
  | [] => none

/-- One or two digits whose value is at most `limit`. -/
def upTo? (limit : Nat) (t : Text) : Option (Nat × Text) :=
  (shortNumber? t).filter fun r => r.1 ≤ limit

/-- The rest after a byte that must be there. -/
def after? (b : UInt8) : Text → Option Text
  | a :: rest => if a = b then some rest else none
  | [] => none

/-- The number of days of a month. -/
def daysIn (year month : Nat) : Nat :=
  if month = 2 then
    if year % 4 = 0 && (year % 100 ≠ 0 || year % 400 = 0) then 29 else 28
  else if month = 4 || month = 6 || month = 9 || month = 11 then 30
  else 31

/-- A date with a year of four digits. -/
def date? (t : Text) : Option Text := do
  let digits := t.takeWhile isDigit
  if digits.length ≠ 4 then none
  let year := Number.natOfDigits digits
  let rest ← after? 0x2D (t.drop 4)
  let (month, rest) ← upTo? 12 rest
  let rest ← after? 0x2D rest
  let (day, rest) ← shortNumber? rest
  if 1 ≤ month && 1 ≤ day && day ≤ daysIn year month then some rest else none

/-- The rest after a fraction of a second, if there is one. -/
def skipFraction : Text → Text
  | mark :: rest =>
    if (mark = 0x2E || mark = 0x2C) && rest.head?.any isDigit then rest.dropWhile isDigit
    else mark :: rest
  | [] => []

/-- A time of day. -/
def time? (t : Text) : Option Text := do
  let (_, rest) ← upTo? 23 t
  let rest ← after? 0x3A rest
  let (_, rest) ← upTo? 59 rest
  let rest ← after? 0x3A rest
  let (_, rest) ← upTo? 59 rest
  return skipFraction rest

/-- Whether a text is a time zone. -/
def isZone : Text → Bool
  | [0x5A] => true
  | [sign, a, b, 0x3A, c, d] =>
    (sign = 0x2B || sign = 0x2D) && [a, b, c, d].all isDigit &&
      Number.natOfDigits [a, b] ≤ 24 && Number.natOfDigits [c, d] ≤ 60
  | _ => false

end Timestamp

/-- Whether a text is a point in time. -/
def isTimestamp (t : Text) : Bool :=
  match Timestamp.date? t with
  | none => false
  | some [] => true
  | some (mark :: rest) =>
    if mark = 0x54 || mark = 0x74 then (Timestamp.time? rest).any Timestamp.isZone
    else mark = 0x20 && (Timestamp.time? (rest.dropWhile (· = 0x20))).any List.isEmpty

end Scriptorium.Yaml
