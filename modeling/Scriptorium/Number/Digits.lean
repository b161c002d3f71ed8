/-
  Scriptorium.Number.Digits: the number that is written by a text.

  A run of decimal digits is read as a natural number and rounded once to the nearest
  double; a run too large for one becomes infinite.  That is all that a script can have.
  A text from elsewhere may also be signed, have a point, an exponent and underscores
  between its digits, be written to the base of sixteen, or be a word for infinity or
  for no number; anything else writes no number.
-/

import Scriptorium.Text.Basic

namespace Scriptorium.Number

/-- The natural number a run of ASCII digits stands for. -/
def natOfDigits (digits : Text) : Nat :=
  digits.foldl (fun n b => 10 * n + (b.toNat - 0x30)) 0

/-- The double nearest to a run of ASCII digits. -/
def ofDigits (digits : Text) : Float := Float.ofScientific (natOfDigits digits) false 0

/-- Whether a byte is a decimal digit. -/
def isDigit (b : UInt8) : Bool := 0x30 ≤ b && b ≤ 0x39

/-- The value of a digit to the base of ten, or of sixteen. -/
def digit? (hex : Bool) (b : UInt8) : Option Nat :=
  let lower := b ||| 0x20
  if isDigit b then some (b.toNat - 0x30)
  else if hex && 0x61 ≤ lower && lower ≤ 0x66 then some (lower.toNat - 0x61 + 10)
  else none

/-- What was read of a number: the digits as one natural number, how many of them stand
    behind the point, and whether there was a digit and a point. -/
structure Mantissa where
  value : Nat
  behind : Nat
  digits : Bool
  point : Bool

/-- Reads on from what was read; underscores are passed over. -/
def readMantissa (hex : Bool) : Mantissa → Text → Mantissa × Text
  | m, [] => (m, [])
  | m, b :: rest =>
    if b = 0x5F then readMantissa hex m rest
    else if b = 0x2E && !m.point then readMantissa hex { m with point := true } rest
    else
      match digit? hex b with
      | some d =>
        let value := (if hex then 16 else 10) * m.value + d
        let behind := if m.point then m.behind + 1 else m.behind
        readMantissa hex { m with value, behind, digits := true } rest
      | none => (m, b :: rest)

/-- Reads the digits of an exponent, up to a value that is too large for any number. -/
def readExponent : Nat → Text → Nat × Text
  | n, [] => (n, [])
  | n, b :: rest =>
    if b = 0x5F then readExponent n rest
    else if isDigit b then
      readExponent (if n < 10000 then 10 * n + (b.toNat - 0x30) else n) rest
    else (n, b :: rest)

/-- What stands before a byte, as far as underscores are concerned. -/
inductive Before where
  | digit
  | underscore
  | other
deriving DecidableEq

/-- Whether underscores stand between digits only. -/
def underscoresFit (hex : Bool) : Before → Text → Bool
  | before, [] => before ≠ .underscore
  | before, b :: rest =>
    if (digit? hex b).isSome then underscoresFit hex .digit rest
    else if b = 0x5F then before = .digit && underscoresFit hex .underscore rest
    else before ≠ .underscore && underscoresFit hex .other rest

/-- A natural number times a power of two or of ten, rounded once. -/
def scaled (hex : Bool) (value : Nat) (exponent : Int) : Float :=
  let size := exponent.natAbs
  if !hex then Float.ofScientific value (exponent < 0) size
  else if exponent < 0 then Float.ofScientific (value * Nat.pow 5 size) true size
  else Float.ofScientific (value * Nat.pow 2 size) false 0

/-- The number that a text without sign writes: digits, perhaps with a point, and an
    exponent, which the base of sixteen asks for. -/
def unsigned? (t : Text) : Option Float := do
  let (hex, digits) := match t with
    | 0x30 :: x :: b :: rest => if x ||| 0x20 = 0x78 then (true, b :: rest) else (false, t)
    | _ => (false, t)
  let (m, rest) := readMantissa hex ⟨0, 0, false, false⟩ digits
  guard m.digits
  let shift : Int := if hex then 4 * m.behind else m.behind
  let mark : UInt8 := if hex then 0x70 else 0x65
  let (exponent, rest) : Int × Text ← match rest with
    | [] => if hex then none else pure (0, [])
    | b :: rest => do
      guard (b ||| 0x20 = mark)
      let (negative, rest) := match rest with
        | 0x2D :: rest => (true, rest)
        | 0x2B :: rest => (false, rest)
        | rest => (false, rest)
      guard ((rest.head?.map isDigit).getD false)
      let (n, rest) := readExponent 0 rest
      pure (if negative then -(n : Int) else n, rest)
  guard rest.isEmpty
  guard (underscoresFit hex (if hex then .digit else .other) digits)
  return scaled hex m.value (exponent - shift)

/-- The number that a text writes. -/
def ofText? (t : Text) : Option Float :=
  -- the first case is the only one that a script has
  if !t.isEmpty && t.all isDigit then some (ofDigits t)
  else if t.lowerAscii = Text.ofString "nan" then some (0 / 0)
  else
    let (negative, size) : Bool × Text := match t with
      | 0x2D :: rest => (true, rest)
      | 0x2B :: rest => (false, rest)
      | t => (false, t)
    let word := size.lowerAscii
    let found :=
      if word = Text.ofString "inf" || word = Text.ofString "infinity" then some (1 / 0)
      else unsigned? size
    found.map fun x => if negative then -x else x

/-- A run of digits writes the number that it is read as. -/
theorem ofText?_digits {t : Text} (hne : t ≠ []) (hdigits : ∀ b ∈ t, isDigit b = true) :
    ofText? t = some (ofDigits t) := by
  have hall : (!t.isEmpty && t.all isDigit) = true := by
    simp only [Bool.and_eq_true, List.all_eq_true]
    exact ⟨by simp [hne], hdigits⟩
  unfold ofText?
  rw [if_pos hall]

end Scriptorium.Number
