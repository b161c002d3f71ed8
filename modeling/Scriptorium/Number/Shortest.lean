/-
  Scriptorium.Number.Shortest: the fewest decimal digits that read back.

  A double is the nearest one to every real in an interval around it.  Among the
  decimals in that interval the shortest is taken, and of two of the same length
  the nearer one.  All comparisons are between fractions of natural numbers.
-/

import Scriptorium.Number.Dyadic

namespace Scriptorium.Number

/-- A decimal `digits · 10 ^ exponent`. -/
structure Decimal where
  digits : Nat
  exponent : Int
deriving DecidableEq, Repr

/-- The number of decimal digits; zero has none. -/
def digitCount (n : Nat) : Nat := if n = 0 then 0 else (Nat.toDigits 10 n).length

/-- The exponent `k` with `10 ^ (k - 1) ≤ num / den < 10 ^ k`, for a positive
    fraction. -/
def decimalExponent (num den : Nat) : Int :=
  if den ≤ num then digitCount (num / den)
  else 1 - digitCount ((den + num - 1) / num - 1)

/-- Drops the trailing zeros of a decimal; `fuel` bounds how many. -/
def Decimal.strip : (fuel : Nat) → Decimal → Decimal
  | 0, d => d
  | fuel + 1, d =>
    if d.digits ≠ 0 ∧ d.digits % 10 = 0 then strip fuel ⟨d.digits / 10, d.exponent + 1⟩ else d

/-- The reals that round to `mantissa · 2 ^ exponent`, scaled so that all bounds are
    natural numbers over one denominator. -/
structure Interval where
  low : Nat
  value : Nat
  high : Nat
  denominator : Nat
  /-- Whether the two ends themselves round to the value. -/
  closed : Bool

/-- The interval of a positive double.  Below a power of two the next double is only
    half as far away. -/
def Interval.around (mantissa : Nat) (exponent : Int) : Interval :=
  let below := if mantissa = Nat.pow 2 52 ∧ -1074 < exponent then 1 else 2
  let up := Nat.pow 2 exponent.toNat
  { low := (4 * mantissa - below) * up
    value := 4 * mantissa * up
    high := (4 * mantissa + 2) * up
    denominator := 4 * Nat.pow 2 (-exponent).toNat
    closed := mantissa % 2 = 0 }

/-- Whether `num / den` lies in the interval. -/
def Interval.holds (i : Interval) (num den : Nat) : Bool :=
  let x := num * i.denominator
  if i.closed then i.low * den ≤ x && x ≤ i.high * den
  else i.low * den < x && x < i.high * den

/-- The decimal of `count` digits nearest to the value, if it lies in the interval.
    `top` is the value's decimal exponent. -/
def Interval.atLength (i : Interval) (top : Int) (count : Nat) : Option Decimal :=
  let exponent := top - count
  let up := Nat.pow 10 exponent.toNat
  let down := Nat.pow 10 (-exponent).toNat
  let floor := i.value * down / (i.denominator * up)
  let lowHit := i.holds (floor * up) down
  let highHit := i.holds ((floor + 1) * up) down
  -- twice the distance below, against one unit
  let twice := 2 * (i.value * down - floor * (i.denominator * up))
  let unit := i.denominator * up
  let preferLow := twice < unit || (twice = unit && floor % 2 = 0)
  if lowHit && (preferLow || !highHit) then some ⟨floor, exponent⟩
  else if highHit then some ⟨floor + 1, exponent⟩
  else none

/-- The shortest decimal of a positive double. -/
def shortest (mantissa : Nat) (exponent : Int) : Decimal :=
  let i := Interval.around mantissa exponent
  let top := decimalExponent i.value i.denominator
  match (List.range' 1 17).findSome? (i.atLength top) with
  | some d => d.strip 20
  | none => ⟨mantissa, exponent⟩

end Scriptorium.Number
