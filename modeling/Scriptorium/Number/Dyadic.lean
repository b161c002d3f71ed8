/-
  Scriptorium.Number.Dyadic: the exact value of a double.

  A finite double is a natural number times a power of two, with a sign.  The
  functions here read a double's bits as such a value and build a double from one,
  so that remainder, truncation and decimal digits can be computed without
  rounding.
-/

namespace Scriptorium.Number

/-- The value `±mantissa · 2 ^ exponent`. -/
structure Dyadic where
  negative : Bool
  mantissa : Nat
  exponent : Int
deriving DecidableEq, Repr

/-- What a double stands for. -/
inductive Reading where
  /-- Not a number. -/
  | nan
  /-- Positive or negative infinity. -/
  | infinite (negative : Bool)
  /-- An exact value. -/
  | finite (value : Dyadic)
deriving DecidableEq, Repr

/-- Reads a double: one sign bit, eleven exponent bits, fifty-two fraction bits. -/
def read (x : Float) : Reading :=
  let bits : Nat := x.toBits.toNat
  let negative := decide (Nat.pow 2 63 ≤ bits)
  let biased : Nat := bits / Nat.pow 2 52 % 2048
  let fraction : Nat := bits % Nat.pow 2 52
  if biased = 2047 then
    if fraction = 0 then .infinite negative else .nan
  else if biased = 0 then .finite ⟨negative, fraction, -1074⟩
  else .finite ⟨negative, Nat.pow 2 52 + fraction, (biased : Int) - 1075⟩

/-- The number of binary digits. -/
def bitLength (n : Nat) : Nat := if n = 0 then 0 else n.log2 + 1

namespace Dyadic

/-- The double of a value that one can hold exactly: a mantissa of at most
    fifty-three bits and an exponent of at least `-1074`. -/
def toFloat (d : Dyadic) : Float :=
  let sign : Nat := if d.negative then Nat.pow 2 63 else 0
  if d.mantissa = 0 then Float.ofBits sign.toUInt64
  else
    let room : Nat := 53 - bitLength d.mantissa
    let down : Nat := min room (d.exponent + 1074).toNat
    let mantissa := d.mantissa * Nat.pow 2 down
    let exponent := d.exponent - down
    if mantissa < Nat.pow 2 52 then Float.ofBits (sign + mantissa).toUInt64
    else
      let biased := (exponent + 1075).toNat
      Float.ofBits (sign + biased * Nat.pow 2 52 + (mantissa - Nat.pow 2 52)).toUInt64

/-- The magnitude rounded toward zero. -/
def whole (d : Dyadic) : Nat :=
  if 0 ≤ d.exponent then d.mantissa * Nat.pow 2 d.exponent.toNat
  else d.mantissa / Nat.pow 2 (-d.exponent).toNat

/-- Whether the value is an integer. -/
def isWhole (d : Dyadic) : Bool :=
  0 ≤ d.exponent || d.mantissa % Nat.pow 2 (-d.exponent).toNat = 0

/-- The magnitude as a fraction `numerator / denominator`. -/
def fraction (d : Dyadic) : Nat × Nat :=
  if 0 ≤ d.exponent then (d.mantissa * Nat.pow 2 d.exponent.toNat, 1)
  else (d.mantissa, Nat.pow 2 (-d.exponent).toNat)

/-- The remainder of a division that rounds its quotient toward zero.  It has the
    sign of the dividend, and its magnitude is below the divisor's. -/
def remainder (a b : Dyadic) : Dyadic :=
  let exponent := min a.exponent b.exponent
  let scaled (d : Dyadic) : Nat := d.mantissa * Nat.pow 2 (d.exponent - exponent).toNat
  ⟨a.negative, scaled a % scaled b, exponent⟩

end Dyadic

/-- The remainder of the division of two doubles, exact.  There is none of an
    infinite dividend or of a division by zero; an infinite divisor leaves the
    dividend as it is. -/
def remainder (x y : Float) : Float :=
  match read x, read y with
  | .finite a, .finite b =>
    if b.mantissa = 0 then Float.ofBits 0x7FF8000000000000 else (a.remainder b).toFloat
  | .finite _, .infinite _ => x
  | _, _ => Float.ofBits 0x7FF8000000000000

end Scriptorium.Number
