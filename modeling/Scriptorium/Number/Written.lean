/-
  Scriptorium.Number.Written: numbers as scripts, dumps and logs show them.

  Every finite number is written with its shortest digits.  The two formats differ
  in where exponents begin and in how they are spelled: `text` is what a script
  prints, `json` what a JSON document holds.
-/

import Scriptorium.Number.Shortest
import Scriptorium.Text.Basic

namespace Scriptorium.Number

/-- The digits of a decimal without an exponent. -/
def Decimal.positional (d : Decimal) : List Char :=
  let digits := Nat.toDigits 10 d.digits
  if 0 ≤ d.exponent then digits ++ List.replicate d.exponent.toNat '0'
  else
    let places := (-d.exponent).toNat
    if places < digits.length then
      digits.take (digits.length - places) ++ '.' :: digits.drop (digits.length - places)
    else '0' :: '.' :: List.replicate (places - digits.length) '0' ++ digits

/-- The digits of a decimal with one digit before the point and an exponent of at
    least `width` digits. -/
def Decimal.scientific (width : Nat) (d : Decimal) : List Char :=
  let digits := Nat.toDigits 10 d.digits
  let exponent := d.exponent + (digits.length - 1 : Nat)
  let exponentDigits := Nat.toDigits 10 exponent.natAbs
  let point := if digits.length ≤ 1 then [] else ['.']
  digits.take 1 ++ point ++ digits.drop 1 ++
    ['e', if exponent < 0 then '-' else '+'] ++
    List.replicate (width - exponentDigits.length) '0' ++ exponentDigits

/-- Whether a positive decimal is at least `10 ^ k`. -/
def Decimal.reaches (d : Decimal) (k : Int) : Bool :=
  k ≤ d.exponent + (digitCount d.digits : Int) - 1

/-- A finite number: sign, then its shortest digits in the given spelling. -/
def signed (negative : Bool) (digits : List Char) : Text :=
  Text.ofString (String.ofList (if negative then '-' :: digits else digits))

/-- The number as a script prints it: without an exponent below `10 ^ 21`. -/
def text (x : Float) : Text :=
  match read x with
  | .nan => "NaN"
  | .infinite negative => if negative then "-Infinity" else "Infinity"
  | .finite d =>
    if d.mantissa = 0 then signed d.negative ['0']
    else
      let s := shortest d.mantissa d.exponent
      signed d.negative (if s.reaches 21 then s.scientific 2 else s.positional)

/-- The number in a JSON document: without an exponent from `10 ^ -6` to below
    `10 ^ 21`.  NaN and the infinities cannot be written. -/
def json? (x : Float) : Option Text :=
  match read x with
  | .nan => none
  | .infinite _ => none
  | .finite d =>
    if d.mantissa = 0 then some (signed d.negative ['0'])
    else
      let s := shortest d.mantissa d.exponent
      let digits :=
        if s.reaches 21 then s.scientific 2
        else if s.reaches (-6) then s.positional
        else s.scientific 1
      some (signed d.negative digits)

end Scriptorium.Number
