/-
  Scriptorium.Number.Locale: numbers as readers of some language write them.

  A number is rounded to three decimal places, a half going to the even
  neighbour, and trailing zeros are dropped.  The whole part is grouped: by three
  digits, or in some places by three and then by two.  A locale supplies the
  separators, the sign, the digits and the word for "not a number".
-/

import Scriptorium.Number.Dyadic
import Scriptorium.Text.Basic

namespace Scriptorium.Number

/-! ## Rounding -/

/-- The quotient rounded to the nearest integer, a half to the even neighbour. -/
def roundDiv (num den : Nat) : Nat :=
  let quotient := num / den
  let twice := 2 * (num % den)
  if twice < den then quotient
  else if den < twice then quotient + 1
  else if quotient % 2 = 0 then quotient
  else quotient + 1

/-! ## Locales -/

/-- How a language writes numbers. -/
structure Locale where
  group : String
  point : String
  minus : String
  nan : String
  /-- The digit zero; the other digits follow it. -/
  zero : Char
  /-- Whether groups after the first have two digits. -/
  pairs : Bool

namespace Locale

/-- Comma for groups, point for decimals. -/
def commaPoint : Locale := ⟨",", ".", "-", "NaN", '0', false⟩

/-- As `commaPoint`, with groups of two after the first. -/
def commaPointPairs : Locale := { commaPoint with pairs := true }

/-- Point for groups, comma for decimals. -/
def pointComma : Locale := ⟨".", ",", "-", "NaN", '0', false⟩

/-- Apostrophe for groups, point for decimals. -/
def apostrophePoint : Locale := ⟨"\u2019", ".", "-", "NaN", '0', false⟩

/-- No-break blank for groups, comma for decimals. -/
def blankComma : Locale := ⟨"\u00a0", ",", "-", "NaN", '0', false⟩

/-- Russian. -/
def russian : Locale := { blankComma with nan := "не\u00a0число" }

/-- Swedish. -/
def swedish : Locale := { blankComma with minus := "\u2212", nan := "¤¤¤" }

/-- Arabic. -/
def arabic : Locale :=
  ⟨"\u066c", "\u066b", "\u061c-", "ليس\u00a0رقم", '\u0660', false⟩

/-- Persian. -/
def persian : Locale := ⟨"\u066c", "\u066b", "\u200e\u2212", "ناعدد", '\u06f0', false⟩

/-- Bengali. -/
def bengali : Locale := { commaPointPairs with zero := '\u09e6' }

/-- The locales that are known, under their names in lower case. -/
def table : List (List String × Locale) := [
  (["en", "en-us", "en-gb", "en-latn-us", "ja", "zh", "und", "root"], commaPoint),
  (["en-in", "hi"], commaPointPairs),
  (["de", "de-de", "es", "it", "pt"], pointComma),
  (["de-ch"], apostrophePoint),
  (["de-at", "fr", "pt-pt", "pl"], blankComma),
  (["ru"], russian),
  (["sv"], swedish),
  (["ar"], arabic),
  (["fa"], persian),
  (["bn"], bengali)]

/-- The locale of a name, in which case does not matter and an underscore counts as
    a hyphen. -/
def find? (name : Text) : Option Locale :=
  let name := name.lowerAscii.map fun b => if b = 0x5F then 0x2D else b
  (table.find? fun row => row.1.any fun known => Text.ofString known = name).map Prod.snd

/-! ## Writing -/

/-- A decimal digit in the locale's script. -/
def digit (l : Locale) (d : Char) : Char := Char.ofNat (l.zero.toNat + (d.toNat - '0'.toNat))

/-- Splits digits, given from the last to the first, into groups of the given
    sizes; the last size goes on for ever. -/
def groups (first later : Nat) : (fuel : Nat) → List Char → List (List Char)
  | 0, _ => []
  | _, [] => []
  | fuel + 1, digits =>
    digits.take first :: groups later later fuel (digits.drop first)

/-- The whole part, grouped. -/
def wholeText (l : Locale) (n : Nat) : List Char :=
  let digits := Nat.toDigits 10 n
  let parts := groups 3 (if l.pairs then 2 else 3) digits.length digits.reverse
  let inOrder := (parts.map List.reverse).reverse
  (inOrder.map fun part => part.map l.digit).intersperse l.group.toList |>.flatten

/-- Thousandths without trailing zeros, after the decimal point if any are left. -/
def fractionText (l : Locale) (thousandths : Nat) : List Char :=
  let digits := Nat.toDigits 10 thousandths
  let padded := List.replicate (3 - digits.length) '0' ++ digits
  let kept := (padded.reverse.dropWhile (· = '0')).reverse
  if kept.isEmpty then [] else l.point.toList ++ kept.map l.digit

/-- The number as the locale writes it. -/
def format (l : Locale) (x : Float) : Text :=
  match read x with
  | .nan => l.nan
  | .infinite negative => (if negative then l.minus else "") ++ "∞"
  | .finite d =>
    let (num, den) := d.fraction
    let thousandths := roundDiv (1000 * num) den
    let sign := if d.negative && d.mantissa ≠ 0 then l.minus.toList else []
    String.ofList
      (sign ++ l.wholeText (thousandths / 1000) ++ l.fractionText (thousandths % 1000))

end Locale

end Scriptorium.Number
