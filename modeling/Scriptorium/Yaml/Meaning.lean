/-
  Scriptorium.Yaml.Meaning: what a scalar means.

  A quoted or block scalar is text.  A plain one may spell null, a truth value, an
  integer, a real number or a point in time, and is text otherwise.
-/

import Scriptorium.Number.Digits
import Scriptorium.Number.Dyadic
import Scriptorium.Number.Word
import Scriptorium.Yaml.Scalar
import Scriptorium.Yaml.Timestamp

namespace Scriptorium.Yaml

/-- What a scalar means. -/
inductive Meaning where
  | null
  | boolean
  | integer (n : Int)
  | real (x : Float)
  | timestamp
  | text

/-- The tag that stands for a meaning. -/
def Meaning.tag : Meaning → String
  | .null => "!!null"
  | .boolean => "!!bool"
  | .integer _ => "!!int"
  | .real _ => "!!float"
  | .timestamp => "!!timestamp"
  | .text => "!!str"

namespace Meaning

/-! ## Integers -/

/-- A sign and what follows it. -/
def splitSign : Text → Option Bool × Text
  | 0x2D :: rest => (some true, rest)
  | 0x2B :: rest => (some false, rest)
  | t => (none, t)

/-- The value of a digit in bases up to thirty-six. -/
def digitValue? (b : UInt8) : Option Nat :=
  if 0x30 ≤ b && b ≤ 0x39 then some (b.toNat - 0x30)
  else if 0x61 ≤ b && b ≤ 0x7A then some (b.toNat - 0x57)
  else if 0x41 ≤ b && b ≤ 0x5A then some (b.toNat - 0x37)
  else none

/-- The number that digits of a base spell. -/
def naturalIn? (base : Nat) (t : Text) : Option Nat :=
  t.foldlM (fun n b => (digitValue? b).bind fun d => if d < base then some (base * n + d) else none)
    0

/-- The base that a letter after a zero announces. -/
def base? (b : UInt8) : Option Nat :=
  if b = 0x62 || b = 0x42 then some 2
  else if b = 0x6F || b = 0x4F then some 8
  else if b = 0x78 || b = 0x58 then some 16
  else none

/-- A natural number, whose base shows in how it begins. -/
def natural? : Text → Option Nat
  | [] => none
  | 0x30 :: rest =>
    match rest with
    | mark :: digit :: more =>
      match base? mark with
      | some base => naturalIn? base (digit :: more)
      | none => naturalIn? 8 rest
    | rest => naturalIn? 8 rest
  | t => naturalIn? 10 t

/-- An integer with sign `sign` if it fits into a signed word. -/
def signed? (sign : Option Bool) (n : Nat) : Option Int :=
  let v : Int := if sign = some true then -n else n
  if Number.fitsWord v then some v else none

/-- An integer that fits into a word, signed or, without a sign, unsigned. -/
def integer? (t : Text) : Option Int := do
  let (sign, body) := splitSign t
  let n ← natural? body
  (signed? sign n).or (if sign.isNone && Number.fitsUnsigned n then some n else none)

/-- An integer in base two or eight whose sign stands behind the announced base. -/
def announced? (t : Text) : Option Int := do
  let (negated, body) : Bool × Text := match t with
    | 0x2D :: rest => (true, rest)
    | t => (false, t)
  let base ←
    if body.startsWith "0b" then some 2 else if body.startsWith "0o" then some 8 else none
  let (sign, digits) := if negated then (some true, body.drop 2) else splitSign (body.drop 2)
  if digits.isEmpty then none
  signed? sign (← naturalIn? base digits)

/-! ## Real numbers -/

/-- A number `±digits · 10 ^ exponent`. -/
structure Decimal where
  negative : Bool
  digits : Text
  exponent : Int

/-- Reads a decimal number with an optional point and an optional exponent. -/
def decimal? (t : Text) : Option Decimal := do
  let (sign, body) := splitSign t
  let isDigit := Timestamp.isDigit
  let whole := body.takeWhile isDigit
  let (fraction, tail) := match body.dropWhile isDigit with
    | 0x2E :: rest => (rest.takeWhile isDigit, rest.dropWhile isDigit)
    | rest => ([], rest)
  if whole.isEmpty && fraction.isEmpty then none
  let exponent ← match tail with
    | [] => some 0
    | mark :: rest =>
      let (sign, digits) := splitSign rest
      if (mark = 0x65 || mark = 0x45) && !digits.isEmpty && digits.all isDigit then
        let n : Int := Number.natOfDigits digits
        some (if sign = some true then -n else n)
      else none
  return ⟨sign = some true, whole ++ fraction, exponent - fraction.length⟩

/-- The nearest double of a decimal number, unless it is too large for one. -/
def Decimal.toFloat? (d : Decimal) : Option Float :=
  let digits := d.digits.dropWhile (· = 0x30)
  let magnitude := d.exponent + digits.length
  let x :=
    if digits.isEmpty || magnitude < -330 then 0
    else if 310 < magnitude then Float.ofBits 0x7FF0000000000000
    else Float.ofScientific (Number.natOfDigits digits) (d.exponent < 0) d.exponent.natAbs
  if x.isInf then none else some (if d.negative then -x else x)

/-- A real number in decimal digits. -/
def real? (t : Text) : Option Float := (decimal? t).bind Decimal.toFloat?

/-- Whether every underscore of a text stands between two digits. -/
def underscoresFit (t : Text) : Bool :=
  go false t
where
  /-- The same, after a digit or not. -/
  go (afterDigit : Bool) : Text → Bool
    | [] => true
    | b :: rest =>
      if b = 0x5F then afterDigit && rest.head?.any Timestamp.isDigit && go false rest
      else go (Timestamp.isDigit b) rest

/-! ## Plain scalars -/

/-- The text without underscores. -/
def withoutUnderscores (t : Text) : Text := t.filter (· ≠ 0x5F)

/-- What a word that is spelled out means. -/
def word? (t : Text) : Option Meaning :=
  let isOne (l : List String) : Bool := l.any fun s => Text.ofString s = t
  if isOne ["", "~", "null", "Null", "NULL"] then some .null
  else if isOne ["true", "True", "TRUE", "false", "False", "FALSE"] then some .boolean
  else if isOne [".nan", ".NaN", ".NAN"] then some (.real (Float.ofBits 0x7FF8000000000000))
  else if isOne [".inf", ".Inf", ".INF", "+.inf", "+.Inf", "+.INF"] then
    some (.real (Float.ofBits 0x7FF0000000000000))
  else if isOne ["-.inf", "-.Inf", "-.INF"] then some (.real (Float.ofBits 0xFFF0000000000000))
  else none

/-- What a text means that begins with a digit or a sign. -/
def ofNumeral (t : Text) : Meaning :=
  let plain := withoutUnderscores t
  if isTimestamp t then .timestamp
  else
    match integer? plain, real? plain, announced? plain with
    | some n, _, _ => .integer n
    | none, some x, _ => .real x
    | none, none, some n => .integer n
    | none, none, none => .text

/-- What a plain scalar means. -/
def ofPlain (t : Text) : Meaning :=
  match word? t with
  | some m => m
  | none =>
    match t with
    | 0x2E :: _ =>
      if underscoresFit t then ((real? (withoutUnderscores t)).map Meaning.real).getD .text
      else .text
    | b :: _ =>
      if Timestamp.isDigit b || b = 0x2B || b = 0x2D then ofNumeral t else .text
    | [] => .null

/-- What a scalar means. -/
def ofScalar : Style → Text → Meaning
  | .plain, t => ofPlain t
  | _, _ => .text

end Meaning

end Scriptorium.Yaml
