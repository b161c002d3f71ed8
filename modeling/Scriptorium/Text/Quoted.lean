/-
  Scriptorium.Text.Quoted: quoted texts and quoted characters.

  Inside quotes a printable character stands for itself, except the quote and
  the backslash, which take a backslash before them.  Everything else is escaped:
  seven control characters by a letter, other control characters and stray bytes
  by two hexadecimal digits, other code points by four or eight.
-/

import Scriptorium.Text.Basic
import Scriptorium.Text.Printable

namespace Scriptorium.Text

/-- The hexadecimal digit of a number below sixteen. -/
def hexDigit (n : Nat) : Char :=
  if n < 10 then Char.ofNat (0x30 + n) else Char.ofNat (0x57 + n)

/-- The last `width` hexadecimal digits of `n`. -/
def hex : (width : Nat) → (n : Nat) → List Char
  | 0, _ => []
  | w + 1, n => hex w (n / 16) ++ [hexDigit (n % 16)]

/-- The letter that stands for a control character after a backslash. -/
def controlLetter? (code : Nat) : Option Char :=
  match code with
  | 0x07 => some 'a'
  | 0x08 => some 'b'
  | 0x09 => some 't'
  | 0x0A => some 'n'
  | 0x0B => some 'v'
  | 0x0C => some 'f'
  | 0x0D => some 'r'
  | _ => none

/-- A character between quotes of the kind `mark`. -/
def escapeChar (mark : Char) (c : Char) : List Char :=
  let code := c.toNat
  if c = mark || c = '\\' then ['\\', c]
  else if isPrintable code then [c]
  else
    match controlLetter? code with
    | some letter => ['\\', letter]
    | none =>
      if code < 0x80 then '\\' :: 'x' :: hex 2 code
      else if code < 0x10000 then '\\' :: 'u' :: hex 4 code
      else '\\' :: 'U' :: hex 8 code

/-- A symbol between quotes of the kind `mark`. -/
def escapeSymbol (mark : Char) : Symbol → List Char
  | .char c => escapeChar mark c
  | .stray b => '\\' :: 'x' :: hex 2 b.toNat

/-- A text between double quotes. -/
def quote (t : Text) : Text :=
  ofString (String.ofList ('"' :: t.symbols.flatMap (escapeSymbol '"') ++ ['"']))

/-- A code point between single quotes. -/
def quoteChar (c : Char) : Text :=
  ofString (String.ofList ('\x27' :: escapeChar '\x27' c ++ ['\x27']))

end Scriptorium.Text
