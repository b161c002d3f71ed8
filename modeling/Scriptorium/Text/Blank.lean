/-
  Scriptorium.Text.Blank: white space and trimming.

  The white space of Unicode surrounds names in manifests and lines typed at the
  prompt.  It is wider than what separates the tokens of a script.
-/

import Scriptorium.Text.Basic

namespace Scriptorium

/-- Whether a symbol is white space in the sense of Unicode. -/
def Symbol.isSpace : Symbol → Bool
  | .stray _ => false
  | .char c =>
    let n := c.toNat
    (0x09 ≤ n && n ≤ 0x0D) || n = 0x20 || n = 0x85 || n = 0xA0 || n = 0x1680 ||
      (0x2000 ≤ n && n ≤ 0x200A) || n = 0x2028 || n = 0x2029 || n = 0x202F || n = 0x205F ||
      n = 0x3000

/-- The text without the white space at its two ends. -/
def Text.trim (t : Text) : Text :=
  let inner := t.symbols.dropWhile Symbol.isSpace
  Text.ofSymbols (inner.reverse.dropWhile Symbol.isSpace).reverse

end Scriptorium
