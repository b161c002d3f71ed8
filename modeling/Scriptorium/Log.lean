/-
  Scriptorium.Log: lines of a debug log.

  A line holds attributes as `key=value`.  A value is quoted if it is empty or holds
  a blank, an equals sign, a quote or anything that is not printable.
-/

import Scriptorium.Text.Blank
import Scriptorium.Text.Quoted
import Scriptorium.Eval.Machine

namespace Scriptorium.Log

/-- Whether a symbol forces a value into quotes. -/
def needsQuotes : Symbol → Bool
  | .stray _ => true
  | .char c =>
    let code := c.toNat
    if code < 0x80 then code ≤ 0x20 || c = '=' || c = '"'
    else code = 0xFFFD || (Symbol.char c).isSpace || !Text.isPrintable code

/-- The value of an attribute. -/
def value (t : Text) : Text :=
  if t.isEmpty || t.symbols.any needsQuotes then t.quote else t

/-- A line of the debug level. -/
def debug (message : Text) (attributes : List (String × Text)) : Text :=
  let pair (a : String × Text) : Text := " " ++ Text.ofString a.1 ++ "=" ++ value a.2
  "level=DEBUG msg=" ++ value message ++ attributes.flatMap pair ++ "\n"

/-- The line about a statement that is begun. -/
def statement (b : Begun) : Text :=
  debug "evaluating statement"
    [("index", Text.ofNat b.index), ("kind", b.kind.name), ("pos", b.pos.text)]

/-- The lines about the statements of an evaluation. -/
def statements (log : List Begun) : Text := log.flatMap statement

end Scriptorium.Log
