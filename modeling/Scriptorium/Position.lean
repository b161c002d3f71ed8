/-
  Scriptorium.Position: places in a script.

  Lines and columns count from one, columns in symbols.  A position whose line is
  not positive is unknown.  Main results: `after_append`, moving past two texts is
  moving past one and then the other.
-/

import Scriptorium.Text.Basic

namespace Scriptorium

/-- A line and a column. -/
structure Position where
  /-- The line, from one; anything less means that the place is unknown. -/
  line : Int
  /-- The column, from one, counted in symbols. -/
  column : Int
deriving DecidableEq, Repr

namespace Position

/-- The place of nothing in particular. -/
def unknown : Position := ⟨0, 0⟩

/-- The place of a script's first symbol. -/
def first : Position := ⟨1, 1⟩

/-- Whether the position points into a script. -/
def isKnown (p : Position) : Bool := 0 < p.line

/-- Line and column, or a dash for an unknown place. -/
def text (p : Position) : Text :=
  if p.isKnown then Text.ofInt p.line ++ ":" ++ Text.ofInt p.column else "-"

/-- The place just past a symbol: a line feed opens the next line, everything else
    takes one column. -/
def next (p : Position) (s : Symbol) : Position :=
  if s.isChar '\n' then ⟨p.line + 1, 1⟩ else ⟨p.line, p.column + 1⟩

/-- The place just past a sequence of symbols. -/
def after (p : Position) (l : List Symbol) : Position := l.foldl next p

@[simp]
theorem after_nil (p : Position) : p.after [] = p := rfl

@[simp]
theorem after_cons (p : Position) (s : Symbol) (l : List Symbol) :
    p.after (s :: l) = (p.next s).after l := rfl

/-- Moving past two texts is moving past one and then the other. -/
theorem after_append (p : Position) (l r : List Symbol) :
    p.after (l ++ r) = (p.after l).after r := by
  simp [after]

end Position

/-- The stretch of a script that a part of a program was read from: it starts at
    the first symbol and ends just past the last. -/
structure Span where
  start : Position
  stop : Position
deriving DecidableEq, Repr

/-- The span of a part that was not read from a script. -/
def Span.unknown : Span := ⟨.unknown, .unknown⟩

end Scriptorium
