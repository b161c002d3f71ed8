/-
  Scriptorium.Yaml.Comment: comments between the lexemes of a YAML document.

  A comment on the line of a lexeme belongs to it.  Comments on lines of their own form
  a series.  Its first lines may be a foot: they are about what stands before.  The rest
  is a head, about the lexeme that follows.  Heads matter to a reader of items, so they
  are kept (`Comment`); the other comments are only skipped.

  Comments are looked for in the next 512 characters, and a fault in there does not stop
  the walk.
-/

import Scriptorium.Yaml.Place

namespace Scriptorium.Yaml

/-- A head comment. -/
structure Comment where
  /-- The number of characters before it. -/
  index : Nat
  /-- Whether an empty line comes after it. -/
  detached : Bool
deriving DecidableEq, Repr

/-! ## Foot and head -/

/-- What stands around a series of comments. -/
structure Surroundings where
  inFlow : Bool
  /-- The column of the innermost block. -/
  indent : Nat
  /-- Whether the lexeme before is a colon. -/
  afterColon : Bool
  /-- The line on which a foot begins. -/
  footLine : Nat

/-- A series of comments, as far as it has been looked at. -/
structure Series where
  /-- Where the head begins, its column counted from one. -/
  head? : Option Mark
  /-- Whether an empty line is the last thing in the head. -/
  detached : Bool
  /-- Whether no empty line has come so far. -/
  dense : Bool
  /-- Whether the last line was empty. -/
  afterEmpty : Bool
  /-- The line and the column looked at, the column counted from one. -/
  line : Nat
  column : Nat

namespace Series

/-- A series that begins at a mark. -/
def ofMark (m : Mark) (dense : Bool) : Series :=
  { head? := none, detached := false, dense, afterEmpty := false, line := m.line,
    column := m.column }

/-- Makes a foot of the lines so far. -/
def makeFoot (s : Series) : Series := { s with head? := none, detached := false }

/-- Whether the lines so far are a foot when an empty line or the end comes after them:
    they begin on the foot's line or to the left of the block. -/
def isFoot (s : Series) (around : Surroundings) : Bool :=
  s.dense && s.head?.any fun m =>
    (m.line = around.footLine && !around.afterColon) || m.column ≤ around.indent

/-- An empty line, the end of the document (`ended`) or the end of a flow collection
    (`closed`) comes after the lines so far. -/
def close (s : Series) (around : Surroundings) (closed ended : Bool) : Series :=
  if closed || (!s.afterEmpty && s.isFoot around) then s.makeFoot
  else if !s.afterEmpty && s.head?.isSome && !ended then { s with detached := true }
  else s

/-- Goes on to the line after an empty one. -/
def nextLine (s : Series) : Series :=
  { s with dense := false, afterEmpty := true, line := s.line + 1, column := 0 }

/-- Something visible comes next.  If it stands to the left of the block, and in another
    column than the lines so far, these are a foot. -/
def meet (s : Series) (around : Surroundings) : Series :=
  if s.column ≤ around.indent && s.head?.any fun m => m.column ≠ s.column then s.makeFoot
  else s

/-- Adds a comment at the place looked at, before which `index` characters stand. -/
def add (s : Series) (index : Nat) : Series :=
  { s with
    head? := some (s.head?.getD ⟨s.line, s.column, index⟩), detached := false,
    afterEmpty := false }

/-- The head of the whole series. -/
def comment? (s : Series) : Option Comment := s.head?.map fun m => ⟨m.index, s.detached⟩

end Series

namespace Walk

/-- How far ahead a comment is looked for. -/
def commentReach : Nat := 512

/-! ## Comments on the line of a lexeme -/

/-- Whether a comment comes next on the line, after blanks at most. -/
def lineCommentAhead : (fuel offset : Nat) → Walk Bool
  | 0, _ => return false
  | fuel + 1, offset => do
    if ← wish (offset + 1) then
      match (← place).peekAt offset with
      | some c =>
        if isBlank c then lineCommentAhead fuel (offset + 1) else return c = '#'
      | none => return false
    else return false

/-- Moves past a comment on the line of the last visible character. -/
def lineComment : Walk Unit := do
  if (← place).breaks = 0 then
    if ← lineCommentAhead commentReach 0 then toLineEnd

/-! ## Comments on lines of their own -/

/-- The end of a series at a line break of more than one byte, `offset` characters ahead:
    no comment is looked for beyond it. -/
def wideBreak (around : Surroundings) (offset : Nat) (s : Series) : Walk Series := do
  if ← wish (offset + 2) then return { s with column := s.column + 1 }.meet around
  else return s

/-- How far ahead the next comment is, if only blanks and line breaks stand before it,
    and the series up to there. -/
def commentAhead (around : Surroundings) :
    (fuel offset : Nat) → Series → Walk (Option Nat × Series)
  | 0, _, s => return (none, s)
  | fuel + 1, offset, s => do
    if ← wish (offset + 1) then
      let s := { s with column := s.column + 1 }
      match (← place).peekAt offset with
      | some c =>
        if isBlank c then commentAhead around fuel (offset + 1) s
        else if isBreak c then
          let s := (s.close around false false).nextLine
          if c = '\r' || c = '\n' then commentAhead around fuel (offset + 1) s
          else return (none, ← wideBreak around offset s)
        else if around.inFlow && (c = ']' || c = '\x7d') then
          return (none, s.close around true false)
        else return (if c = '#' then some offset else none, s.meet around)
      | none => return (none, s.close around false true)
    else return (none, s)

/-- Moves past blanks and line breaks up to the character number `index`. -/
def skipTo (index : Nat) : (fuel : Nat) → Walk Unit
  | 0 => pure ()
  | fuel + 1 => do
    need 1
    let p ← place
    if p.mark.index < index then
      if p.peek.any isBreak then skipBreak else skip
      skipTo index fuel

/-- Moves past the comment `offset` characters ahead, and past the comments that follow
    it on lines of their own. -/
def commentSeries (around : Surroundings) :
    (fuel offset : Nat) → Series → Walk Series
  | 0, _, s => return s
  | fuel + 1, offset, s => do
    let index := (← mark).index + offset
    skipTo index (offset + 1)
    toLineEnd
    let s := { s.add index with line := (← mark).line, column := 0 }
    if (← peek).any fun c => c ≠ '\r' && c ≠ '\n' then wideBreak around 0 s
    else
      let (next, s) ← commentAhead around (commentReach - 1) 1 s
      match next with
      | some offset => commentSeries around fuel offset s
      | none => return s

/-- Moves past a series of comments that begins here, and gives its head.  `indent` is
    the column of the innermost block. -/
def comments (inFlow afterColon : Bool) (indent : Nat) : Walk (Option Comment) := do
  let p ← place
  let m := p.mark
  let footLine :=
    if p.breaks = 0 && 1 < m.column then m.line + 2 else m.line + 1 - p.breaks
  let around : Surroundings := { inFlow, indent, afterColon, footLine }
  let s := { Series.ofMark m (p.breaks ≤ 1) with column := m.column + 1 }
  return (← commentSeries around (← turns) 0 s).comment?

end Walk

end Scriptorium.Yaml
