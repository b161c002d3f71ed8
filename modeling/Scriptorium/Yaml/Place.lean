/-
  Scriptorium.Yaml.Place: places in a YAML document and walks from place to place.

  Lines and columns count from zero here; messages count lines from one.  The characters
  of a document are supplied in portions, and a place knows those that have been asked
  for.  A walk asks for characters before it looks at them: a fault of the document stops
  it exactly when it asks for a character of the portion with the fault.
-/

import Scriptorium.Yaml.Supply

namespace Scriptorium.Yaml

/-! ## Kinds of characters -/

/-- A blank inside a line. -/
def isBlank (c : Char) : Bool := c = ' ' || c = '\t'

/-- A line break. -/
def isBreak (c : Char) : Bool :=
  c = '\r' || c = '\n' || c = '\u0085' || c = '\u2028' || c = '\u2029'

/-- A blank, a line break or the end. -/
def isBlankOrEnd : Option Char → Bool
  | none => true
  | some c => isBlank c || isBreak c

/-- A line break or the end. -/
def isBreakOrEnd : Option Char → Bool
  | none => true
  | some c => isBreak c

/-- What anchors are named with. -/
def isWord (c : Char) : Bool := c.isAlphanum || c = '_' || c = '-'

/-! ## Places -/

/-- A line, a column and the number of characters before. -/
structure Mark where
  line : Nat
  column : Nat
  index : Nat
deriving DecidableEq, Repr

/-- The beginning of a document. -/
def Mark.start : Mark := ⟨0, 0, 0⟩

/-- A place in a document. -/
structure Place where
  /-- The characters from here on, as far as they have been supplied. -/
  rest : List Char
  mark : Mark
  /-- How many characters have been supplied from here on.  Each time that characters
      are asked for beyond the end of the document, the end counts as one more. -/
  known : Nat
  supply : Supply
  /-- The line breaks since the last visible character. -/
  breaks : Nat
  /-- Whether a byte order mark stood at the place where characters were supplied last. -/
  marked : Bool
  /-- A fault that was met and has not stopped the walk. -/
  pending : Option Fault
  /-- The number of bytes of the document, which bounds every walk. -/
  size : Nat
deriving Repr

namespace Place

/-- The beginning of a document. -/
def ofText (t : Text) : Place :=
  { rest := [], mark := .start, known := 0, supply := .ofText t, breaks := 0, marked := false,
    pending := none, size := t.length }

/-- The character `n` places on. -/
def peekAt (p : Place) (n : Nat) : Option Char := p.rest[n]?

/-- The character here. -/
def peek (p : Place) : Option Char := p.rest.head?

/-- Whether the character `c` is here. -/
def at? (p : Place) (c : Char) : Bool := p.peek = some c

/-- Takes from the supply until `n` characters are known; gives the fault of a portion
    that is spoilt. -/
def load (n : Nat) (p : Place) : Supply → Option Fault × Place
  | .done => (none, { p with known := p.known + 1, supply := .done })
  | .spoilt chars fault =>
    (some fault,
      { p with
        rest := p.rest ++ chars, known := p.known + chars.length, supply := .spoilt [] fault })
  | .portion chars next =>
    let p := { p with rest := p.rest ++ chars, known := p.known + chars.length, supply := next }
    if n ≤ p.known then (none, p) else load n p next

/-- Makes `n` characters known. -/
def need (n : Nat) (p : Place) : Option Fault × Place :=
  if n ≤ p.known then (none, p)
  else
    let (fault, p) := p.load n p.supply
    (fault, { p with marked := p.at? '\ufeff' })

/-- Moves past one character of the line. -/
def skip (p : Place) : Place :=
  { p with
    rest := p.rest.tail
    mark := ⟨p.mark.line, p.mark.column + 1, p.mark.index + 1⟩
    known := p.known - 1
    breaks := if p.peek.any isBlank then p.breaks else 0 }

/-- Moves past `n` characters of the line. -/
def skipN : (n : Nat) → Place → Place
  | 0, p => p
  | n + 1, p => skipN n p.skip

/-- Goes to the beginning of the next line, past `width` characters. -/
def newLine (width : Nat) (p : Place) : Place :=
  { p with
    rest := p.rest.drop width
    mark := ⟨p.mark.line + 1, 0, p.mark.index + width⟩
    known := p.known - width
    breaks := p.breaks + 1 }

/-- Moves past a line break and gives it back in the form in which it is kept. -/
def readBreak (p : Place) : List Char × Place :=
  match p.rest with
  | '\r' :: '\n' :: _ => (['\n'], p.newLine 2)
  | c :: _ =>
    if c = '\u2028' || c = '\u2029' then ([c], p.newLine 1)
    else if isBreak c then (['\n'], p.newLine 1)
    else ([], p)
  | [] => ([], p)

/-- Whether a document marker made of three times `c` stands here. -/
def atMarker (p : Place) (c : Char) : Bool :=
  p.mark.column = 0 && p.peekAt 0 = some c && p.peekAt 1 = some c && p.peekAt 2 = some c &&
    isBlankOrEnd (p.peekAt 3)

/-- Whether any document marker stands here. -/
def atAnyMarker (p : Place) : Bool := p.atMarker '-' || p.atMarker '.'

end Place

/-! ## Faults at places -/

/-- A fault found between characters: blamed on the line where its context began, or
    on the line where it was noticed if the context began on the first one. -/
def lexicalFault (context noticed : Mark) (problem : String) : Fault :=
  if context.line ≠ 0 then ⟨context.line + 1, problem⟩
  else if noticed.line ≠ 0 then ⟨noticed.line + 1, problem⟩
  else ⟨0, problem⟩

/-- A fault found between tokens, which blames the line before. -/
def grammarFault (context noticed : Mark) (problem : String) : Fault :=
  if context.line ≠ 0 then ⟨context.line, problem⟩ else ⟨noticed.line, problem⟩

/-! ## Walks -/

/-- A walk from place to place.  A fault leaves it at the place where it was found. -/
abbrev Walk := EStateM Fault Place

namespace Walk

/-- The place itself. -/
def place : Walk Place := get

/-- The mark of the place. -/
def mark : Walk Mark := return (← get).mark

/-- The character here. -/
def peek : Walk (Option Char) := return (← get).peek

/-- Whether the character `c` is here. -/
def at? (c : Char) : Walk Bool := return (← get).at? c

/-- Stops with a fault whose context began at `context`. -/
def fault {α : Type} (context : Mark) (problem : String) : Walk α := do
  throw (lexicalFault context (← mark) problem)

/-- Asks for `n` characters from here on. -/
def need (n : Nat) : Walk Unit := do
  let (fault, p) := (← get).need n
  set p
  match fault with
  | some f => throw f
  | none => pure ()

/-- Asks for `n` characters from here on, but goes on without them: tells whether they
    are there, and keeps the fault if they are not. -/
def wish (n : Nat) : Walk Bool := do
  let (fault, p) := (← get).need n
  match fault with
  | some f =>
    set { p with pending := some f }
    return false
  | none =>
    set p
    return true

/-- Moves past one character of the line. -/
def skip : Walk Unit := modify Place.skip

/-- Moves past a line break, with which a character may go. -/
def readBreak : Walk (List Char) := do
  need 2
  modifyGet Place.readBreak

/-- Moves past a line break. -/
def skipBreak : Walk Unit := do
  let _ ← readBreak

/-- Takes characters of the line as long as they have a property.  They are put in front
    of `back`, the last one first. -/
def readWhile (holds : Char → Bool) : (fuel : Nat) → (back : List Char) → Walk (List Char)
  | 0, back => return back
  | fuel + 1, back => do
    match ← peek with
    | some c =>
      if holds c then
        skip
        need 1
        readWhile holds fuel (c :: back)
      else return back
    | none => return back

/-- Moves past the characters of the line that have a property. -/
def skipWhile (holds : Char → Bool) : (fuel : Nat) → Walk Unit
  | 0 => pure ()
  | fuel + 1 => do
    if (← peek).any holds then
      skip
      need 1
      skipWhile holds fuel

/-- Enough turns for a walk that moves at every turn. -/
def turns : Walk Nat := return (← get).size + 2

/-- Moves to the end of the line. -/
def toLineEnd : Walk Unit := do
  need 1
  skipWhile (fun c => !isBreak c) (← turns)

end Walk

end Scriptorium.Yaml
