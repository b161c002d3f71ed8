/-
  Scriptorium.Yaml.Scan.Basic: the state of scanning a YAML document.

  Whether a scalar is the key of a mapping is known only at the colon after it, so the
  place of a possible key is kept, on each flow level one, and the lexemes that announce
  it are put in afterwards.  Block collections are known by their columns.
-/

import Scriptorium.Yaml.Comment
import Scriptorium.Yaml.Lexeme

namespace Scriptorium.Yaml

/-! ## The state of scanning -/

/-- A place where the key of a mapping may have begun. -/
structure PossibleKey where
  /-- Whether it may still become a key. -/
  possible : Bool
  /-- Whether nothing but a key may stand there. -/
  required : Bool
  /-- The number of lexemes before it. -/
  number : Nat
  mark : Mark
deriving Repr

/-- No key, in front of the lexeme number `number`. -/
def PossibleKey.none (number : Nat) (mark : Mark) : PossibleKey := ⟨false, false, number, mark⟩

/-- The state between two lexemes. -/
structure Scan where
  place : Place
  /-- The lexemes scanned so far. -/
  lexemes : Array Lexeme
  /-- How many of them have been handed over. -/
  taken : Nat
  /-- Whether the next one is ready to be handed over. -/
  ready : Bool
  /-- The column of the innermost block collection; `-1` outside of all. -/
  indent : Int
  /-- The columns of the block collections around it. -/
  outer : List Int
  /-- Whether a key may begin here. -/
  keyAllowed : Bool
  /-- The key that may have begun on each flow level, the innermost level last. -/
  keys : Array PossibleKey
  /-- The flow levels of the lexemes that may be keys, by their numbers. -/
  keyLevels : List (Nat × Nat)
  /-- The head comments in front of lexemes that have not been looked at. -/
  comments : List Comment
  /-- The head comments met that no node has taken. -/
  heads : List Comment

namespace Scan

/-- The beginning of a document. -/
def ofText (t : Text) : Scan :=
  { place := .ofText t, lexemes := #[], taken := 0, ready := false, indent := -1, outer := [],
    keyAllowed := false, keys := #[], keyLevels := [], comments := [], heads := [] }

/-- The innermost flow level; zero outside of brackets and braces. -/
def level (s : Scan) : Nat := s.keys.size - 1

/-- Whether the place is inside brackets or braces. -/
def inFlow (s : Scan) : Bool := 1 < s.keys.size

/-- The key that may have begun on the innermost level. -/
def key (s : Scan) : PossibleKey := s.keys.back?.getD (.none 0 .start)

/-- Changes the key on a level. -/
def setKey (s : Scan) (level : Nat) (k : PossibleKey) : Scan :=
  { s with keys := s.keys.setIfInBounds level k }

/-- Forgets that the lexeme number `number` may be a key. -/
def forget (s : Scan) (number : Nat) : Scan :=
  { s with keyLevels := s.keyLevels.eraseP fun entry => entry.1 = number }

/-- Whether a key that began there must have ended by now: it stays on one line and
    is not long. -/
def isStale (s : Scan) (k : PossibleKey) : Bool :=
  k.mark.line < s.place.mark.line || k.mark.index + 1024 < s.place.mark.index

/-- Adds a lexeme at the end. -/
def push (s : Scan) (l : Lexeme) : Scan := { s with lexemes := s.lexemes.push l }

/-- Puts a lexeme without extent in front of the lexeme number `number`; at the end if
    that has been handed over already. -/
def insert (s : Scan) (number : Nat) (sign : Sign) (mark : Mark) : Scan :=
  let l : Lexeme := ⟨sign, mark, mark⟩
  if number < s.taken then s.push l
  else { s with lexemes := s.lexemes.insertIdxIfInBounds number l }

/-- Ends the block collections deeper than `column`. -/
def unrollTo (column : Int) (mark : Mark) : List Int → Scan → Scan
  | [], s => s
  | parent :: outer, s =>
    if column < s.indent then
      unrollTo column mark outer { s.push ⟨.blockEnd, mark, mark⟩ with indent := parent, outer }
    else s

/-- Ends the block collections deeper than `column`, unless inside brackets. -/
def unroll (s : Scan) (column : Int) (mark : Mark) : Scan :=
  if s.inFlow then s else unrollTo column mark s.outer s

/-- Whether the last lexeme is a colon, perhaps with a comma after it. -/
def afterColon (s : Scan) : Bool :=
  let n := s.lexemes.size
  let isAt (i : Nat) (sign : Sign) : Bool := s.lexemes[i]?.any (·.sign = sign)
  isAt (n - 1) .value || (isAt (n - 1) .flowEntry && 1 < n && isAt (n - 2) .value)

/-- Meets the head comments in front of a lexeme.  A block end has none: they wait for
    the lexeme after it. -/
def meetHeads (s : Scan) (l : Lexeme) : Scan :=
  if l.sign = .blockEnd then s
  else
    let (met, comments) := s.comments.span fun c => c.index ≤ l.start.index
    { s with comments, heads := s.heads ++ met }

/-- The deepest nesting that is scanned. -/
def maxDepth : Nat := 10000

end Scan

/-! ## Computations that scan -/

/-- A computation that scans.  A fault leaves it in the state in which it was found. -/
abbrev Scanner := EStateM Fault Scan

namespace Scanner

/-- Walks on from the place of the scan. -/
def walk {α : Type} (w : Walk α) : Scanner α := fun s =>
  match w s.place with
  | .ok a place => .ok a { s with place }
  | .error f place => .error f { s with place }

/-- The mark of the place. -/
def mark : Scanner Mark := return (← get).place.mark

/-- Stops with a fault whose context began at `context`. -/
def fault {α : Type} (context : Mark) (problem : String) : Scanner α :=
  walk (Walk.fault context problem)

/-! ## Keys -/

/-- Says whether a key may begin from here on. -/
def allowKey (allowed : Bool) : Scanner Unit := modify fun s => { s with keyAllowed := allowed }

/-- The complaint about a required key that turned out to be none. -/
def missingColon {α : Type} (k : PossibleKey) : Scanner α :=
  fault k.mark "could not find expected ':'"

/-- Gives up the key that may have begun on this level. -/
def dropKey : Scanner Unit := do
  let s ← get
  if s.key.possible then
    if s.key.required then missingColon s.key
    else set ((s.setKey s.level { s.key with possible := false }).forget s.key.number)

/-- Notes that a key may begin here. -/
def saveKey : Scanner Unit := do
  let s ← get
  if s.keyAllowed then
    let mark := s.place.mark
    let required := !s.inFlow && s.indent = mark.column
    dropKey
    modify fun s =>
      let number := s.lexemes.size
      let s := (s.setKey s.level ⟨true, required, number, mark⟩).forget number
      { s with keyLevels := (number, s.level) :: s.keyLevels }

/-- Whether the key on a level may still become one.  One that cannot any more is given
    up, and a required one is missed. -/
def isKey (level : Nat) : Scanner Bool := do
  let s ← get
  match s.keys[level]? with
  | some k =>
    if !k.possible then return false
    else if !s.isStale k then return true
    else if k.required then missingColon k
    else
      set (s.setKey level { k with possible := false })
      return false
  | none => return false

end Scanner

end Scriptorium.Yaml
