/-
  Scriptorium.Yaml.Scalar: plain, quoted and block scalars.

  A scalar may go over several lines.  A line break inside a plain or quoted scalar
  counts as a blank, unless blank lines follow, which count as line breaks.  A
  literal block keeps its lines, a folded one joins them.

  While a scalar is scanned its text is kept backwards (`back`), so that a character is
  added in one step.
-/

import Scriptorium.Yaml.Place

namespace Scriptorium.Yaml

/-- How a scalar was written. -/
inductive Style where
  | plain
  | quoted
  | block
deriving DecidableEq, Repr

namespace Walk

/-! ## Blanks and line breaks inside a scalar -/

/-- The blanks met since the last visible character. -/
structure Gap where
  /-- Blanks on the line of the last visible character. -/
  blanks : List Char
  /-- The first line break. -/
  first : List Char
  /-- The line breaks after the first. -/
  more : List Char
  /-- Whether a line was left. -/
  broken : Bool

namespace Gap

/-- No blanks. -/
def none : Gap := ⟨[], [], [], false⟩

/-- What the blanks count as. -/
def folded (g : Gap) : List Char :=
  if g.broken then
    if g.first.head? = some '\n' then (if g.more.isEmpty then [' '] else g.more)
    else g.first ++ g.more
  else g.blanks

/-- Adds a blank; those at the beginning of a line do not count. -/
def addBlank (g : Gap) (c : Char) : Gap :=
  if g.broken then g else { g with blanks := g.blanks ++ [c] }

/-- Adds a line break; the blanks before it do not count. -/
def addBreak (g : Gap) (kept : List Char) : Gap :=
  if g.broken then { g with more := g.more ++ kept }
  else { g with blanks := [], first := kept, broken := true }

end Gap

/-- Takes blanks and line breaks; `check` may refuse a place. -/
def gap (check : Gap → Walk Unit) : (fuel : Nat) → Gap → Walk Gap
  | 0, g => return g
  | fuel + 1, g => do
    match ← peek with
    | some c =>
      if isBlank c then
        check g
        skip
        need 1
        gap check fuel (g.addBlank c)
      else if isBreak c then
        let kept ← readBreak
        need 1
        gap check fuel (g.addBreak kept)
      else return g
    | none => return g

/-! ## Plain scalars -/

/-- Whether a plain scalar ends before the character here. -/
def endsPlain (inFlow : Bool) (p : Place) : Bool :=
  match p.peek with
  | none => true
  | some c =>
    isBlank c || isBreak c || (c = ':' && isBlankOrEnd (p.peekAt 1)) ||
      (inFlow && (c = ',' || c = '?' || c = '[' || c = ']' || c = '\x7b' || c = '\x7d'))

/-- The visible characters of a plain scalar from here to the next blank. -/
def plainRun (inFlow : Bool) : (fuel : Nat) → (back : List Char) → Walk (List Char)
  | 0, back => return back
  | fuel + 1, back => do
    let p ← place
    match p.peek with
    | some c =>
      if endsPlain inFlow p then return back
      else
        skip
        need 2
        plainRun inFlow fuel (c :: back)
    | none => return back

/-- Refuses a tab that stands for indentation in a plain scalar. -/
def checkTab (indent : Int) (start : Mark) (g : Gap) : Walk Unit := do
  let p ← place
  if g.broken && (p.mark.column : Int) < indent && p.at? '\t' then
    fault start "found a tab character that violates indentation"

/-- The rest of a plain scalar after the gap before this place.  Gives the text and
    whether a line was left after it. -/
def plainLoop (inFlow : Bool) (indent : Int) (start : Mark) :
    (fuel : Nat) → (back : List Char) → Gap → Walk (List Char × Bool)
  | 0, back, g => return (back.reverse, g.broken)
  | fuel + 1, back, g => do
    need 4
    let p ← place
    if p.atAnyMarker || p.at? '#' || endsPlain inFlow p then return (back.reverse, g.broken)
    else
      let back ← plainRun inFlow (← turns) (g.folded.reverse ++ back)
      if (← peek).any fun c => isBlank c || isBreak c then
        need 1
        let g ← gap (checkTab indent start) (← turns) Gap.none
        if !inFlow && ((← mark).column : Int) < indent then return (back.reverse, g.broken)
        else plainLoop inFlow indent start fuel back g
      else return (back.reverse, false)

/-- A plain scalar inside a block of the given indentation. -/
def plainScalar (inFlow : Bool) (indent : Int) : Walk (List Char × Bool) := do
  plainLoop inFlow (indent + 1) (← mark) (← turns) [] Gap.none

/-! ## Quoted scalars -/

/-- The character that a letter after a backslash stands for. -/
def escapedChar? : Char → Option Char
  | '0' => some '\x00'
  | 'a' => some '\x07'
  | 'b' => some '\x08'
  | 't' | '\t' => some '\t'
  | 'n' => some '\n'
  | 'v' => some '\x0b'
  | 'f' => some '\x0c'
  | 'r' => some '\r'
  | 'e' => some '\x1b'
  | ' ' => some ' '
  | '"' => some '"'
  | '\'' => some '\''
  | '/' => some '/'
  | '\\' => some '\\'
  | 'N' => some '\u0085'
  | '_' => some '\u00a0'
  | 'L' => some '\u2028'
  | 'P' => some '\u2029'
  | _ => none

/-- The number of hexadecimal digits after a letter that announces some. -/
def escapeWidth? : Char → Option Nat
  | 'x' => some 2
  | 'u' => some 4
  | 'U' => some 8
  | _ => none

/-- The value of a hexadecimal digit. -/
def hexValue? (c : Char) : Option Nat :=
  if c.isDigit then some (c.toNat - 0x30)
  else if 'a' ≤ c && c ≤ 'f' then some (c.toNat - 0x57)
  else if 'A' ≤ c && c ≤ 'F' then some (c.toNat - 0x37)
  else none

/-- The number that `width` hexadecimal digits at the beginning of `l` stand for. -/
def hexNumber? (width : Nat) (l : List Char) : Option Nat :=
  match (l.take width).mapM hexValue? with
  | some digits =>
    if digits.length < width then none else some (digits.foldl (fun n d => 16 * n + d) 0)
  | none => none

/-- The character that a backslash and what follows it stand for. -/
def escapeSequence (start : Mark) : Walk Char := do
  match (← place).peekAt 1 with
  | none => fault start "found unknown escape character"
  | some letter =>
    match escapedChar? letter, escapeWidth? letter with
    | some c, _ =>
      modify (Place.skipN 2)
      return c
    | none, none => fault start "found unknown escape character"
    | none, some width =>
      modify (Place.skipN 2)
      need width
      match hexNumber? width (← place).rest with
      | none => fault start "did not find expected hexdecimal number"
      | some value =>
        if (0xD800 ≤ value && value ≤ 0xDFFF) || 0x10FFFF < value then
          fault start "found invalid Unicode character escape code"
        else
          modify (Place.skipN width)
          return Char.ofNat value

/-- The visible characters of a quoted scalar up to a blank or its end, and whether an
    escaped line break was met last. -/
def quotedRun (single : Bool) (start : Mark) :
    (fuel : Nat) → (back : List Char) → Walk (List Char × Bool)
  | 0, back => return (back, false)
  | fuel + 1, back => do
    let p ← place
    match p.peek with
    | none => return (back, false)
    | some c =>
      if isBlank c || isBreak c then return (back, false)
      else if single && c = '\'' then
        if p.peekAt 1 = some '\'' then
          modify (Place.skipN 2)
          need 2
          quotedRun single start fuel ('\'' :: back)
        else return (back, false)
      else if !single && c = '"' then return (back, false)
      else if !single && c = '\\' then
        if (p.peekAt 1).any isBreak then
          need 3
          skip
          skipBreak
          return (back, true)
        else
          let c ← escapeSequence start
          need 2
          quotedRun single start fuel (c :: back)
      else
        skip
        need 2
        quotedRun single start fuel (c :: back)

/-- The rest of a quoted scalar, with its closing quote. -/
def quotedLoop (single : Bool) (start : Mark) :
    (fuel : Nat) → (back : List Char) → Walk (List Char)
  | 0, back => return back.reverse
  | fuel + 1, back => do
    need 4
    let p ← place
    if p.atAnyMarker then fault start "found unexpected document indicator"
    else if p.rest.isEmpty then fault start "found unexpected end of stream"
    else
      let (back, broken) ← quotedRun single start (← turns) back
      need 1
      if ← at? (if single then '\'' else '"') then
        skip
        return back.reverse
      else
        let g ← gap (fun _ => pure ()) (← turns) { Gap.none with broken }
        quotedLoop single start fuel (g.folded.reverse ++ back)

/-- A quoted scalar, from its opening quote on. -/
def quotedScalar (single : Bool) : Walk (List Char) := do
  let start ← mark
  skip
  quotedLoop single start (← turns) []

/-! ## Block scalars -/

/-- What happens to the line breaks at the end of a block. -/
inductive Chomp where
  /-- They are dropped. -/
  | strip
  /-- The first is kept. -/
  | clip
  /-- They are kept. -/
  | keep
deriving DecidableEq, Repr

/-- The sign of a chomping rule. -/
def chomp? : Char → Option Chomp
  | '+' => some .keep
  | '-' => some .strip
  | _ => none

/-- An indentation, zero if none is given.  A given one of zero is refused. -/
def blockIndentation (start : Mark) : Walk Nat := do
  match ← peek with
  | some c =>
    if c = '0' then fault start "found an indentation indicator equal to 0"
    else if c.isDigit then
      skip
      return c.toNat - 0x30
    else return 0
  | none => return 0

/-- The signs after the bar or angle: a chomping rule and an indentation, in any
    order. -/
def blockHeader (start : Mark) : Walk (Chomp × Nat) := do
  match (← peek).bind chomp? with
  | some chomp =>
    skip
    need 1
    return (chomp, ← blockIndentation start)
  | none =>
    let increment ← blockIndentation start
    if increment = 0 then return (.clip, 0)
    else
      need 1
      match (← peek).bind chomp? with
      | some chomp =>
        skip
        return (chomp, increment)
      | none => return (.clip, increment)

/-- The rest of the line after those signs: blanks and a comment. -/
def blockHeaderEnd (start : Mark) : Walk Unit := do
  need 1
  skipWhile isBlank (← turns)
  if ← at? '#' then toLineEnd
  let c ← peek
  if !isBreakOrEnd c then fault start "did not find expected comment or line break"
  else if c.any isBreak then skipBreak

/-- Whether a column lies in front of the indentation; every column does while the
    indentation is not known. -/
def isShallow (indent : Option Nat) (column : Nat) : Bool :=
  match indent with
  | none => true
  | some n => column < n

/-- Moves past spaces of the indentation. -/
def indentation (indent : Option Nat) : (fuel : Nat) → Walk Unit
  | 0 => pure ()
  | fuel + 1 => do
    let p ← place
    if isShallow indent p.mark.column && p.at? ' ' then
      skip
      need 1
      indentation indent fuel

/-- Skips indentation and blank lines.  Gives the line breaks after `breaks` and the
    deepest column. -/
def blockBreaks (indent : Option Nat) (start : Mark) :
    (fuel : Nat) → List Char → Nat → Walk (List Char × Nat)
  | 0, breaks, deepest => return (breaks, deepest)
  | fuel + 1, breaks, deepest => do
    need 1
    indentation indent (← turns)
    let p ← place
    let deepest := max deepest p.mark.column
    if isShallow indent p.mark.column && p.at? '\t' then
      fault start "found a tab character where an indentation space is expected"
    else if p.peek.any isBreak then
      let kept ← readBreak
      blockBreaks indent start fuel (breaks ++ kept) deepest
    else return (breaks, deepest)

/-- The lines of a block, after the line break before this place (`leading`) and the
    blank lines before it (`trailing`); `blankBefore` says whether the last line began
    with a blank.  Gives the text, and the line breaks after it in these two parts. -/
def blockLines (literal : Bool) (indent : Nat) (start : Mark) :
    (fuel : Nat) → (back leading trailing : List Char) → (blankBefore : Bool) →
      Walk (List Char × List Char × List Char)
  | 0, back, leading, trailing, _ => return (back.reverse, leading, trailing)
  | fuel + 1, back, leading, trailing, blankBefore => do
    let p ← place
    if p.mark.column = indent && !p.rest.isEmpty then
      let blankHere := p.peek.any isBlank
      let joint :=
        if !literal && !blankBefore && !blankHere && leading.head? = some '\n' then
          if trailing.isEmpty then [' '] else []
        else leading
      let back ←
        readWhile (fun c => !isBreak c) (← turns) (trailing.reverse ++ (joint.reverse ++ back))
      let leading ← readBreak
      let (breaks, _) ← blockBreaks (some indent) start (← turns) [] 0
      blockLines literal indent start fuel back leading breaks blankHere
    else return (back.reverse, leading, trailing)

/-- A block scalar inside a block of indentation `parent`, from its bar or angle on. -/
def blockScalar (literal : Bool) (parent : Int) : Walk (List Char) := do
  let start ← mark
  skip
  need 1
  let (chomp, increment) ← blockHeader start
  blockHeaderEnd start
  let known : Option Nat :=
    if increment = 0 then none
    else some (if 0 ≤ parent then parent.toNat + increment else increment)
  let (breaks, deepest) ← blockBreaks known start (← turns) [] 0
  let indent := known.getD (max (max deepest (parent + 1).toNat) 1)
  let (text, leading, trailing) ← blockLines literal indent start (← turns) [] [] breaks false
  return text ++ match chomp with
    | .strip => []
    | .clip => leading
    | .keep => leading ++ trailing

end Walk

end Scriptorium.Yaml
