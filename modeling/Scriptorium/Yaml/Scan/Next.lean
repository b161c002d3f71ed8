/-
  Scriptorium.Yaml.Scan.Next: the next lexeme of a YAML document.

  Lexemes are scanned as they are asked for.  At least three are scanned before the first
  of them is handed over, and more while it may still become a key, so a fault further on
  in the document stops a reader no sooner than that.
-/

import Scriptorium.Yaml.Scan.Basic

namespace Scriptorium.Yaml.Scanner

/-! ## Collections -/

/-- Begins a block collection at a column deeper than the present one; its start goes
    in front of the lexeme number `number`. -/
def roll (column number : Nat) (sign : Sign) (mark : Mark) : Scanner Unit := do
  let s ← get
  if !s.inFlow && decide (s.indent < column) then
    let s := { s with outer := s.indent :: s.outer, indent := column }
    set s
    if Scan.maxDepth < s.outer.length then fault s.key.mark "exceeded max depth of 10000"
    else set (s.insert number sign mark)

/-- Begins a block collection at this place. -/
def rollHere (sign : Sign) : Scanner Unit := do
  let s ← get
  roll s.place.mark.column s.lexemes.size sign s.place.mark

/-- Adds a lexeme of `width` characters that begins here. -/
def take (sign : Sign) (width : Nat) : Scanner Unit :=
  modify fun s =>
    let place := s.place.skipN width
    { s.push ⟨sign, s.place.mark, place.mark⟩ with place }

/-- Adds the lexeme that a walk from here gives. -/
def takeBy (w : Walk Sign) : Scanner Unit := do
  let start ← mark
  let sign ← walk w
  modify fun s => s.push ⟨sign, start, s.place.mark⟩

/-- An opening bracket or brace. -/
def flowStart (sign : Sign) : Scanner Unit := do
  saveKey
  modify fun s => { s with keys := s.keys.push (.none s.lexemes.size s.place.mark) }
  let s ← get
  if Scan.maxDepth < s.level then fault s.key.mark "exceeded max depth of 10000"
  else
    allowKey true
    take sign 1

/-- A closing bracket or brace. -/
def flowEnd (sign : Sign) : Scanner Unit := do
  dropKey
  modify fun s => if s.inFlow then { s.forget s.key.number with keys := s.keys.pop } else s
  allowKey false
  take sign 1

/-- A comma between brackets. -/
def flowEntry : Scanner Unit := do
  dropKey
  allowKey true
  take .flowEntry 1

/-- A hyphen before an item. -/
def blockEntry : Scanner Unit := do
  let s ← get
  if !s.inFlow then
    if !s.keyAllowed then
      fault s.place.mark "block sequence entries are not allowed in this context"
    else rollHere .blockSequenceStart
  dropKey
  allowKey true
  take .blockEntry 1

/-- A question mark before a key. -/
def explicitKey : Scanner Unit := do
  let s ← get
  if !s.inFlow then
    if !s.keyAllowed then fault s.place.mark "mapping keys are not allowed in this context"
    else rollHere .blockMappingStart
  dropKey
  allowKey !s.inFlow
  take .key 1

/-- A colon before a value.  It makes a key of what may have been one. -/
def value : Scanner Unit := do
  if ← isKey (← get).level then
    let k := (← get).key
    modify fun s => s.insert k.number .key k.mark
    roll k.mark.column k.number .blockMappingStart k.mark
    modify fun s => (s.setKey s.level { k with possible := false }).forget k.number
    allowKey false
  else
    let s ← get
    if !s.inFlow then
      if !s.keyAllowed then fault s.place.mark "mapping values are not allowed in this context"
      else rollHere .blockMappingStart
    allowKey !s.inFlow
  take .value 1

/-! ## Scalars, anchors and markers -/

/-- What may follow the name of an anchor. -/
def endsAnchor (c : Option Char) : Bool :=
  isBlankOrEnd c || c.any fun c => ['?', ':', ',', ']', '\x7d', '%', '@', '\x60'].contains c

/-- The name of an anchor, after its sign. -/
def anchorName : Walk (List Char) := do
  let start ← Walk.mark
  Walk.skip
  Walk.need 1
  let back ← Walk.readWhile isWord (← Walk.turns) []
  if back.isEmpty || !endsAnchor (← Walk.peek) then
    Walk.fault start "did not find expected alphabetic or numeric character"
  else return back.reverse

/-- An anchor or a reference to one. -/
def anchor (sign : List Char → Sign) : Scanner Unit := do
  saveKey
  allowKey false
  takeBy (return sign (← anchorName))

/-- A literal or folded block. -/
def block (literal : Bool) : Scanner Unit := do
  dropKey
  allowKey true
  let parent := (← get).indent
  takeBy (return .scalar .block (← Walk.blockScalar literal parent))

/-- A quoted scalar. -/
def quoted (single : Bool) : Scanner Unit := do
  saveKey
  allowKey false
  takeBy (return .scalar .quoted (← Walk.quotedScalar single))

/-- A plain scalar.  A key may follow on a line after it. -/
def plain : Scanner Unit := do
  saveKey
  allowKey false
  let s ← get
  let (text, broken) ← walk (Walk.plainScalar s.inFlow s.indent)
  modify fun t => t.push ⟨.scalar .plain text, s.place.mark, t.place.mark⟩
  if broken then allowKey true

/-- The end of the stream, which counts as the beginning of a line. -/
def streamEnd : Scanner Unit := do
  modify fun s =>
    let m := s.place.mark
    let mark : Mark := if m.column = 0 then m else { m with line := m.line + 1, column := 0 }
    { s with place := { s.place with mark } }.unroll (-1) mark
  dropKey
  allowKey false
  take .streamEnd 0

/-- A document marker. -/
def documentMarker (sign : Sign) : Scanner Unit := do
  modify fun s => s.unroll (-1) s.place.mark
  dropKey
  allowKey false
  take sign 3

/-- A directive, of which none is known. -/
def directive : Scanner Unit := do
  modify fun s => s.unroll (-1) s.place.mark
  dropKey
  allowKey false
  walk do
    let start ← Walk.mark
    Walk.skip
    Walk.need 1
    let back ← Walk.readWhile isWord (← Walk.turns) []
    if back.isEmpty then Walk.fault start "could not find expected directive name"
    else if !isBlankOrEnd (← Walk.peek) then
      Walk.fault start "found unexpected non-alphabetical character"
    else Walk.fault start "found unknown directive name"

/-! ## The next lexeme -/

/-- Moves to the next lexeme.  Tabs are blanks where no key may begin, and a new line
    lets a key begin. -/
def skipBlanks : (fuel : Nat) → Scanner Unit
  | 0 => pure ()
  | fuel + 1 => do
    walk (Walk.need 1)
    let s ← get
    if s.place.mark.column = 0 && s.place.marked then walk Walk.skip
    walk (Walk.need 1)
    let tabs := s.inFlow || !s.keyAllowed
    walk do Walk.skipWhile (fun c => c = ' ' || (tabs && c = '\t')) (← Walk.turns)
    if (← get).place.at? '#' then
      let head? ← walk (Walk.comments s.inFlow s.afterColon s.indent.toNat)
      modify fun s => { s with comments := s.comments ++ head?.toList }
    if (← get).place.peek.any isBreak then
      walk Walk.skipBreak
      if !s.inFlow then allowKey true
      skipBlanks fuel

/-- Characters that no plain scalar begins with. -/
def indicators : List Char :=
  ['-', '?', ':', ',', '[', ']', '\x7b', '\x7d', '#', '&', '*', '!', '|', '>', '\'', '"', '%', '@',
    '\x60']

/-- Whether a plain scalar begins with `c` before `next`. -/
def beginsPlain (inFlow : Bool) (c : Char) (next : Option Char) : Bool :=
  !(isBlank c || isBreak c || indicators.contains c) || (c = '-' && !next.any isBlank) ||
    (!inFlow && (c = '?' || c = ':') && !isBlankOrEnd next)

/-- The lexeme that begins with the character `c`, after which `next` comes. -/
def lexeme (inFlow : Bool) (c : Char) (next : Option Char) : Scanner Unit := do
  if c = '[' then flowStart .flowSequenceStart
  else if c = '\x7b' then flowStart .flowMappingStart
  else if c = ']' then flowEnd .flowSequenceEnd
  else if c = '\x7d' then flowEnd .flowMappingEnd
  else if c = ',' then flowEntry
  else if c = '-' && isBlankOrEnd next then blockEntry
  else if c = '?' && (inFlow || isBlankOrEnd next) then explicitKey
  else if c = ':' && (inFlow || isBlankOrEnd next) then value
  else if c = '*' then anchor .alias
  else if c = '&' then anchor .anchor
  else if c = '|' && !inFlow then block true
  else if c = '>' && !inFlow then block false
  else if c = '\'' then quoted true
  else if c = '"' then quoted false
  else if beginsPlain inFlow c next then plain
  else fault (← mark) "found character that cannot start any token"

/-- The beginning of the stream. -/
def streamStart : Scanner Unit := do
  modify fun s => { s with indent := -1, keyAllowed := true, keys := #[.none 0 .start] }
  take .streamStart 0

/-- Scans the next lexeme, after the block ends that its column calls for, and a comment
    on its line. -/
def next : Scanner Unit := do
  walk (Walk.need 1)
  if (← get).lexemes.isEmpty then streamStart
  else
    let began ← mark
    skipBlanks (← walk Walk.turns)
    modify fun s => s.unroll s.place.mark.column began
    walk (Walk.need 4)
    let s ← get
    match s.place.peek with
    | none => streamEnd
    | some c =>
      if s.place.mark.column = 0 && c = '%' then directive
      else if s.place.atMarker '-' then documentMarker .documentStart
      else if s.place.atMarker '.' then documentMarker .documentEnd
      else
        lexeme s.inFlow c (s.place.peekAt 1)
        if (← get).lexemes.back?.any (·.sign = .blockEntry) then pure ()
        else walk Walk.lineComment

/-! ## Handing lexemes over -/

/-- Scans until the next lexeme can be handed over. -/
def prepare : (fuel : Nat) → Scanner Unit
  | 0 => pure ()
  | fuel + 1 => do
    let s ← get
    let more ←
      if s.lexemes.size ≤ s.taken + 2 then pure true
      else
        match s.keyLevels.lookup s.taken with
        | some level => isKey level
        | none => pure false
    if more then
      next
      prepare fuel
    else modify fun s => { s with ready := true }

/-- The next lexeme. -/
def peek : Scanner Lexeme := do
  if !(← get).ready then prepare (2 * (← get).place.size + 8)
  modifyGet fun s =>
    let l := s.lexemes.getD s.taken ⟨.streamEnd, s.place.mark, s.place.mark⟩
    (l, s.meetHeads l)

/-- Moves past the next lexeme. -/
def advance : Scanner Unit := modify fun s => { s with taken := s.taken + 1, ready := false }

/-- Stops with the fault that was met on the way, if any. -/
def settle : Scanner Unit := do
  match (← get).place.pending with
  | some f => throw f
  | none => pure ()

/-- Looks at the next lexeme, but keeps a fault to be met later. -/
def peek? : Scanner (Option Lexeme) := do
  try
    return some (← peek)
  catch f =>
    modify fun s => { s with place := { s.place with pending := some f } }
    return none

/-- Gives the head comments met so far to the node at hand. -/
def takeHeads : Scanner Unit := modify fun s => { s with heads := [] }

/-- Gives the head comments met so far to a document, up to the last empty line. -/
def takeDocumentHeads : Scanner Unit :=
  modify fun s => { s with heads := (s.heads.reverse.takeWhile (!·.detached)).reverse }

/-- Moves past the hyphen of an item and gives the lexeme after it.  An item with a head
    comment is looked at once more, to give the comment to a block collection that begins
    with the item; a fault met at the first look counts only if the second finds none. -/
def advanceItem : Scanner Lexeme := do
  let heads := (← get).heads.length
  advance
  if 0 < heads then
    if (← peek?).any fun l => l.sign = .blockSequenceStart || l.sign = .blockMappingStart then
      modify fun s => { s with heads := s.heads.drop heads }
  peek

end Scriptorium.Yaml.Scanner
