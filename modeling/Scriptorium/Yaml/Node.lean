/-
  Scriptorium.Yaml.Node: the nodes of a YAML document.

  A node is a scalar, a sequence, a mapping or a reference to an anchored node.  A
  reference may stand inside the node it refers to, so anchored nodes are kept in a
  table and references hold their number.  Only the first document of a stream is
  read; what follows it is scanned no further than lexemes are scanned ahead.

  A fault that did not stop the scan stops the reading as soon as the lexemes at hand
  make a scalar, a reference, or the beginning or end of a collection (`Read.settle`).
-/

import Scriptorium.Yaml.Scan.Next

namespace Scriptorium.Yaml

/-- A node of a document, with the line it begins on. -/
inductive Node where
  | scalar (line : Nat) (style : Style) (value : Text)
  | sequence (line : Nat) (items : List Node)
  | mapping (line : Nat) (entries : List (Node × Node))
  /-- A reference to the anchored node number `target`. -/
  | alias (line : Nat) (anchor : Text) (target : Nat)
deriving Inhabited

/-- The line a node begins on. -/
def Node.line : Node → Nat
  | .scalar line .. | .sequence line _ | .mapping line _ | .alias line .. => line

/-- A document. -/
structure Document where
  root : Node
  /-- The nodes that have anchors. -/
  anchored : Array Node

/-- The node itself, or the one it refers to. -/
def Document.follow (d : Document) : Node → Node
  | .alias line anchor target => d.anchored.getD target (.alias line anchor target)
  | n => n

/-! ## Reading lexemes -/

/-- The state of reading: the scan, and the anchors met so far. -/
structure Reading where
  scan : Scan
  /-- The numbers of the anchors, the latest first. -/
  names : List (List Char × Nat)
  anchored : Array Node

/-- A computation that reads lexemes. -/
abbrev Read := EStateM Fault Reading

namespace Read

/-- Scans. -/
def scan {α : Type} (m : Scanner α) : Read α := fun r =>
  match m r.scan with
  | .ok a scan => .ok a { r with scan }
  | .error f scan => .error f { r with scan }

/-- The next lexeme. -/
def peek : Read Lexeme := scan Scanner.peek

/-- Moves past the next lexeme. -/
def advance : Read Unit := scan Scanner.advance

/-- Stops with a fault that was met on the way. -/
def settle : Read Unit := scan Scanner.settle

/-- Stops with a fault that was met on the way, or takes the head comments. -/
def claim : Read Unit := scan do
  Scanner.settle
  Scanner.takeHeads

/-- Moves past the next lexeme and gives the one after it. -/
def advancePeek : Read Lexeme := do
  advance
  peek

/-- Names the node that is about to be read. -/
def reserve (name : List Char) : Read Nat :=
  modifyGet fun r =>
    (r.anchored.size,
      { r with
        names := (name, r.anchored.size) :: r.names
        anchored := r.anchored.push default })

/-- Completes a named node. -/
def fill (number : Nat) (n : Node) : Read Node := do
  modify fun r => { r with anchored := r.anchored.setIfInBounds number n }
  return n

/-- A fault between lexemes. -/
def fault {α : Type} (context noticed : Mark) (problem : String) : Read α :=
  throw (grammarFault context noticed problem)

/-- The node for content that is left out. -/
def empty (m : Mark) : Read Node := do
  settle
  return .scalar (m.line + 1) .plain []

/-- A scalar. -/
def scalar (start : Mark) (style : Style) (text : List Char) : Node :=
  .scalar (start.line + 1) style (Text.ofString (String.ofList text))

/-! ## Nodes

Every function below takes fuel for its recursion; each turn passes a lexeme or goes
from a lexeme to a part of its node, so that four times the number of lexemes is
enough. -/

/-- The fault of a reader that ran out of fuel. -/
def exhausted {α : Type} : Read α := throw ⟨0, "unknown problem parsing YAML content"⟩

mutual

/-- A node.  `block` admits block collections, `indentless` a sequence whose hyphens
    stand no deeper than the key before it. -/
def node (block indentless : Bool) : (fuel : Nat) → Read Node
  | 0 => exhausted
  | fuel + 1 => do
    let t ← peek
    match t.sign with
    | .alias name =>
      claim
      match (← get).names.lookup name with
      | some number =>
        advance
        return .alias (t.start.line + 1) (Text.ofString (String.ofList name)) number
      | none => throw ⟨0, "unknown anchor '" ++ String.ofList name ++ "' referenced"⟩
    | .anchor name =>
      let number ← reserve name
      let _ ← advancePeek
      fill number (← content block indentless t.start true fuel)
    | _ => content block indentless t.start false fuel

/-- The content of a node that began at `start`, perhaps with an anchor. -/
def content (block indentless : Bool) (start : Mark) (anchored : Bool) :
    (fuel : Nat) → Read Node
  | 0 => exhausted
  | fuel + 1 => do
    let t ← peek
    let line := start.line + 1
    match t.sign with
    | .scalar style text =>
      claim
      advance
      return scalar start style text
    | .flowSequenceStart =>
      claim
      advance
      return .sequence line (← flowItems t.start true fuel)
    | .flowMappingStart =>
      claim
      advance
      return .mapping line (← flowEntries t.start true fuel)
    | sign =>
      if indentless && sign = .blockEntry then
        settle
        return .sequence line (← indentlessItems fuel)
      else if block && sign = .blockSequenceStart then
        settle
        advance
        return .sequence line (← blockItems t.start fuel)
      else if block && sign = .blockMappingStart then
        settle
        advance
        return .mapping line (← blockEntries t.start fuel)
      else if anchored then empty start
      else fault start t.start "did not find expected node content"

/-- The items of a block sequence. -/
def blockItems (start : Mark) : (fuel : Nat) → Read (List Node)
  | 0 => exhausted
  | fuel + 1 => do
    let t ← peek
    match t.sign with
    | .blockEntry =>
      let u ← scan Scanner.advanceItem
      let item ←
        if u.sign = .blockEntry || u.sign = .blockEnd then empty t.stop
        else node true false fuel
      return item :: (← blockItems start fuel)
    | .blockEnd =>
      settle
      advance
      return []
    | _ => fault start t.start "did not find expected '-' indicator"

/-- The items of a sequence that is no deeper than its key. -/
def indentlessItems : (fuel : Nat) → Read (List Node)
  | 0 => exhausted
  | fuel + 1 => do
    let t ← peek
    match t.sign with
    | .blockEntry =>
      let u ← scan Scanner.advanceItem
      let item ←
        if [.blockEntry, .key, .value, .blockEnd].contains u.sign then empty t.stop
        else node true false fuel
      return item :: (← indentlessItems fuel)
    | _ =>
      settle
      return []

/-- The entries of a block mapping. -/
def blockEntries (start : Mark) : (fuel : Nat) → Read (List (Node × Node))
  | 0 => exhausted
  | fuel + 1 => do
    let t ← peek
    match t.sign with
    | .key =>
      let u ← advancePeek
      let key ←
        if [.key, .value, .blockEnd].contains u.sign then empty t.stop
        else node true true fuel
      let v ← peek
      let value ←
        if v.sign = .value then
          let w ← advancePeek
          if [.key, .value, .blockEnd].contains w.sign then empty v.stop
          else node true true fuel
        else empty v.start
      return (key, value) :: (← blockEntries start fuel)
    | .blockEnd =>
      claim
      advance
      return []
    | _ => fault start t.start "did not find expected key"

/-- The items of a bracketed sequence. -/
def flowItems (start : Mark) (first : Bool) : (fuel : Nat) → Read (List Node)
  | 0 => exhausted
  | fuel + 1 => do
    let t ← peek
    let t ←
      if first || t.sign = .flowSequenceEnd then pure t
      else if t.sign = .flowEntry then advancePeek
      else fault start t.start "did not find expected ',' or ']'"
    match t.sign with
    | .flowSequenceEnd =>
      claim
      advance
      return []
    | .key =>
      settle
      advance
      let pair ← flowPair fuel
      return .mapping (t.start.line + 1) [pair] :: (← flowItems start false fuel)
    | _ =>
      let item ← node false false fuel
      return item :: (← flowItems start false fuel)

/-- A mapping of one entry inside a bracketed sequence. -/
def flowPair : (fuel : Nat) → Read (Node × Node)
  | 0 => exhausted
  | fuel + 1 => do
    let t ← peek
    let key ←
      if [.value, .flowEntry, .flowSequenceEnd].contains t.sign then do
        advance
        empty t.stop
      else node false false fuel
    let u ← peek
    let value ←
      if u.sign = .value then do
        let v ← advancePeek
        if [.flowEntry, .flowSequenceEnd].contains v.sign then empty v.start
        else node false false fuel
      else empty u.start
    let _ ← peek
    settle
    return (key, value)

/-- The entries of a braced mapping. -/
def flowEntries (start : Mark) (first : Bool) : (fuel : Nat) → Read (List (Node × Node))
  | 0 => exhausted
  | fuel + 1 => do
    let t ← peek
    let t ←
      if first || t.sign = .flowMappingEnd then pure t
      else if t.sign = .flowEntry then advancePeek
      else fault start t.start "did not find expected ',' or '\x7d'"
    match t.sign with
    | .flowMappingEnd =>
      claim
      advance
      return []
    | .key =>
      let u ← advancePeek
      let key ←
        if [.value, .flowEntry, .flowMappingEnd].contains u.sign then empty u.start
        else node false false fuel
      let v ← peek
      let value ←
        if v.sign = .value then do
          let w ← advancePeek
          if [.flowEntry, .flowMappingEnd].contains w.sign then empty w.start
          else node false false fuel
        else empty v.start
      return (key, value) :: (← flowEntries start false fuel)
    | _ =>
      let key ← node false false fuel
      let u ← peek
      return (key, ← empty u.start) :: (← flowEntries start false fuel)

end

/-! ## Documents -/

/-- The first document of a stream; none if there is nothing in it. -/
def document (fuel : Nat) : Read (Option Node) := do
  let _ ← peek
  settle
  let t ← advancePeek
  settle
  match t.sign with
  | .streamEnd => return none
  | .documentStart =>
    let u ← advancePeek
    let root ←
      if [.documentStart, .documentEnd, .streamEnd].contains u.sign then empty u.start
      else node true false fuel
    let _ ← peek
    settle
    return some root
  | _ =>
    scan Scanner.takeDocumentHeads
    let root ← node true false fuel
    let _ ← peek
    settle
    return some root

end Read

/-- Reads the first document of a text; none if there is nothing in it.  A character
    gives rise to four lexemes at most. -/
def Document.ofText? (t : Text) : Except Fault (Option Document) :=
  match (Read.document (16 * t.length + 64)).run ⟨.ofText t, [], #[]⟩ with
  | .ok root r => .ok (root.map fun root => ⟨root, r.anchored⟩)
  | .error f _ => .error f

end Scriptorium.Yaml
