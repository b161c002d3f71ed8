/-
  Scriptorium.Yaml.Lexeme: the lexemes of a YAML document.

  Indentation becomes lexemes of its own: a block collection has a start and an end.
  So does the key of a mapping, which need not be announced by anything in the text.
-/

import Scriptorium.Yaml.Scalar

namespace Scriptorium.Yaml

/-- What a lexeme is. -/
inductive Sign where
  /-- The beginning of the document stream. -/
  | streamStart
  /-- The end of the document stream. -/
  | streamEnd
  /-- Three hyphens. -/
  | documentStart
  /-- Three dots. -/
  | documentEnd
  | blockSequenceStart
  | blockMappingStart
  | blockEnd
  | flowSequenceStart
  | flowSequenceEnd
  | flowMappingStart
  | flowMappingEnd
  /-- A hyphen before an item. -/
  | blockEntry
  /-- A comma. -/
  | flowEntry
  /-- The beginning of a key. -/
  | key
  /-- The colon before a value. -/
  | value
  /-- A reference to an anchor. -/
  | alias (name : List Char)
  /-- A name for the node that follows. -/
  | anchor (name : List Char)
  | scalar (style : Style) (text : List Char)
deriving DecidableEq, Repr

/-- A lexeme and the places where it begins and ends. -/
structure Lexeme where
  sign : Sign
  start : Mark
  stop : Mark
deriving Repr

end Scriptorium.Yaml
