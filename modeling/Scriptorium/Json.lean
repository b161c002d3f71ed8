/-
  Scriptorium.Json: JSON documents and their text.

  A document is written on one line, or with one entry per line and two blanks of
  indentation per level.  Strings are escaped so that the text can stand in a web
  page.  NaN and the infinities have no JSON text: a document that holds one
  cannot be written, and the first one met is reported.
-/

import Scriptorium.Number.Written
import Scriptorium.Text.Quoted

namespace Scriptorium

/-- A JSON document. -/
inductive Json where
  | null
  | bool (b : Bool)
  | number (x : Float)
  | string (t : Text)
  | array (items : List Json)
  /-- Fields in the order in which they are written. -/
  | object (fields : List (String × Json))

namespace Json

/-! ## Strings -/

/-- A character inside a JSON string. -/
def escapeChar (c : Char) : List Char :=
  let code := c.toNat
  if c = '"' || c = '\\' then ['\\', c]
  else if code = 0x08 then ['\\', 'b']
  else if code = 0x09 then ['\\', 't']
  else if code = 0x0A then ['\\', 'n']
  else if code = 0x0C then ['\\', 'f']
  else if code = 0x0D then ['\\', 'r']
  else if code < 0x20 || c = '<' || c = '>' || c = '&' || code = 0x2028 || code = 0x2029 then
    '\\' :: 'u' :: Text.hex 4 code
  else [c]

/-- A symbol inside a JSON string; a stray byte becomes the replacement character,
    escaped. -/
def escapeSymbol : Symbol → List Char
  | .char c => escapeChar c
  | .stray _ => '\\' :: 'u' :: Text.hex 4 0xFFFD

/-- A string with its quotes. -/
def quote (t : Text) : Text :=
  Text.ofString (String.ofList ('"' :: t.symbols.flatMap escapeSymbol ++ ['"']))

/-! ## Numbers that cannot be written -/

mutual

/-- The first number in a document that has no JSON text. -/
def unwritable? : Json → Option Float
  | .number x => if (Number.json? x).isNone then some x else none
  | .array items => unwritableItem? items
  | .object fields => unwritableField? fields
  | _ => none

/-- The first such number in a list of documents. -/
def unwritableItem? : List Json → Option Float
  | [] => none
  | j :: rest => j.unwritable?.or (unwritableItem? rest)

/-- The first such number in a list of fields. -/
def unwritableField? : List (String × Json) → Option Float
  | [] => none
  | (_, j) :: rest => j.unwritable?.or (unwritableField? rest)

end

/-- What is said about a number without JSON text. -/
def unwritableMessage (x : Float) : Text :=
  "json: unsupported value: " ++
    match Number.read x with
    | .infinite false => Text.ofString "+Inf"
    | .infinite true => Text.ofString "-Inf"
    | _ => Text.ofString "NaN"

/-! ## Text -/

mutual

/-- The document on one line. -/
def compact : Json → Text
  | .null => "null"
  | .bool b => if b then "true" else "false"
  | .number x => (Number.json? x).getD "null"
  | .string t => quote t
  | .array items => "[" ++ compactItems items ++ "]"
  | .object fields => "\x7b" ++ compactFields fields ++ "\x7d"

/-- Documents between commas. -/
def compactItems : List Json → Text
  | [] => []
  | [j] => j.compact
  | j :: rest => j.compact ++ "," ++ compactItems rest

/-- Fields between commas. -/
def compactFields : List (String × Json) → Text
  | [] => []
  | [(key, j)] => quote key ++ ":" ++ j.compact
  | (key, j) :: rest => quote key ++ ":" ++ j.compact ++ "," ++ compactFields rest

end

/-- A line break and the indentation of a level. -/
def newline (level : Nat) : Text := "\n" ++ (List.replicate (2 * level) 0x20 : Text)

mutual

/-- The document with one entry per line. -/
def indented (level : Nat) : Json → Text
  | .null => "null"
  | .bool b => if b then "true" else "false"
  | .number x => (Number.json? x).getD "null"
  | .string t => quote t
  | .array [] => "[]"
  | .array items => "[" ++ indentedItems (level + 1) items ++ newline level ++ "]"
  | .object [] => "\x7b\x7d"
  | .object fields => "\x7b" ++ indentedFields (level + 1) fields ++ newline level ++ "\x7d"

/-- Documents, each on a line of its own. -/
def indentedItems (level : Nat) : List Json → Text
  | [] => []
  | [j] => newline level ++ j.indented level
  | j :: rest => newline level ++ j.indented level ++ "," ++ indentedItems level rest

/-- Fields, each on a line of its own. -/
def indentedFields (level : Nat) : List (String × Json) → Text
  | [] => []
  | [(key, j)] => newline level ++ quote key ++ ": " ++ j.indented level
  | (key, j) :: rest =>
    newline level ++ quote key ++ ": " ++ j.indented level ++ "," ++ indentedFields level rest

end

/-- The document on one line, unless a number in it cannot be written. -/
def encode (j : Json) : Except Float Text :=
  match j.unwritable? with
  | some x => .error x
  | none => .ok j.compact

/-- The document over several lines, unless a number in it cannot be written. -/
def encodeIndented (j : Json) : Except Float Text :=
  match j.unwritable? with
  | some x => .error x
  | none => .ok (j.indented 0)

end Json

end Scriptorium
