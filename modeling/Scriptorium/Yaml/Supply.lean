/-
  Scriptorium.Yaml.Supply: the characters of a YAML document, portion by portion.

  A document holds no control characters.  It is UTF-8, perhaps after a byte order mark,
  unless a byte order mark says that it is UTF-16.  It is read in portions of 512 bytes,
  and bytes that no document may hold show when their portion is read.  What stands in
  front of that portion can be read all the same.
-/

import Scriptorium.Text.Basic

namespace Scriptorium.Yaml

/-! ## Faults -/

/-- Why a document cannot be read. -/
structure Fault where
  /-- The line that is blamed, from one; zero for none. -/
  line : Nat
  problem : String
deriving DecidableEq, Repr

/-- What is said about a fault. -/
def Fault.text (f : Fault) : Text :=
  if f.line = 0 then "yaml: " ++ f.problem
  else "yaml: line " ++ Text.ofNat f.line ++ ": " ++ f.problem

/-! ## Characters -/

/-- Whether a code point may occur in a document. -/
def isAllowed (n : Nat) : Bool :=
  n = 0x09 || n = 0x0A || n = 0x0D || (0x20 ≤ n && n ≤ 0x7E) || n = 0x85 ||
    (0xA0 ≤ n && n ≤ 0xD7FF) || (0xE000 ≤ n && n ≤ 0xFFFD) || (0x10000 ≤ n && n ≤ 0x10FFFF)

/-- How the characters of a document are written. -/
inductive Encoding where
  | utf8
  | utf16 (bigEndian : Bool)
deriving DecidableEq, Repr

/-- What stands at the beginning of some bytes. -/
inductive Sequence where
  /-- A code point in `width` bytes. -/
  | code (value width : Nat)
  /-- Too few bytes, which is a problem at the end of a document. -/
  | incomplete (problem : String)
  /-- No character. -/
  | invalid (problem : String)
deriving DecidableEq, Repr

namespace Encoding

/-- How many bytes a UTF-8 sequence has that begins with the byte `b`; zero if none
    does. -/
def utf8Width (b : UInt8) : Nat :=
  if b < 0x80 then 1
  else if 0xC0 ≤ b && b < 0xE0 then 2
  else if 0xE0 ≤ b && b < 0xF0 then 3
  else if 0xF0 ≤ b && b < 0xF8 then 4
  else 0

/-- The code point of a UTF-8 sequence of the given width. -/
def utf8Value (width : Nat) (b : UInt8) (tail : Text) : Nat :=
  let lead := if width = 1 then b.toNat else b.toNat % Nat.pow 2 (7 - width)
  tail.foldl (fun n c => n * 64 + c.toNat % 64) lead

/-- The UTF-8 sequence of a byte and some bytes after it. -/
def utf8Sequence (b : UInt8) (rest : Text) : Sequence :=
  let width := utf8Width b
  let tail := rest.take (width - 1)
  let value := utf8Value width b tail
  if width = 0 then .invalid "invalid leading UTF-8 octet"
  else if tail.length + 1 < width then .incomplete "incomplete UTF-8 octet sequence"
  else if tail.any fun c => c < 0x80 || 0xC0 ≤ c then .invalid "invalid trailing UTF-8 octet"
  else if (width = 2 && value < 0x80) || (width = 3 && value < 0x800) ||
      (width = 4 && value < 0x10000) then
    .invalid "invalid length of a UTF-8 sequence"
  else if (0xD800 ≤ value && value ≤ 0xDFFF) || 0x10FFFF < value then
    .invalid "invalid Unicode character"
  else .code value width

/-- The UTF-16 unit of two bytes. -/
def utf16Unit (bigEndian : Bool) (a b : UInt8) : Nat :=
  if bigEndian then a.toNat * 256 + b.toNat else b.toNat * 256 + a.toNat

/-- The UTF-16 sequence of some bytes, of which there is at least one. -/
def utf16Sequence (bigEndian : Bool) : Text → Sequence
  | a :: b :: rest =>
    let unit := utf16Unit bigEndian a b
    if 0xDC00 ≤ unit && unit ≤ 0xDFFF then .invalid "unexpected low surrogate area"
    else if 0xD800 ≤ unit && unit ≤ 0xDBFF then
      match rest with
      | c :: d :: _ =>
        let low := utf16Unit bigEndian c d
        if 0xDC00 ≤ low && low ≤ 0xDFFF then
          .code (0x10000 + (unit - 0xD800) * 0x400 + (low - 0xDC00)) 4
        else .invalid "expected low surrogate area"
      | _ => .incomplete "incomplete UTF-16 surrogate pair"
    else .code unit 2
  | _ => .incomplete "incomplete UTF-16 character"

/-- What stands at the beginning of `b :: rest`. -/
def sequence (e : Encoding) (b : UInt8) (rest : Text) : Sequence :=
  let found := match e with
    | .utf8 => utf8Sequence b rest
    | .utf16 bigEndian => utf16Sequence bigEndian (b :: rest)
  match found with
  | .code value width =>
    if isAllowed value then .code value width
    else .invalid "control characters are not allowed"
  | other => other

/-- The encoding that a byte order mark tells, and the number of its bytes. -/
def ofText : Text → Encoding × Nat
  | 0xFF :: 0xFE :: _ => (.utf16 false, 2)
  | 0xFE :: 0xFF :: _ => (.utf16 true, 2)
  | 0xEF :: 0xBB :: 0xBF :: _ => (.utf8, 3)
  | _ => (.utf8, 0)

/-- The characters of some bytes, and what comes after them: the beginning of a
    character that is not complete, or a fault. -/
def decode (e : Encoding) : (fuel : Nat) → Text → List Char × Except Fault Text
  | 0, t => ([], .ok t)
  | _, [] => ([], .ok [])
  | fuel + 1, b :: rest =>
    match e.sequence b rest with
    | .code value width =>
      let (chars, after) := decode e fuel (rest.drop (width - 1))
      (Char.ofNat value :: chars, after)
    | .incomplete _ => ([], .ok (b :: rest))
    | .invalid problem => ([], .error ⟨0, problem⟩)

end Encoding

/-! ## Portions -/

/-- What is still to be read of a document. -/
inductive Supply where
  /-- Nothing. -/
  | done
  /-- A portion, and what follows it. -/
  | portion (chars : List Char) (next : Supply)
  /-- A portion with a fault in it, and the characters in front of the fault. -/
  | spoilt (chars : List Char) (fault : Fault)
deriving Repr

namespace Supply

/-- How many bytes are read at once. -/
def portionSize : Nat := 512

/-- What there is at the end of a document after `kept`, the beginning of a character. -/
def atEnd (e : Encoding) : (kept : Text) → Supply
  | [] => .done
  | b :: rest =>
    match e.sequence b rest with
    | .incomplete problem => .spoilt [] ⟨0, problem⟩
    | _ => .done

/-- The portions of `later` after `kept`, the beginning of a character that the portion
    before broke off; `room` more bytes go into the next portion. -/
def ofBytes (e : Encoding) : (fuel room : Nat) → (kept later : Text) → Supply
  | 0, _, _, _ => .done
  | fuel + 1, room, kept, later =>
    if later.isEmpty then atEnd e kept
    else
      match e.decode portionSize (kept ++ later.take room) with
      | (chars, .error fault) => .spoilt chars fault
      | (chars, .ok rest) =>
        .portion chars (ofBytes e fuel (portionSize - rest.length) rest (later.drop room))

/-- The portions of a document.  A byte order mark in front is no part of it, but takes
    room in the first portion. -/
def ofText (t : Text) : Supply :=
  let (encoding, width) := Encoding.ofText t
  ofBytes encoding (t.length + 1) (portionSize - width) [] (t.drop width)

end Supply

end Scriptorium.Yaml
