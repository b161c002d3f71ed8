/-
  Scriptorium.Path: absolute paths.

  A path is the list of names on the way from the root.  Reading a text as a path
  drops empty names and single dots, and lets two dots go back by one name, so a path
  has one form only.

  Main results: `length_names_parent_lt`, going up ends, for only the root is its own
  parent.
-/

import Scriptorium.Text.Basic

namespace Scriptorium

/-- An absolute path: the names on the way from the root. -/
structure Path where
  names : List Text
deriving DecidableEq, Repr

namespace Path

/-- The path as text. -/
def text (p : Path) : Text :=
  if p.names.isEmpty then "/" else p.names.flatMap fun name => "/" ++ name

/-- The directory a path is in; the root is in itself. -/
def parent (p : Path) : Path := ⟨p.names.dropLast⟩

/-- The path of a name in a directory. -/
def child (p : Path) (name : Text) : Path := ⟨p.names ++ [name]⟩

/-- The last name; a slash for the root. -/
def base (p : Path) : Text := p.names.getLast?.getD "/"

/-- Follows one name. -/
def step (names : List Text) (name : Text) : List Text :=
  if name.isEmpty || name = Text.ofString "." then names
  else if name = Text.ofString ".." then names.dropLast
  else names ++ [name]

/-- Follows a text from a directory, or from the root if it begins with a slash. -/
def resolve (dir : Path) (t : Text) : Path :=
  let start := if t.startsWith "/" then [] else dir.names
  ⟨(t.splitOnByte 0x2F).foldl step start⟩

/-- The text of a path up to its last slash. -/
def directoryPart (t : Text) : Text := (t.reverse.dropWhile (· ≠ 0x2F)).reverse

/-- Only the root is its own parent: every other directory has one name less above it. -/
theorem length_names_parent_lt {p : Path} (h : p.parent ≠ p) :
    p.parent.names.length < p.names.length := by
  have hne : p.names ≠ [] := by
    intro hnil
    apply h
    obtain ⟨names⟩ := p
    subst hnil
    rfl
  have hpos : 0 < p.names.length := List.length_pos_iff.2 hne
  simp only [parent, List.length_dropLast]
  omega

end Path

end Scriptorium
