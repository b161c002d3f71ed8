/-
  Scriptorium.Cli.History: lines typed at the prompt, and the history of them.

  Input is read in lines of at most 4096 bytes; a longer line comes in pieces.  The
  history holds the last thousand lines that are not blank, without a line that
  repeats the one before, and is kept in a file with one line per entry.
-/

import Scriptorium.Text.Blank

namespace Scriptorium.Cli

/-! ## Lines -/

/-- The most bytes of a line that are read at once. -/
def lineLimit : Nat := 4096

/-- A line of input. -/
structure InputLine where
  text : Text
  /-- Whether the line goes on. -/
  cut : Bool
deriving DecidableEq, Repr

/-- Drops a carriage return from the end of a line. -/
def dropReturn (line : Text) : Text :=
  if line.getLast? = some 0x0D then line.dropLast else line

/-- The next line and what follows it.  A carriage return before the line feed is
    dropped; one at the end of a piece is left for the next. -/
def nextLine? (t : Text) : Option (InputLine × Text) :=
  if t.isEmpty then none
  else
    let head := t.take lineLimit
    let line := head.takeWhile (· ≠ 0x0A)
    if line.length < head.length then some (⟨dropReturn line, false⟩, t.drop (line.length + 1))
    else if head.length < lineLimit then some (⟨line, false⟩, [])
    else
      let piece := dropReturn line
      some (⟨piece, true⟩, t.drop piece.length)

/-- At most one byte is dropped. -/
theorem length_le_dropReturn (line : Text) : line.length ≤ (dropReturn line).length + 1 := by
  unfold dropReturn
  split
  · simp only [List.length_dropLast]; omega
  · omega

/-- Reading a line makes the text shorter. -/
theorem nextLine?_length {t rest : Text} {line : InputLine}
    (h : nextLine? t = some (line, rest)) : rest.length < t.length := by
  unfold nextLine? at h
  split at h
  · cases h
  · next hne =>
    have hpos : 0 < t.length := List.length_pos_iff.2 (by simpa using hne)
    dsimp only at h
    split at h
    · cases h
      simp only [List.length_drop]
      omega
    · next hwhole =>
      split at h
      · cases h
        exact hpos
      · next hfull =>
        cases h
        have hdrop := length_le_dropReturn ((t.take lineLimit).takeWhile (· ≠ 0x0A))
        have hlimit : lineLimit = 4096 := rfl
        simp only [List.length_drop]
        omega

/-- The lines of an input. -/
def lines (t : Text) : List InputLine :=
  match h : nextLine? t with
  | none => []
  | some (line, rest) =>
    have := nextLine?_length h
    line :: lines rest
termination_by t.length

/-! ## History -/

/-- The lines typed so far, the oldest first. -/
abbrev History := List Text

namespace History

/-- The most lines that are kept. -/
def limit : Nat := 1000

/-- Adds a line at the end; the oldest goes if there are too many. -/
def push (h : History) (line : Text) : History := (h ++ [line]).drop (h.length + 1 - limit)

/-- The lines that a file holds, up to one that is too long or no valid text. -/
def ofLines : History → List InputLine → History
  | h, [] => h
  | h, line :: rest =>
    if line.cut || line.text.toString?.isNone then h else ofLines (h.push line.text) rest

/-- The history that a file holds. -/
def ofText (t : Text) : History := ofLines [] (lines t)

/-- Notes a line, unless it is blank or repeats the last one. -/
def note (h : History) (line : Text) : History :=
  if line.trim.isEmpty || h.getLast? = some line then h else h.push line

/-- The text of the file. -/
def text (h : History) : Text := h.flatMap (· ++ [0x0A])

end History

end Scriptorium.Cli
