/-
  Scriptorium.Proofs.Lexing.Seam: where two scripts meet.

  A text that is put below others, with a line feed between, is scanned to the tokens that it
  has by itself, only further down.  The line feed is what makes this work: it ends every
  number and every word, it cannot be part of a character that began before it, and after it
  columns begin again.

  Main results:
    * `Cursor.Scans.down`: scanning from a lower line moves the tokens down.
    * `Cursor.Scans.lineFeed`: scans that finish can be joined at a line feed.
    * `Cursor.scans_below`: what is scanned of a text and, below it, of another.
-/

import Scriptorium.Proofs.Lexing.Layout

namespace Scriptorium

/-! ## §1. Further down. -/

/-- The place `d` lines further down. -/
def Position.down (d : Nat) (p : Position) : Position := ⟨p.line + d, p.column⟩

/-- The span `d` lines further down. -/
def Span.down (d : Nat) (s : Span) : Span := ⟨s.start.down d, s.stop.down d⟩

/-- The token `d` lines further down. -/
def Token.down (d : Nat) (t : Token) : Token := { t with pos := t.pos.down d }

theorem Position.next_down (d : Nat) (p : Position) (s : Symbol) :
    (p.down d).next s = (p.next s).down d := by
  unfold next
  split
  · exact congrArg (Position.mk · 1) (Int.add_right_comm _ _ _)
  · rfl

/-- A text takes as many lines and columns further down. -/
theorem Position.after_down (d : Nat) (p : Position) (l : List Symbol) :
    (p.down d).after l = (p.after l).down d := by
  induction l generalizing p with
  | nil => rfl
  | cons s l ih => rw [after_cons, after_cons, next_down, ih]

namespace Cursor

/-- Scanning from a lower line moves the tokens down. -/
theorem Scans.down {c : Cursor} {ts : List Token} {ending : Ending} (h : c.Scans ts ending)
    {stop : Position} (hending : ending = .finished stop) (d : Nat) :
    Scans ⟨c.rest, c.pos.down d⟩ (ts.map (Token.down d)) (.finished (stop.down d)) := by
  induction h with
  | finished hblank =>
    cases hending
    rw [← Position.after_down]
    exact .finished hblank
  | @token blanks raw after pos kind tokens ending hblank hspell _ ih =>
    have hmore := ih hending
    dsimp only at hmore
    -- blanks and token take the same room on every line
    rw [← Position.after_down, ← Position.after_down] at hmore
    have htoken : Token.down d (.ofRaw kind raw (pos.after blanks)) =
        .ofRaw kind raw ((pos.down d).after blanks) := by
      rw [Position.after_down]
      rfl
    rw [List.map_cons, htoken]
    exact .token hblank hspell hmore
  | unterminated _ _ => cases hending
  | unrecognized _ _ _ => cases hending

end Cursor

/-! ## §2. The seam. -/

/-- A run of digits or of parts of a word that ends, ends before a line feed too. -/
theorem not_goesOn_lineFeed {p : Symbol → Bool} (hp : p (.char '\n') = false)
    {after : List Symbol} (h : ¬ GoesOn p after) (more : List Symbol) :
    ¬ GoesOn p (after ++ .char '\n' :: more) := by
  cases after with
  | nil => exact not_goesOn_cons.2 hp
  | cons s after => exact not_goesOn_cons.2 (not_goesOn_cons.1 h)

/-- A token is the same token if a line feed and more comes after what follows it. -/
theorem TokenKind.Spelling.lineFeed {kind : TokenKind} {raw after : List Symbol}
    (h : kind.Spelling raw after) (more : List Symbol) :
    kind.Spelling raw (after ++ .char '\n' :: more) := by
  cases h with
  | mark hm => exact .mark hm
  | number hne hdigits hmax => exact .number hne hdigits (not_goesOn_lineFeed (by decide) hmax more)
  | word hstart hparts hmax => exact .word hstart hparts (not_goesOn_lineFeed (by decide) hmax more)
  | string hbody => exact .string hbody

theorem Blank.append {blanks more : List Symbol} (h : Blank blanks) (hmore : Blank more) :
    Blank (blanks ++ more) := by
  intro s hs
  rcases List.mem_append.1 hs with hs | hs
  · exact h s hs
  · exact hmore s hs

namespace Cursor

/-- Blanks in front of a text only take place. -/
theorem Scans.blank_append {blanks rest : List Symbol} {pos : Position} {ts : List Token}
    {ending : Ending} (hblank : Blank blanks) (h : Scans ⟨rest, pos.after blanks⟩ ts ending) :
    Scans ⟨blanks ++ rest, pos⟩ ts ending := by
  generalize hplace : pos.after blanks = place at h
  cases h with
  | @finished more _ hmore =>
    rw [← hplace, ← Position.after_append]
    exact .finished (hblank.append hmore)
  | @token more raw after _ kind tokens _ hmore hspell hrest =>
    rw [← hplace, ← Position.after_append pos] at hrest ⊢
    rw [← List.append_assoc]
    exact .token (hblank.append hmore) hspell hrest
  | @unterminated more body _ hmore hbody =>
    rw [← hplace, ← Position.after_append, ← List.append_assoc]
    exact .unterminated (hblank.append hmore) hbody
  | @unrecognized more s after _ hmore hs hbegins =>
    rw [← hplace, ← Position.after_append, ← List.append_assoc]
    exact .unrecognized (hblank.append hmore) hs hbegins

/-- **Scans that finish can be joined at a line feed**, which opens the line that the second
    of them begins in. -/
theorem Scans.lineFeed {c : Cursor} {ts : List Token} {ending : Ending} (h : c.Scans ts ending)
    {stop : Position} (hending : ending = .finished stop) {more : List Symbol} {us : List Token}
    {last : Ending} (hmore : Scans ⟨more, ⟨stop.line + 1, 1⟩⟩ us last) :
    Scans ⟨c.rest ++ .char '\n' :: more, c.pos⟩ (ts ++ us) last := by
  induction h with
  | @finished blanks pos hblank =>
    cases hending
    -- the line feed is one more blank before the second text
    have hline : Blank (blanks ++ [.char '\n']) :=
      hblank.append (List.forall_mem_singleton.2 (by decide))
    have hplace : pos.after (blanks ++ [.char '\n']) = ⟨(pos.after blanks).line + 1, 1⟩ := by
      rw [Position.after_append]
      rfl
    rw [← hplace] at hmore
    have hjoined := hmore.blank_append hline
    rw [List.append_assoc] at hjoined
    exact hjoined
  | @token blanks raw after pos kind tokens ending hblank hspell _ ih =>
    have hrest := ih hending
    dsimp only at hrest ⊢
    rw [List.append_assoc, List.append_assoc, List.cons_append]
    exact .token hblank (hspell.lineFeed more) hrest
  | unterminated _ _ => cases hending
  | unrecognized _ _ _ => cases hending

end Cursor

/-! ## §3. Texts below each other. -/

/-- A line feed belongs to no character that began before it. -/
theorem Text.symbols_lineFeed (t more : Text) :
    (t ++ "\n" ++ more).symbols = t.symbols ++ .char '\n' :: more.symbols := by
  rw [List.append_assoc]
  show (t ++ 0x0A :: more).symbols = _
  rw [symbols_append (startsFresh_cons (by decide)), symbols_ascii_cons (by decide)]
  rfl

/-- A text ends in the line that its line feeds lead to. -/
theorem Cursor.Scans.stop_line {t : Text} {ts : List Token} {stop : Position}
    (h : (ofText t).Scans ts (.finished stop)) : stop.line = 1 + t.count 0x0A := by
  obtain ⟨_, _, _, rfl, _⟩ := h.pieces rfl (List.nil_append t.symbols).symm rfl
  rfl

/-- **A text below another.**  Under `d` lines, the tokens of the first text stand `d` lines
    further down, and those of the second below the line feeds of the first. -/
theorem Cursor.scans_below {t more : Text} {ts us : List Token} {stop : Position}
    {last : Ending} (h : (ofText t).Scans ts (.finished stop)) (d : Nat)
    (hmore : Scans ⟨more.symbols, Position.first.down (d + t.count 0x0A + 1)⟩ us last) :
    Scans ⟨(t ++ "\n" ++ more).symbols, Position.first.down d⟩ (ts.map (Token.down d) ++ us)
      last := by
  have hplace : Position.first.down (d + t.count 0x0A + 1) = ⟨(stop.down d).line + 1, 1⟩ := by
    unfold Position.down Position.first
    rw [h.stop_line]
    congr 1
    dsimp only
    omega
  rw [hplace] at hmore
  rw [Text.symbols_lineFeed]
  exact (h.down rfl d).lineFeed rfl hmore

end Scriptorium
