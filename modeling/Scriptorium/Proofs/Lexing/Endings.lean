/-
  Scriptorium.Proofs.Lexing.Endings: how reading tokens goes on for ever.

  A reader may ask for the next token as often as it likes.  It gets the tokens of the text,
  finitely many, and then always the same: the end of the input, or the complaint about a
  symbol that begins no token, which is not passed; or one complaint about a string without
  an end, which takes all that is left, and then the end of the input.  Which of the three it
  is depends on what stands first behind the last token and the blanks after it.

  A cursor only ever moves forward, so the place that it has can be computed from the bytes
  that it has passed, at any time.

  Main results:
    * `Cursor.next_moves`: whatever is answered, the cursor has moved past some symbols.
    * `Cursor.Scans.readings`: a scan is the readings up to its last token.
    * `Cursor.outcomes_of_settled`: what is answered where reading moves no more.
    * `reading_settles`: the answers to all requests, for every text.
-/

import Mathlib.Logic.Function.Iterate
import Scriptorium.Proofs.Lexing.Layout

namespace Scriptorium

/-! ## §1. Cursors that move. -/

/-- No symbol is written with nothing. -/
theorem Symbol.bytes_ne_nil (s : Symbol) : s.bytes ≠ [] := by
  cases s with
  | char c =>
    obtain ⟨b, tail, hbytes, _⟩ := Text.utf8EncodeChar_eq_cons c
    show String.utf8EncodeChar c ≠ []
    rw [hbytes]
    exact List.cons_ne_nil b tail
  | stray b => exact List.cons_ne_nil b []

theorem Text.ofSymbols_ne_nil {l : List Symbol} (h : l ≠ []) : Text.ofSymbols l ≠ [] := by
  cases l with
  | nil => exact absurd rfl h
  | cons s l =>
    rw [Text.ofSymbols_cons]
    exact fun hnil => s.bytes_ne_nil (List.append_eq_nil_iff.1 hnil).1

namespace Cursor

/-- The cursor after so many tokens were asked for. -/
def afterReading (n : Nat) (c : Cursor) : Cursor := (fun c => c.next.2)^[n] c

/-- The bytes that are left to read. -/
def bytes (c : Cursor) : Text := Text.ofSymbols c.rest

/-- Whether one gets from the first cursor to the second by passing symbols. -/
def MovesTo (c d : Cursor) : Prop :=
  ∃ passed, c.rest = passed ++ d.rest ∧ d.pos = c.pos.after passed

variable {c d d' : Cursor} {tokens : List Token} {ending : Ending}

theorem afterReading_succ (n : Nat) (c : Cursor) :
    c.afterReading (n + 1) = c.next.2.afterReading n :=
  Function.iterate_succ_apply _ n c

theorem afterReading_add (n k : Nat) (c : Cursor) :
    c.afterReading (n + k) = (c.afterReading n).afterReading k := by
  unfold afterReading
  rw [Nat.add_comm, Function.iterate_add_apply]

theorem afterReading_succ' (n : Nat) (c : Cursor) :
    c.afterReading (n + 1) = (c.afterReading n).next.2 :=
  Function.iterate_succ_apply' _ n c

theorem outcomes_succ (n : Nat) (c : Cursor) :
    c.outcomes (n + 1) = c.next.1 :: c.next.2.outcomes n :=
  rfl

theorem MovesTo.trans (h : c.MovesTo d) (h' : d.MovesTo d') : c.MovesTo d' := by
  obtain ⟨passed, hrest, hpos⟩ := h
  obtain ⟨passed', hrest', hpos'⟩ := h'
  refine ⟨passed ++ passed', ?_, ?_⟩
  · rw [hrest, hrest', List.append_assoc]
  · rw [hpos', hpos, Position.after_append]

/-- A cursor with fewer symbols left has passed bytes. -/
theorem MovesTo.exists_taken (h : c.MovesTo d) (hlt : d.rest.length < c.rest.length) :
    ∃ taken, taken ≠ [] ∧ c.bytes = taken ++ d.bytes := by
  obtain ⟨passed, hrest, _⟩ := h
  refine ⟨Text.ofSymbols passed, Text.ofSymbols_ne_nil ?_, ?_⟩
  · rintro rfl
    rw [hrest] at hlt
    exact absurd hlt (Nat.lt_irrefl _)
  · unfold bytes
    rw [hrest, Text.ofSymbols_append]

/-- **A cursor stands in the text that it moves along**: its place, and that of anything
    further on, is that of the bytes before. -/
theorem MovesTo.exists_read {src : Text} (h : (Cursor.ofText src).MovesTo d)
    {blanks rest : List Symbol} (hrest : d.rest = blanks ++ rest) :
    ∃ read : Text, src = read ++ (Text.ofSymbols blanks ++ Text.ofSymbols rest) ∧
      (Text.ofSymbols rest).symbols = rest ∧
      d.pos.after blanks = (read ++ Text.ofSymbols blanks).placeAfter ∧
      (d.pos.after blanks).after rest = src.placeAfter := by
  obtain ⟨passed, hpassed, hpos⟩ := h
  replace hpassed : src.symbols = passed ++ blanks ++ rest := by
    rw [List.append_assoc, ← hrest]
    exact hpassed
  replace hpos : d.pos.after blanks = Position.first.after (passed ++ blanks) := by
    rw [hpos, Position.after_append]
    rfl
  refine ⟨Text.ofSymbols passed, ?_, Text.symbols_ofSymbols_right hpassed, ?_, ?_⟩
  · rw [← List.append_assoc, ← Text.ofSymbols_append, ← Text.ofSymbols_append, ← hpassed,
      Text.ofSymbols_symbols]
  · rw [hpos, ← Text.ofSymbols_append, first_after_eq_placeAfter hpassed]
  · have hwhole := first_after_eq_placeAfter (List.append_nil src.symbols).symm
    rw [hpos, ← Position.after_append, ← hpassed, hwhole, Text.ofSymbols_symbols]

/-- **Whatever is answered, the cursor has moved past some symbols**, or none. -/
theorem next_moves (c : Cursor) : c.MovesTo c.next.2 := by
  obtain ⟨blanks, rest, hc, hblank, hend⟩ := exists_blank_append c.rest
  obtain ⟨l, pos⟩ := c
  dsimp only at hc
  subst hc
  cases rest with
  | nil =>
    rw [List.append_nil, next_of_blank hblank]
    exact ⟨blanks, (List.append_nil blanks).symm, rfl⟩
  | cons s rest =>
    rw [next_of_cons hblank (not_goesOn_cons.1 hend)]
    cases hlex : lexeme s rest with
    | token kind raw after =>
      refine ⟨blanks ++ raw, ?_, ?_⟩
      · show blanks ++ s :: rest = blanks ++ raw ++ after
        rw [← (lexeme_token_append hlex).1, List.append_assoc]
      · show (pos.after blanks).after raw = _
        rw [Position.after_append]
    | unterminated =>
      refine ⟨blanks ++ s :: rest, (List.append_nil _).symm, ?_⟩
      show (pos.after blanks).after (s :: rest) = _
      rw [Position.after_append]
    | unrecognized => exact ⟨blanks, rfl, rfl⟩

/-- So it is after any number of requests. -/
theorem afterReading_moves (n : Nat) (c : Cursor) : c.MovesTo (c.afterReading n) := by
  induction n generalizing c with
  | zero => exact ⟨[], rfl, rfl⟩
  | succ n ih =>
    rw [afterReading_succ]
    exact c.next_moves.trans (ih c.next.2)

/-! ## §2. The tokens. -/

/-- **A scan is the readings up to its last token**: every token is an answer and takes a
    symbol at least, and where the last one ends there is nothing more to scan. -/
theorem Scans.readings (h : c.Scans tokens ending) :
    (∀ n, c.outcomes (tokens.length + n) =
      tokens.map .ok ++ (c.afterReading tokens.length).outcomes n) ∧
    (∀ n < tokens.length, (c.afterReading (n + 1)).rest.length < (c.afterReading n).rest.length) ∧
    (c.afterReading tokens.length).Scans [] ending := by
  induction tokens generalizing c with
  | nil =>
    refine ⟨fun n => ?_, nofun, h⟩
    rw [List.length_nil, Nat.zero_add]
    rfl
  | cons t tokens ih =>
    cases h with
    | @token blanks raw after pos kind _ _ hblank hspell hmore =>
      obtain ⟨hanswers, hshorter, hrest⟩ := ih hmore
      have hnext : next ⟨blanks ++ (raw ++ after), pos⟩ = _ := next_of_token hblank hspell
      have hfurther : ∀ n, afterReading (n + 1) ⟨blanks ++ (raw ++ after), pos⟩ =
          afterReading n ⟨after, (pos.after blanks).after raw⟩ := by
        intro n
        rw [afterReading_succ, hnext]
      refine ⟨?_, ?_, ?_⟩
      · intro n
        rw [List.length_cons, Nat.add_right_comm, outcomes_succ, hfurther, hnext, hanswers n]
        rfl
      · intro n hn
        rw [hfurther]
        cases n with
        | zero => exact next_rest_lt hnext hspell.kind_ne_endOfInput
        | succ n =>
          rw [hfurther]
          exact hshorter n (Nat.lt_of_succ_lt_succ hn)
      · rw [List.length_cons, hfurther]
        exact hrest

/-! ## §3. What comes after the tokens. -/

/-- What is answered for ever when there are no more tokens. -/
inductive Tail where
  /-- The end of the input, at the same place each time. -/
  | finished (stop : Position)
  /-- The same complaint about the same symbol each time. -/
  | unrecognized (s : Symbol) (pos : Position)
  /-- One complaint about a string without an end, and then the end of the input. -/
  | unterminated (opening stop : Position)
deriving DecidableEq, Repr

namespace Tail

/-- The answers, counted from zero. -/
def answer : Tail → Nat → Except Error Token
  | .finished stop, _ => .ok (.atEnd stop)
  | .unrecognized s pos, _ => .error ⟨.unrecognized s, pos⟩
  | .unterminated opening _, 0 => .error ⟨.unterminatedString, opening⟩
  | .unterminated _ stop, _ + 1 => .ok (.atEnd stop)

/-- What is left to read after the first answer, if `rest` stood behind the last token and
    the blanks after it: a symbol that begins no token is not passed. -/
def leaves {α : Type} : Tail → (rest : List α) → List α
  | .unrecognized _ _, rest => rest
  | _, _ => []

/-- `tail.Fits rest pos`: the answers where `rest` stands at the place `pos`. -/
inductive Fits : Tail → (rest : List Symbol) → (pos : Position) → Prop where
  | finished {pos} : Fits (.finished pos) [] pos
  | unrecognized {s rest pos} (notBlank : s.isBlank = false) (begins : ¬ s.BeginsToken) :
      Fits (.unrecognized s pos) (s :: rest) pos
  | unterminated {body pos} (unquoted : ∀ s ∈ body, s ≠ Symbol.quote) :
      Fits (.unterminated pos (pos.after (.quote :: body))) (.quote :: body) pos

end Tail

/-- **What is answered where reading moves no more**: the answer there, after the one that
    led there. -/
theorem outcomes_of_settled {r : Except Error Token} (answer : Nat → Except Error Token)
    (hfirst : d.next = (answer 0, d')) (hfixed : d'.next = (r, d'))
    (hr : ∀ n, answer (n + 1) = r) :
    (∀ n, d.outcomes n = (List.range n).map answer) ∧ ∀ n, d.afterReading (n + 1) = d' := by
  have hstays : ∀ n, d'.outcomes n = (List.range n).map fun k => answer (k + 1) := by
    intro n
    simp only [hr, List.map_const', List.length_range]
    induction n with
    | zero => rfl
    | succ n ih => rw [outcomes_succ, hfixed, ih, List.replicate_succ]
  constructor
  · intro n
    cases n with
    | zero => rfl
    | succ n =>
      rw [outcomes_succ, hfirst, hstays, List.range_succ_eq_map, List.map_cons, List.map_map]
      rfl
  · intro n
    have hfix : (fun c : Cursor => c.next.2) d' = d' := congrArg Prod.snd hfixed
    rw [afterReading_succ, hfirst]
    exact Function.iterate_fixed hfix n

/-- Where no token is left, reading settles at once. -/
theorem Scans.settles (h : d.Scans [] ending) :
    ∃ (blanks rest : List Symbol) (tail : Tail), d.rest = blanks ++ rest ∧ Blank blanks ∧
      tail.Fits rest (d.pos.after blanks) ∧
      (∀ n, d.outcomes n = (List.range n).map tail.answer) ∧
      ∀ n, (d.afterReading (n + 1)).rest = tail.leaves rest := by
  -- at the end of the text nothing is left to pass
  have hatEnd : ∀ pos, next ⟨[], pos⟩ = (.ok (.atEnd pos), ⟨[], pos⟩) :=
    fun _ => next_of_blank (List.forall_mem_nil _)
  cases h with
  | @finished blanks pos hblank =>
    let tail := Tail.finished (pos.after blanks)
    obtain ⟨hanswers, hafter⟩ := outcomes_of_settled tail.answer (next_of_blank hblank)
      (hatEnd _) fun _ => rfl
    refine ⟨blanks, [], tail, (List.append_nil blanks).symm, hblank, .finished, hanswers, ?_⟩
    intro n
    rw [hafter]
    rfl
  | @unterminated blanks body pos hblank hbody =>
    let stop := (pos.after blanks).after (.quote :: body)
    let tail := Tail.unterminated (pos.after blanks) stop
    have hnext : next ⟨blanks ++ .quote :: body, pos⟩ = (tail.answer 0, ⟨[], stop⟩) := by
      rw [next_of_cons hblank (by decide), lexeme_eq_unterminated_iff.2 ⟨rfl, hbody⟩]
      rfl
    obtain ⟨hanswers, hafter⟩ := outcomes_of_settled tail.answer hnext (hatEnd _) fun _ => rfl
    refine ⟨blanks, .quote :: body, tail, rfl, hblank, .unterminated hbody, hanswers, ?_⟩
    intro n
    rw [hafter]
    rfl
  | @unrecognized blanks s rest pos hblank hs hbegins =>
    let tail := Tail.unrecognized s (pos.after blanks)
    have hnext : ∀ {blanks pos}, Blank blanks → next ⟨blanks ++ s :: rest, pos⟩ =
        (.error ⟨.unrecognized s, pos.after blanks⟩, ⟨s :: rest, pos.after blanks⟩) := by
      intro blanks pos hblank
      rw [next_of_cons hblank hs, lexeme_eq_unrecognized_iff.2 hbegins]
    -- the second time there are no blanks before the symbol
    obtain ⟨hanswers, hafter⟩ := outcomes_of_settled tail.answer (hnext hblank)
      (hnext (List.forall_mem_nil _)) fun _ => rfl
    refine ⟨blanks, s :: rest, tail, rfl, hblank, .unrecognized hs hbegins, hanswers, ?_⟩
    intro n
    rw [hafter]
    rfl

/-- Where no token is left, the next answer decides what becomes of the tokens before. -/
theorem tokenize_of_scans {src : Text} (h : (Cursor.ofText src).Scans tokens ending)
    (hd : d.Scans [] ending) : tokenize src = d.next.1.map fun t => tokens ++ [t] := by
  unfold tokenize
  rw [h.scan_eq]
  cases hd with
  | finished hblank =>
    rw [next_of_blank hblank]
    rfl
  | unterminated hblank hbody =>
    rw [next_of_cons hblank (by decide), lexeme_eq_unterminated_iff.2 ⟨rfl, hbody⟩]
    rfl
  | unrecognized hblank hs hbegins =>
    rw [next_of_cons hblank hs, lexeme_eq_unrecognized_iff.2 hbegins]
    rfl

end Cursor

/-! ## §4. Reading settles. -/

/-- Whether the symbol is punctuation, an operator, an equals sign, a digit, a letter, an
    underscore or a double quote. -/
def Symbol.IsFamiliar (s : Symbol) : Prop :=
  ∃ c, s = .char c ∧ (c ∈ ['(', ')', '\x7b', '\x7d', '[', ']', ';', ',', ':', '.'] ∨
    c ∈ ['+', '-', '*', '/', '%'] ∨ c = '=' ∨ c.isDigit = true ∨ Text.isLetter c.toNat = true ∨
    c = '_' ∨ c = '"')

/-- These are the symbols that tokens begin with. -/
theorem Symbol.beginsToken_iff {s : Symbol} : s.BeginsToken ↔ s.IsFamiliar := by
  unfold BeginsToken IsFamiliar
  cases s with
  | stray b => simp [mark?, isDigit, isWordStart, quote]
  | char c =>
    have hmark : (Symbol.char c).mark?.isSome = true ↔ c ∈ markChars := by
      constructor
      · intro h
        obtain ⟨kind, hkind⟩ := Option.isSome_iff_exists.1 h
        obtain ⟨c', hc', heq⟩ := mem_markChars_of_mark? hkind
        cases heq
        exact hc'
      · intro h
        have hall : markChars.all (fun c => (Symbol.char c).mark?.isSome) = true := by decide
        exact List.all_eq_true.1 hall c h
    have hmarks : c ∈ markChars ↔ c ∈ ['(', ')', '\x7b', '\x7d', '[', ']', ';', ',', ':', '.'] ∨
        c ∈ ['+', '-', '*', '/', '%'] ∨ c = '=' := by
      simp [markChars, or_assoc]
    have hstart : (Symbol.char c).isWordStart = true ↔
        Text.isLetter c.toNat = true ∨ c = '_' := by
      simp [isWordStart, or_comm]
    simp only [hmark, hmarks, hstart, Symbol.char.injEq, exists_eq_left', isDigit, quote, or_assoc]

/-- Which answers come for ever, and when. -/
theorem Cursor.Tail.Fits.iffs {tail : Cursor.Tail} {rest : List Symbol} {pos : Position}
    (h : tail.Fits rest pos) :
    ¬ GoesOn Symbol.isBlank rest ∧
    (tail = .finished (pos.after rest) ↔ rest = []) ∧
    (∀ s, tail = .unrecognized s pos ↔ rest.head? = some s ∧ ¬ s.IsFamiliar) ∧
    (tail = .unterminated pos (pos.after rest) ↔
      ∃ body, rest = .quote :: body ∧ ∀ s ∈ body, s ≠ Symbol.quote) ∧
    (tail = .finished (pos.after rest) ∨ (∃ s, tail = .unrecognized s pos) ∨
      tail = .unterminated pos (pos.after rest)) := by
  simp only [← Symbol.beginsToken_iff]
  have hquote : Symbol.quote.BeginsToken := .inr (.inr (.inr rfl))
  cases h with
  | finished => simp [not_goesOn_nil]
  | @unrecognized s rest _ hblank hbegins =>
    have hother : s ≠ .quote := fun h => hbegins (h ▸ hquote)
    refine ⟨not_goesOn_cons.2 hblank, ?_, ?_, ?_, .inr (.inl ⟨s, rfl⟩)⟩
    · exact ⟨fun h => (nomatch h), fun h => (nomatch h)⟩
    · intro s'
      constructor
      · intro h
        cases h
        exact ⟨rfl, hbegins⟩
      · rintro ⟨h, _⟩
        cases h
        rfl
    · constructor
      · exact fun h => (nomatch h)
      · rintro ⟨body, h, _⟩
        exact absurd (List.cons.inj h).1 hother
  | @unterminated body _ hbody =>
    refine ⟨not_goesOn_cons.2 (by decide), ?_, ?_, ?_, .inr (.inr rfl)⟩
    · exact ⟨fun h => (nomatch h), fun h => (nomatch h)⟩
    · intro s
      constructor
      · exact fun h => (nomatch h)
      · rintro ⟨h, hbegins⟩
        cases h
        exact absurd hquote hbegins
    · exact ⟨fun _ => ⟨body, rfl, hbody⟩, fun _ => rfl⟩

/-- **Reading settles**, on every text of bytes.  First come the tokens, each of which takes
    a byte at least; then there are blanks, and `rest`, which begins with none.  From there on
    the answers are those of a tail: of the end of the input if nothing is left, of the symbol
    at the head if it is not a familiar one, of the string if there is a quote with no other
    behind it; and it is one of these.  The list of all tokens is refused with the first answer
    of the tail, or ends with it. -/
theorem reading_settles (src : Text) :
    ∃ (tokens : List Token) (read blanks rest : Text) (tail : Cursor.Tail),
      src = read ++ (blanks ++ rest) ∧ blanks.IsBlank ∧ ¬ GoesOn Symbol.isBlank rest.symbols ∧
      (∀ t ∈ tokens, t.kind ≠ .endOfInput) ∧
      (∀ n, (Cursor.ofText src).outcomes (tokens.length + n) =
        tokens.map .ok ++ (List.range n).map tail.answer) ∧
      (∀ n < tokens.length, ∃ taken, taken ≠ [] ∧ ((Cursor.ofText src).afterReading n).bytes =
        taken ++ ((Cursor.ofText src).afterReading (n + 1)).bytes) ∧
      ((Cursor.ofText src).afterReading tokens.length).bytes = blanks ++ rest ∧
      (∀ n, ((Cursor.ofText src).afterReading (tokens.length + (n + 1))).bytes =
        tail.leaves rest) ∧
      (tail = .finished src.placeAfter ↔ rest = []) ∧
      (∀ s, tail = .unrecognized s (read ++ blanks).placeAfter ↔
        rest.symbols.head? = some s ∧ ¬ s.IsFamiliar) ∧
      (tail = .unterminated (read ++ blanks).placeAfter src.placeAfter ↔
        ∃ body, rest.symbols = .quote :: body ∧ ∀ s ∈ body, s ≠ Symbol.quote) ∧
      (tail = .finished src.placeAfter ∨ (∃ s, tail = .unrecognized s (read ++ blanks).placeAfter) ∨
        tail = .unterminated (read ++ blanks).placeAfter src.placeAfter) ∧
      tokenize src = (tail.answer 0).map fun t => tokens ++ [t] := by
  obtain ⟨tokens, ending, hscans⟩ : ∃ tokens ending, (Cursor.ofText src).Scans tokens ending :=
    Cursor.exists_scans src.symbols .first
  obtain ⟨hanswers, hshorter, hlast⟩ := hscans.readings
  obtain ⟨blanks, rest, tail, hrest, hblank, hfits, htail, hleaves⟩ := hlast.settles
  obtain ⟨read, hsrc, hsymbols, hplace, hstop⟩ :=
    ((Cursor.ofText src).afterReading_moves tokens.length).exists_read hrest
  obtain ⟨hahead, hfinished, hunrecognized, hunterminated, hone⟩ := hfits.iffs
  rw [hstop] at hfinished hunterminated hone
  rw [hplace] at hunrecognized hunterminated hone
  rw [← hsymbols] at hahead hunrecognized hunterminated
  refine ⟨tokens, read, Text.ofSymbols blanks, Text.ofSymbols rest, tail, hsrc, hblank.isBlank,
    hahead, hscans.kind_ne_endOfInput, ?_, ?_, ?_, ?_, ?_, hunrecognized, hunterminated, hone, ?_⟩
  · intro n
    rw [hanswers, htail]
  · intro n hn
    have hmoves := ((Cursor.ofText src).afterReading n).next_moves
    rw [← Cursor.afterReading_succ'] at hmoves
    exact hmoves.exists_taken (hshorter n hn)
  · unfold Cursor.bytes
    rw [hrest, Text.ofSymbols_append]
  · intro n
    unfold Cursor.bytes
    rw [Cursor.afterReading_add, hleaves]
    cases tail <;> rfl
  · rw [hfinished]
    constructor
    · rintro rfl
      rfl
    · exact fun h => by_contra fun hne => Text.ofSymbols_ne_nil hne h
  · rw [Cursor.tokenize_of_scans hscans hlast]
    -- the first of the answers that are given for ever
    have hfirst := htail 1
    rw [Cursor.outcomes_succ] at hfirst
    rw [(List.cons.inj hfirst).1]

end Scriptorium
