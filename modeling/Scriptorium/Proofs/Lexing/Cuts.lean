/-
  Scriptorium.Proofs.Lexing.Cuts: tokens that are cut out of a text.

  Places go up along a text, so no two of its tokens have the same place, and a place says
  where the text can be cut.  What stands between the first symbol of one token and the last
  symbol of another is a text by itself, and it has exactly the tokens that stood there.

  `Token.stop` takes a token to stand on one line.  The place that the scanner has just past
  a token is `Token.past`, and the two differ for strings with a line feed in them.

  Main results:
    * `tokenize_ordered`: the places of tokens go up.
    * `Token.past_eq_stop_iff`: when the place just past a token is the one that is assumed.
    * `tokenize_between`: cutting out a stretch of tokens.
-/

import Scriptorium.Proofs.Printing.Legible

namespace Scriptorium

/-! ## §1. The order of places. -/

namespace Position

/-- Whether a place comes before another one. -/
def Before (p q : Position) : Prop := p.line < q.line ∨ p.line = q.line ∧ p.column < q.column

theorem Before.trans {p q r : Position} (h : p.Before q) (h' : q.Before r) : p.Before r := by
  unfold Before at h h' ⊢
  omega

theorem Before.ne {p q : Position} (h : p.Before q) : p ≠ q := by
  rintro rfl
  unfold Before at h
  omega

theorem before_next (p : Position) (s : Symbol) : p.Before (p.next s) := by
  unfold Before next
  by_cases hs : s.isChar '\n' = true
  · rw [if_pos hs]
    left
    show p.line < p.line + 1
    omega
  · rw [if_neg hs]
    right
    show p.line = p.line ∧ p.column < p.column + 1
    omega

/-- Moving past something is moving on. -/
theorem before_after {p : Position} {l : List Symbol} (hne : l ≠ []) : p.Before (p.after l) := by
  induction l generalizing p with
  | nil => exact absurd rfl hne
  | cons s l ih =>
    rw [after_cons]
    cases l with
    | nil => exact p.before_next s
    | cons t l => exact (p.before_next s).trans (ih (List.cons_ne_nil t l))

/-- What has no line feed takes one column for every symbol. -/
theorem after_of_staysOnLine {p : Position} {l : List Symbol}
    (h : ∀ s ∈ l, s.isChar '\n' = false) : p.after l = ⟨p.line, p.column + l.length⟩ := by
  induction l generalizing p with
  | nil =>
    show p = ⟨p.line, p.column + 0⟩
    rw [Int.add_zero]
  | cons s l ih =>
    obtain ⟨hs, hl⟩ := List.forall_mem_cons.1 h
    have hnext : p.next s = ⟨p.line, p.column + 1⟩ := by
      unfold next
      rw [hs]
      rfl
    rw [after_cons, ih hl, hnext]
    simp only [List.length_cons, mk.injEq, true_and]
    omega

/-- Lines are never left backwards. -/
theorem line_le_after (p : Position) (l : List Symbol) : p.line ≤ (p.after l).line := by
  induction l generalizing p with
  | nil => exact Int.le_refl _
  | cons s l ih =>
    have hstep : p.line ≤ (p.next s).line := by
      unfold next
      split
      · show p.line ≤ p.line + 1
        omega
      · exact Int.le_refl _
    exact Int.le_trans hstep (ih (p.next s))

/-- A line feed leads to a later line. -/
theorem line_lt_after {p : Position} {l : List Symbol} (h : ∃ s ∈ l, s.isChar '\n' = true) :
    p.line < (p.after l).line := by
  obtain ⟨s, hs, hline⟩ := h
  obtain ⟨before, after, rfl⟩ := List.append_of_mem hs
  rw [after_append, after_cons]
  have hfirst := p.line_le_after before
  have hlast := ((p.after before).next s).line_le_after after
  have hnext : ((p.after before).next s).line = (p.after before).line + 1 := by
    unfold next
    rw [if_pos hline]
  omega

end Position

/-! ## §2. Tokens in order. -/

namespace Cursor

/-- Every token stands further on in the text, and so does its end. -/
theorem Scans.exists_after {c : Cursor} {ts : List Token} {ending : Ending} {stop : Position}
    (h : c.Scans ts ending) (hending : ending = .finished stop) :
    ∀ t ∈ ts ++ [.atEnd stop], ∃ l, t.pos = c.pos.after l := by
  induction h with
  | @finished blanks pos _ =>
    cases hending
    exact List.forall_mem_singleton.2 ⟨blanks, rfl⟩
  | @token blanks raw _ pos _ _ _ _ _ _ ih =>
    rw [List.cons_append, List.forall_mem_cons]
    refine ⟨⟨blanks, rfl⟩, fun t ht => ?_⟩
    obtain ⟨l, hl⟩ := ih hending t ht
    refine ⟨blanks ++ (raw ++ l), ?_⟩
    rw [hl, Position.after_append, Position.after_append]
  | unterminated _ _ => cases hending
  | unrecognized _ _ _ => cases hending

/-- The places of tokens go up, to the end of the input. -/
theorem Scans.ordered {c : Cursor} {ts : List Token} {ending : Ending} {stop : Position}
    (h : c.Scans ts ending) (hending : ending = .finished stop) :
    List.Pairwise (fun t u : Token => t.pos.Before u.pos) (ts ++ [.atEnd stop]) := by
  induction h with
  | finished _ => exact List.pairwise_singleton _ _
  | @token blanks raw _ pos _ _ _ _ hspell hmore ih =>
    rw [List.cons_append, List.pairwise_cons]
    refine ⟨fun u hu => ?_, ih hending⟩
    -- there is the token's own text between the two
    obtain ⟨l, hl⟩ := hmore.exists_after hending u hu
    rw [hl, ← Position.after_append]
    exact Position.before_after (by simp [hspell.ne_nil])
  | unterminated _ _ => cases hending
  | unrecognized _ _ _ => cases hending

end Cursor

/-- **The places of the tokens of a text go up.** -/
theorem tokenize_ordered {source : Text} {tokens : List Token}
    (h : tokenize source = .ok tokens) : tokens.Pairwise fun t u => t.pos.Before u.pos := by
  obtain ⟨ts, stop, hscan, rfl⟩ := tokenize_eq_ok_iff.1 h
  exact hscan.ordered rfl

/-! ## §3. The end of a token. -/

namespace Token

/-- The place that the scanner has just past the token. -/
def past (t : Token) : Position := t.pos.after t.raw.symbols

/-- A token takes one column for every symbol it is written with. -/
theorem width_eq (t : Token) : t.width = t.raw.symbols.length := by
  unfold width raw
  cases t.kind with
  | string =>
    show t.lexeme.symbolCount + 2 = (Text.symbols (0x22 :: (t.lexeme ++ [0x22]))).length
    rw [symbols_quoted]
    simp [Text.symbolCount]
  | endOfInput => rw [Text.symbols_nil]; rfl
  | _ => rfl

/-- A text has a line feed among its symbols if it has one among its bytes. -/
theorem exists_lineFeed_iff (t : Text) :
    (∃ s ∈ t.symbols, s.isChar '\n' = true) ↔ 0x0A ∈ t := by
  have hcount := Text.count_lineFeed (Text.not_stray_of_ascii (t := t) (b := 0x0A) (by decide))
  rw [Text.ofSymbols_symbols] at hcount
  rw [← List.countP_pos_iff, ← hcount, List.count_pos_iff]

/-- A token has line feeds in its text only. -/
theorem lineFeed_mem_raw {t : Token} (ht : t.kind ≠ .endOfInput) :
    0x0A ∈ t.raw ↔ 0x0A ∈ t.lexeme := by
  unfold raw
  cases hk : t.kind with
  | string => simp
  | endOfInput => exact absurd hk ht
  | _ => rfl

/-- **The end of a token is taken to lie on its line**, and that is right unless there is a
    line feed in it. -/
theorem past_eq_stop_iff {t : Token} (ht : t.kind ≠ .endOfInput) :
    t.past = t.stop ↔ 0x0A ∉ t.lexeme := by
  rw [← lineFeed_mem_raw ht, ← exists_lineFeed_iff]
  unfold past stop
  rw [width_eq]
  constructor
  · intro h hline
    have hlt := Position.line_lt_after (p := t.pos) hline
    rw [h] at hlt
    exact Int.lt_irrefl _ hlt
  · intro h
    refine Position.after_of_staysOnLine fun s hs => ?_
    rw [← Bool.not_eq_true]
    exact fun hline => h ⟨s, hs, hline⟩

/-- The scanner stands just past a token that it has read. -/
theorem past_ofRaw {kind : TokenKind} {raw after : List Symbol} (h : kind.Spelling raw after)
    {src : Text} {pre : List Symbol} (hsrc : src.symbols = pre ++ (raw ++ after))
    (pos : Position) : (ofRaw kind raw pos).past = pos.after raw := by
  unfold past
  rw [(raw_ofRaw h hsrc pos).1]
  rw [← List.append_assoc] at hsrc
  rw [Text.symbols_ofSymbols_right (Text.symbols_ofSymbols_left hsrc)]
  rfl

end Token

/-! ## §4. Stretches of a scan. -/

namespace Cursor

/-- A scan passes each of its tokens: from there it goes on with that token. -/
theorem Scans.skip {ts us : List Token} {t : Token} {ending : Ending} :
    ∀ {c : Cursor}, c.Scans (ts ++ t :: us) ending → ∃ passed rest, c.rest = passed ++ rest ∧
      t.pos = c.pos.after passed ∧ Scans ⟨rest, t.pos⟩ (t :: us) ending := by
  induction ts with
  | nil =>
    intro c h
    cases h with
    | @token blanks raw after pos kind _ _ _ hspell hmore =>
      refine ⟨blanks, raw ++ after, rfl, rfl, ?_⟩
      have hnone : Blank [] := List.forall_mem_nil _
      exact .token hnone hspell hmore
  | cons u ts ih =>
    intro c h
    cases h with
    | @token blanks raw after pos kind _ _ _ hspell hmore =>
      obtain ⟨passed, rest, hrest, hpos, hscan⟩ := ih hmore
      dsimp only at hrest hpos
      refine ⟨blanks ++ (raw ++ passed), rest, ?_, ?_, hscan⟩
      · simp [hrest]
      · rw [hpos, Position.after_append, Position.after_append]

/-- A scan of the text up to the end of one of its tokens finishes there. -/
theorem Scans.upTo {src : Text} {ts us : List Token} {ending : Ending} :
    ∀ {c : Cursor} {pre : List Symbol}, src.symbols = pre ++ c.rest →
      c.Scans (ts ++ us) ending → ∃ taken rest, c.rest = taken ++ rest ∧
        Scans ⟨taken, c.pos⟩ ts (.finished (c.pos.after taken)) ∧
        (ts = [] → taken = []) ∧ ∀ last ∈ ts.getLast?, c.pos.after taken = last.past := by
  induction ts with
  | nil =>
    intro c pre _ _
    exact ⟨[], c.rest, rfl, .finished (List.forall_mem_nil _), fun _ => rfl, by simp⟩
  | cons t ts ih =>
    intro c pre hsrc h
    cases h with
    | @token blanks raw after pos kind _ _ hblank hspell hmore =>
      dsimp only at hsrc
      have htoken : src.symbols = (pre ++ blanks) ++ (raw ++ after) := by
        rw [hsrc, List.append_assoc]
      have hbehind : src.symbols = (pre ++ blanks ++ raw) ++ after := by
        rw [htoken, List.append_assoc (pre ++ blanks)]
      have hpast := Token.past_ofRaw hspell htoken (pos.after blanks)
      obtain ⟨taken, rest, hrest, hscan, hnil, hlast⟩ := ih hbehind hmore
      dsimp only at hrest hscan hlast
      subst hrest
      refine ⟨blanks ++ (raw ++ taken), rest, by simp, ?_, by simp, ?_⟩
      · simp only [Position.after_append]
        exact .token hblank hspell.of_append hscan
      · intro last hmem
        simp only [Position.after_append]
        cases ts with
        | nil =>
          -- the token is the last one, and nothing is taken behind it
          cases hmem
          rw [hnil rfl]
          exact hpast.symm
        | cons u ts => exact hlast last (by simpa using hmem)

/-- A text has the same signs wherever it begins. -/
theorem Scans.moved {c : Cursor} {ts : List Token} {ending : Ending} {stop : Position}
    (h : c.Scans ts ending) (hending : ending = .finished stop) (place : Position) :
    ∃ us, Scans ⟨c.rest, place⟩ us (.finished (place.after c.rest)) ∧
      us.map Token.sign = ts.map Token.sign := by
  induction h generalizing place with
  | finished hblank => exact ⟨[], .finished hblank, rfl⟩
  | @token blanks raw _ pos kind tokens _ hblank hspell _ ih =>
    obtain ⟨us, hscan, hsigns⟩ := ih hending ((place.after blanks).after raw)
    refine ⟨.ofRaw kind raw (place.after blanks) :: us, ?_, ?_⟩
    · simp only [Position.after_append]
      exact .token hblank hspell hscan
    · rw [List.map_cons, List.map_cons, hsigns]
      rfl
  | unterminated _ _ => cases hending
  | unrecognized _ _ _ => cases hending

end Cursor

/-! ## §5. Cutting a text. -/

/-- What is left of a text that begins at a place, from the place `target` on. -/
def symbolsFrom (target : Position) : Position → List Symbol → List Symbol
  | _, [] => []
  | pos, s :: l => if pos = target then s :: l else symbolsFrom target (pos.next s) l

/-- What a text that begins at a place has before the place `target`. -/
def symbolsBefore (target : Position) : Position → List Symbol → List Symbol
  | _, [] => []
  | pos, s :: l => if pos = target then [] else s :: symbolsBefore target (pos.next s) l

/-- What stands in the text from the start of the span to its end. -/
def Text.between (t : Text) (span : Span) : Text :=
  .ofSymbols (symbolsBefore span.stop span.start (symbolsFrom span.start .first t.symbols))

/-- No place is met before it is reached. -/
theorem Position.ne_after_cons (pos : Position) (s : Symbol) (l : List Symbol) :
    pos ≠ (pos.next s).after l :=
  (before_after (p := pos) (List.cons_ne_nil s l)).ne

theorem symbolsFrom_after (pos : Position) (l rest : List Symbol) :
    symbolsFrom (pos.after l) pos (l ++ rest) = rest := by
  induction l generalizing pos with
  | nil =>
    cases rest with
    | nil => rfl
    | cons s rest => exact if_pos rfl
  | cons s l ih =>
    rw [Position.after_cons, List.cons_append, symbolsFrom, if_neg (pos.ne_after_cons s l)]
    exact ih (pos.next s)

theorem symbolsBefore_after (pos : Position) (l rest : List Symbol) :
    symbolsBefore (pos.after l) pos (l ++ rest) = l := by
  induction l generalizing pos with
  | nil =>
    cases rest with
    | nil => rfl
    | cons s rest => exact if_pos rfl
  | cons s l ih =>
    rw [Position.after_cons, List.cons_append, symbolsBefore, if_neg (pos.ne_after_cons s l)]
    rw [ih (pos.next s)]

/-- **Cutting out a stretch of tokens.**  What stands between the first symbol of a stretch
    of tokens and the place that the scanner has just past it is a text with exactly these
    tokens. -/
theorem tokenize_between {source : Text} {left used right : List Token} {first last : Token}
    (h : tokenize source = .ok (left ++ first :: used ++ right))
    (hlast : (first :: used).getLast? = some last) (hright : right ≠ []) :
    ∃ us, tokenize (source.between ⟨first.pos, last.past⟩) = .ok us ∧
      us.map Token.sign = (first :: used ++ [Token.atEnd .unknown]).map Token.sign := by
  obtain ⟨ts, stop, hscan, htokens⟩ := tokenize_eq_ok_iff.1 h
  -- the stretch ends before the end of the input
  obtain ⟨more, final, rfl⟩ : ∃ more final, right = more ++ [final] :=
    ⟨_, _, (List.dropLast_append_getLast hright).symm⟩
  obtain ⟨rfl, _⟩ : left ++ first :: (used ++ more) = ts ∧ [final] = [Token.atEnd stop] :=
    List.append_inj' (by simpa using htokens) rfl
  obtain ⟨passed, rest, hrest, hpos, hbehind⟩ := hscan.skip
  have hsrc : source.symbols = passed ++ rest := hrest
  replace hbehind : Cursor.Scans ⟨rest, first.pos⟩ ((first :: used) ++ more) (.finished stop) :=
    hbehind
  obtain ⟨taken, after, htaken, hcut, _, hpast⟩ := Cursor.Scans.upTo hsrc hbehind
  dsimp only at htaken hcut hpast
  have hsplit : source.symbols = passed ++ taken ++ after := by
    rw [hsrc, htaken, List.append_assoc]
  have hbetween : source.between ⟨first.pos, last.past⟩ = .ofSymbols taken := by
    unfold Text.between
    dsimp only
    rw [← hpast last hlast, hsrc, hpos]
    show Text.ofSymbols (symbolsBefore _ _ (symbolsFrom (Position.first.after passed) _ _)) = _
    rw [symbolsFrom_after, htaken, symbolsBefore_after]
  obtain ⟨us, hus, hsigns⟩ := hcut.moved rfl .first
  refine ⟨us ++ [.atEnd (Position.first.after taken)], ?_, ?_⟩
  · rw [hbetween]
    refine tokenize_eq_ok_iff.2 ⟨us, _, ?_, rfl⟩
    unfold Cursor.ofText
    rw [Text.symbols_ofSymbols_right (Text.symbols_ofSymbols_left hsplit)]
    exact hus
  · rw [List.map_append, List.map_append, hsigns]
    rfl

end Scriptorium
