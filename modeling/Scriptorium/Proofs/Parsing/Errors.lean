/-
  Scriptorium.Proofs.Parsing.Errors: where texts that cannot be read are faulty.

  A text is refused while it is cut into tokens or while these are read.  In the first
  case the fault is a symbol, and everything before it can be cut into tokens.  In the
  second case it is a token, or the end of the input.

  For the parser, `f.Within place` says that what is left of a feed lies at the places
  `place`, and `r.Within place` that the outcome of a parse function does: the feed that
  it leaves, or its complaint.  A parse function whose feed lies there has its outcome
  there.

  Main results:
    * `faulty_of_tokenize`: the symbol that cannot be read.
    * `refused_of_parse`: the symbol or token at which a text is refused.
-/

import Scriptorium.Proofs.Lexing.Layout
import Scriptorium.Proofs.Parsing.Program

namespace Scriptorium

/-! ## §1. Faulty symbols. -/

/-- Whether the error is about the first symbol of the text that cannot be read: the
    text before it has tokens and ends at the place of the error. -/
def Error.Faulty (e : Error) (source : Text) : Prop :=
  ∃ before s after, source.symbols = before ++ s :: after ∧
    (∃ tokens, tokenize (Text.ofSymbols before) = .ok tokens) ∧
    e.pos = (Text.ofSymbols before).placeAfter ∧
    (e.cause = .unrecognized s ∧ s.isBlank = false ∧ ¬ s.BeginsToken ∨
      e.cause = .unterminatedString ∧ s = .quote ∧ ∀ t ∈ after, t ≠ Symbol.quote)

theorem Error.Faulty.kind_eq {e : Error} {source : Text} (h : e.Faulty source) :
    e.cause.kind = .tokenize := by
  obtain ⟨_, _, _, _, _, _, ⟨hcause, _⟩ | ⟨hcause, _⟩⟩ := h
  · rw [hcause]
    rfl
  · rw [hcause]
    rfl

/-- A scan that fails stands before the symbol it fails at; up to there it would have
    finished. -/
theorem Cursor.Scans.fault {c after : Cursor} {ts : List Token} {ending : Ending} {e : Error}
    (h : c.Scans ts ending) (hending : ending = .failed e after) :
    ∃ before s rest, c.rest = before ++ s :: rest ∧
      Scans ⟨before, c.pos⟩ ts (.finished (c.pos.after before)) ∧ e.pos = c.pos.after before ∧
      (e.cause = .unrecognized s ∧ s.isBlank = false ∧ ¬ s.BeginsToken ∨
        e.cause = .unterminatedString ∧ s = .quote ∧ ∀ t ∈ rest, t ≠ Symbol.quote) := by
  induction h with
  | finished _ => cases hending
  | @token blanks raw _ pos kind tokens _ hblank hspell _ ih =>
    obtain ⟨before, s, rest, hrest, hscans, hpos, hcause⟩ := ih hending
    dsimp only at hrest
    subst hrest
    -- cutting the text off before the fault leaves this token as it is
    refine ⟨blanks ++ (raw ++ before), s, rest, ?_, ?_, ?_, hcause⟩
    · simp
    · simp only [Position.after_append]
      exact .token hblank hspell.of_append hscans
    · simp only [Position.after_append]
      exact hpos
  | @unterminated blanks body pos hblank hbody =>
    cases hending
    exact ⟨blanks, .quote, body, rfl, .finished hblank, rfl, .inr ⟨rfl, rfl, hbody⟩⟩
  | @unrecognized blanks s rest pos hblank hs hbegins =>
    cases hending
    exact ⟨blanks, s, rest, rfl, .finished hblank, rfl, .inl ⟨rfl, hs, hbegins⟩⟩

/-- What is wrong with a text that cannot be cut into tokens. -/
theorem faulty_of_tokenize {source : Text} {e : Error} (h : tokenize source = .error e) :
    e.Faulty source := by
  obtain ⟨ts, after, hscan⟩ := tokenize_eq_error_iff.1 h
  obtain ⟨before, s, rest, hrest, hscans, hpos, hcause⟩ := hscan.fault rfl
  have hsymbols : source.symbols = before ++ s :: rest := hrest
  refine ⟨before, s, rest, hsymbols, ?_, ?_, hcause⟩
  · -- the symbols before the fault are those of their own bytes
    have hfinished : (Cursor.ofText (Text.ofSymbols before)).Scans ts
        (.finished (Position.first.after before)) := by
      unfold Cursor.ofText
      rw [Text.symbols_ofSymbols_left hsymbols]
      exact hscans
    exact ⟨_, tokenize_eq_ok_iff.2 ⟨ts, _, hfinished, rfl⟩⟩
  · rw [hpos, ← first_after_eq_placeAfter hsymbols]
    rfl

/-! ## §2. Tokens that do not fit. -/

/-- Whether what is left of the feed lies at one of the places, its end included. -/
structure Feed.Within (place : Position → Prop) (f : Feed) : Prop where
  rest : ∀ t ∈ f.rest, place t.pos
  stop : place f.stop

namespace Feed.Within

variable {place : Position → Prop} {f f' : Feed} {t : Token} {kind : TokenKind}

theorem took {ts : List Token} (h : f.Within place) (ht : f.Took ts f') : f'.Within place := by
  refine ⟨?_, ?_⟩
  · intro u hu
    refine h.rest u ?_
    rw [ht.rest]
    exact List.mem_append_right _ hu
  · rw [ht.stop]
    exact h.stop

theorem eat? (h : f.Within place) {hlt : f'.size < f.size}
    (heat : f.eat? kind = some ⟨t, f', hlt⟩) : f'.Within place :=
  h.took (Feed.eat?_eq_some_iff.1 heat).1

theorem eatOperator? (h : f.Within place) {operators : List Text} {hlt : f'.size < f.size}
    (heat : f.eatOperator? operators = some ⟨t, f', hlt⟩) : f'.Within place :=
  h.took (Feed.eatOperator?_eq_some_iff.1 heat).1

/-- What was taken lies there. -/
theorem eaten (h : f.Within place) {hlt : f'.size < f.size}
    (heat : f.eat? kind = some ⟨t, f', hlt⟩) : place t.pos := by
  refine h.rest t ?_
  rw [(Feed.eat?_eq_some_iff.1 heat).1.rest]
  exact List.mem_cons_self

/-- What comes next lies there too. -/
theorem peek (h : f.Within place) : place f.peek.pos := by
  cases hrest : f.rest with
  | nil =>
    rw [Feed.peek_eq_atEnd hrest]
    exact h.stop
  | cons t rest =>
    rw [Feed.peek_eq_cons hrest]
    refine h.rest t ?_
    rw [hrest]
    exact List.mem_cons_self

end Feed.Within

/-- Whether the error is the parser's, about one of the places. -/
def Error.Unfit (place : Position → Prop) (e : Error) : Prop :=
  e.cause.kind = .parse ∧ place e.pos

namespace Parse

variable {α β : Type} {m n : Nat} {place : Position → Prop}

/-- Whether the outcome lies at one of the places: the feed that is left, or the
    complaint. -/
def Within (place : Position → Prop) (r : Parse α n) : Prop :=
  match r with
  | .ok p => p.feed.Within place
  | .error e => e.Unfit place

theorem Within.bind {x : Parse α m} {k : Parsed α m → Parse β n} (hx : x.Within place)
    (hk : ∀ p, p.feed.Within place → (k p).Within place) : Within place (x >>= k) := by
  cases x with
  | error e => exact hx
  | ok p => exact hk p hx

theorem Within.expect {f : Feed} (h : f.Within place) (kind : TokenKind) (what : Expectation) :
    Within place (f.expect kind what) := by
  unfold Feed.expect
  split
  · next found heat => exact h.eat? heat
  · exact ⟨rfl, h.peek⟩

end Parse

section Outcomes

variable {place : Position → Prop}

mutual

theorem parseExpression_within (f : Feed) (hf : f.Within place) :
    (parseExpression f).Within place := by
  rw [parseExpression]
  refine (parseOperand_within f hf).bind ?_
  intro ⟨left, f₁, h₁⟩ hf₁
  dsimp only at hf₁ ⊢
  split
  · exact hf₁
  · next t f₂ h₂ heat =>
    exact (parseExpression_within f₂ (hf₁.eat? heat)).bind fun _ hf₃ => hf₃
termination_by 10 * f.size + 7
decreasing_by all_goals omega

theorem parseOperand_within (f : Feed) (hf : f.Within place) : (parseOperand f).Within place := by
  rw [parseOperand]
  split
  · next t f₁ h₁ heat =>
    exact (parseProperties_within f₁ (hf.eat? heat)).bind fun _ hf₂ => hf₂
  split
  · next t f₁ h₁ heat =>
    exact (parseItems_within f₁ (hf.eat? heat)).bind fun _ hf₂ => hf₂
  · exact parseAdditive_within f hf
termination_by 10 * f.size + 6
decreasing_by all_goals omega

theorem parseProperties_within (f : Feed) (hf : f.Within place) :
    (parseProperties f).Within place := by
  rw [parseProperties]
  split
  · next heat => exact hf.eat? heat
  split
  · exact ⟨rfl, hf.peek⟩
  refine (Parse.Within.expect hf _ _).bind ?_
  intro ⟨key, f₁, h₁⟩ hf₁
  dsimp only at hf₁ ⊢
  split
  · next t f₂ h₂ heat =>
    exact (parseProperties_within f₂ (hf₁.eat? heat)).bind fun _ hf₃ => hf₃
  split
  · exact (parseProperties_within f₁ hf₁).bind fun _ hf₂ => hf₂
  refine (Parse.Within.expect hf₁ _ _).bind ?_
  intro ⟨_, f₂, h₂⟩ hf₂
  refine (parseExpression_within f₂ hf₂).bind ?_
  intro ⟨value, f₃, h₃⟩ hf₃
  dsimp only at hf₃ ⊢
  split
  · exact (parseProperties_within f₃ hf₃).bind fun _ hf₄ => hf₄
  · refine (Parse.Within.expect hf₃ _ _).bind ?_
    intro ⟨_, f₄, h₄⟩ hf₄
    exact (parseProperties_within f₄ hf₄).bind fun _ hf₅ => hf₅
termination_by 10 * f.size + 8
decreasing_by all_goals omega

theorem parseItems_within (f : Feed) (hf : f.Within place) : (parseItems f).Within place := by
  rw [parseItems]
  split
  · next heat => exact hf.eat? heat
  split
  · exact ⟨rfl, hf.peek⟩
  refine (parseExpression_within f hf).bind ?_
  intro ⟨item, f₁, h₁⟩ hf₁
  dsimp only at hf₁ ⊢
  split
  · exact (parseItems_within f₁ hf₁).bind fun _ hf₂ => hf₂
  · refine (Parse.Within.expect hf₁ _ _).bind ?_
    intro ⟨_, f₂, h₂⟩ hf₂
    exact (parseItems_within f₂ hf₂).bind fun _ hf₃ => hf₃
termination_by 10 * f.size + 8
decreasing_by all_goals omega

theorem parseAdditive_within (f : Feed) (hf : f.Within place) :
    (parseAdditive f).Within place := by
  rw [parseAdditive]
  refine (parseMultiplicative_within f hf).bind ?_
  intro ⟨left, f₁, h₁⟩ hf₁
  exact (parseAdditiveTail_within _ left f₁ hf₁).bind fun _ hf₂ => hf₂
termination_by 10 * f.size + 5
decreasing_by all_goals omega

theorem parseAdditiveTail_within (start : Position) (left : Expr) (f : Feed)
    (hf : f.Within place) : (parseAdditiveTail start left f).Within place := by
  rw [parseAdditiveTail]
  split
  · exact hf
  · next t f₁ h₁ heat =>
    refine (parseMultiplicative_within f₁ (hf.eatOperator? heat)).bind ?_
    intro ⟨right, f₂, h₂⟩ hf₂
    exact (parseAdditiveTail_within _ _ f₂ hf₂).bind fun _ hf₃ => hf₃
termination_by 10 * f.size + 8
decreasing_by all_goals omega

theorem parseMultiplicative_within (f : Feed) (hf : f.Within place) :
    (parseMultiplicative f).Within place := by
  rw [parseMultiplicative]
  refine (parseCall_within f hf).bind ?_
  intro ⟨left, f₁, h₁⟩ hf₁
  exact (parseMultiplicativeTail_within _ left f₁ hf₁).bind fun _ hf₂ => hf₂
termination_by 10 * f.size + 4
decreasing_by all_goals omega

theorem parseMultiplicativeTail_within (start : Position) (left : Expr) (f : Feed)
    (hf : f.Within place) : (parseMultiplicativeTail start left f).Within place := by
  rw [parseMultiplicativeTail]
  split
  · exact hf
  · next t f₁ h₁ heat =>
    refine (parseCall_within f₁ (hf.eatOperator? heat)).bind ?_
    intro ⟨right, f₂, h₂⟩ hf₂
    exact (parseMultiplicativeTail_within _ _ f₂ hf₂).bind fun _ hf₃ => hf₃
termination_by 10 * f.size + 8
decreasing_by all_goals omega

theorem parseCall_within (f : Feed) (hf : f.Within place) : (parseCall f).Within place := by
  rw [parseCall]
  refine (parseMember_within f hf).bind ?_
  intro ⟨callee, f₁, h₁⟩ hf₁
  exact (parseCallTail_within _ callee f₁ hf₁).bind fun _ hf₂ => hf₂
termination_by 10 * f.size + 3
decreasing_by all_goals omega

theorem parseCallTail_within (start : Position) (callee : Expr) (f : Feed)
    (hf : f.Within place) : (parseCallTail start callee f).Within place := by
  rw [parseCallTail]
  split
  · exact hf
  · next t f₁ h₁ heat =>
    refine (parseArguments_within f₁ (hf.eat? heat)).bind ?_
    intro ⟨args, f₂, h₂⟩ hf₂
    exact (parseCallTail_within _ _ f₂ hf₂).bind fun _ hf₃ => hf₃
termination_by 10 * f.size + 8
decreasing_by all_goals omega

theorem parseArguments_within (f : Feed) (hf : f.Within place) :
    (parseArguments f).Within place := by
  rw [parseArguments]
  split
  · next heat => exact hf.eat? heat
  · exact parseArgumentList_within f hf
termination_by 10 * f.size + 9
decreasing_by all_goals omega

theorem parseArgumentList_within (f : Feed) (hf : f.Within place) :
    (parseArgumentList f).Within place := by
  rw [parseArgumentList]
  refine (parseExpression_within f hf).bind ?_
  intro ⟨arg, f₁, h₁⟩ hf₁
  dsimp only at hf₁ ⊢
  split
  · next t f₂ h₂ heat =>
    exact (parseArgumentList_within f₂ (hf₁.eat? heat)).bind fun _ hf₃ => hf₃
  · exact (Parse.Within.expect hf₁ _ _).bind fun _ hf₂ => hf₂
termination_by 10 * f.size + 8
decreasing_by all_goals omega

theorem parseMember_within (f : Feed) (hf : f.Within place) : (parseMember f).Within place := by
  rw [parseMember]
  refine (parsePrimary_within f hf).bind ?_
  intro ⟨object, f₁, h₁⟩ hf₁
  exact (parseMemberTail_within _ object f₁ hf₁).bind fun _ hf₂ => hf₂
termination_by 10 * f.size + 2
decreasing_by all_goals omega

theorem parseMemberTail_within (start : Position) (object : Expr) (f : Feed)
    (hf : f.Within place) : (parseMemberTail start object f).Within place := by
  rw [parseMemberTail]
  split
  · next t f₁ h₁ heat =>
    have hf₁ := hf.eat? heat
    split
    · exact ⟨rfl, hf₁.peek⟩
    · next name f₂ h₂ heat₂ =>
      exact (parseMemberTail_within _ _ f₂ (hf₁.eat? heat₂)).bind fun _ hf₃ => hf₃
  split
  · next t f₁ h₁ heat =>
    refine (parseExpression_within f₁ (hf.eat? heat)).bind ?_
    intro ⟨property, f₂, h₂⟩ hf₂
    dsimp only at hf₂ ⊢
    refine (Parse.Within.expect hf₂ _ _).bind ?_
    intro ⟨_, f₃, h₃⟩ hf₃
    exact (parseMemberTail_within _ _ f₃ hf₃).bind fun _ hf₄ => hf₄
  · exact hf
termination_by 10 * f.size + 8
decreasing_by all_goals omega

theorem parsePrimary_within (f : Feed) (hf : f.Within place) : (parsePrimary f).Within place := by
  rw [parsePrimary]
  split
  · next heat => exact hf.eat? heat
  split
  · next heat =>
    split
    · exact hf.eat? heat
    · exact ⟨rfl, hf.eaten heat⟩
  split
  · next heat => exact hf.eat? heat
  split
  · next t f₁ h₁ heat =>
    refine (parseExpression_within f₁ (hf.eat? heat)).bind ?_
    intro ⟨inner, f₂, h₂⟩ hf₂
    exact (Parse.Within.expect hf₂ _ _).bind fun _ hf₃ => hf₃
  · exact ⟨rfl, hf.peek⟩
termination_by 10 * f.size + 1
decreasing_by all_goals omega

end

theorem parseTerminator_within (f : Feed) (hf : f.Within place) :
    (parseTerminator f).Within place := by
  rw [parseTerminator]
  split
  · next heat => exact hf.eat? heat
  split
  · exact hf
  · exact ⟨rfl, hf.peek⟩

theorem parseDeclaration_within (start : Position) (constant : Bool) (f : Feed)
    (hf : f.Within place) : (parseDeclaration start constant f).Within place := by
  rw [parseDeclaration]
  refine (Parse.Within.expect hf _ _).bind ?_
  intro ⟨name, f₁, h₁⟩ hf₁
  dsimp only at hf₁ ⊢
  split
  · split
    · exact ⟨rfl, hf₁.peek⟩
    · exact (parseTerminator_within f₁ hf₁).bind fun _ hf₂ => hf₂
  · next t f₂ h₂ heat =>
    refine (parseExpression_within f₂ (hf₁.eat? heat)).bind ?_
    intro ⟨value, f₃, h₃⟩ hf₃
    exact (parseTerminator_within f₃ hf₃).bind fun _ hf₄ => hf₄

theorem parseStatement_within (f : Feed) (hf : f.Within place) :
    (parseStatement f).Within place := by
  rw [parseStatement_eq]
  split
  · next t f₁ h₁ heat =>
    exact (parseDeclaration_within _ _ f₁ (hf.eat? heat)).bind fun _ hf₂ => hf₂
  split
  · next t f₁ h₁ heat =>
    exact (parseDeclaration_within _ _ f₁ (hf.eat? heat)).bind fun _ hf₂ => hf₂
  unfold parseBare
  refine (parseExpression_within f hf).bind ?_
  intro ⟨e, f₁, h₁⟩ hf₁
  dsimp only at hf₁ ⊢
  split
  · next heat => exact hf₁.eat? heat
  · exact hf₁

/-- A list of statements is refused at a token that is left. -/
theorem parseStatements_unfit (f : Feed) (hf : f.Within place) :
    ∀ {e : Error}, parseStatements f = .error e → e.Unfit place := by
  intro e h
  rw [parseStatements] at h
  split at h
  · cases h
  have hstatement := parseStatement_within f hf
  cases hs : parseStatement f with
  | error e' =>
    rw [hs] at h hstatement
    cases h
    exact hstatement
  | ok p =>
    obtain ⟨s, f₁, h₁⟩ := p
    rw [hs] at h hstatement
    simp only [bind, Except.bind] at h
    cases hmore : parseStatements f₁ with
    | error e' =>
      rw [hmore] at h
      cases h
      exact parseStatements_unfit f₁ hstatement hmore
    | ok body =>
      rw [hmore] at h
      cases h
termination_by f.size

end Outcomes

/-- **A text is refused at its first faulty symbol or at one of its tokens.** -/
theorem refused_of_parse {source : Text} {e : Error} (h : Program.parse source = .error e) :
    e.Faulty source ∨
      ∃ tokens, tokenize source = .ok tokens ∧ e.Unfit fun pos => ∃ t ∈ tokens, t.pos = pos := by
  unfold Program.parse at h
  cases htokens : tokenize source with
  | error e' =>
    rw [htokens] at h
    cases h
    exact .inl (faulty_of_tokenize htokens)
  | ok tokens =>
    right
    refine ⟨tokens, rfl, ?_⟩
    rw [htokens] at h
    obtain ⟨ts, stop, hscan, rfl⟩ := tokenize_eq_ok_iff.1 htokens
    obtain ⟨hrest, hstop⟩ := Feed.ofTokens_append stop hscan.kind_ne_endOfInput
    -- the end of the input is the last of the tokens, and the feed keeps its place
    have hwithin : (Feed.ofTokens (ts ++ [.atEnd stop])).Within
        fun pos => ∃ t ∈ ts ++ [.atEnd stop], t.pos = pos := by
      refine ⟨?_, ?_⟩
      · rw [hrest]
        exact fun t ht => ⟨t, List.mem_append_left _ ht, rfl⟩
      · rw [hstop]
        exact ⟨.atEnd stop, List.mem_append_right _ List.mem_cons_self, rfl⟩
    simp only [Program.ofTokens, Program.ofFeed, bind, Except.bind] at h
    split at h
    · next hbody =>
      cases h
      exact parseStatements_unfit _ hwithin hbody
    · cases h

end Scriptorium
