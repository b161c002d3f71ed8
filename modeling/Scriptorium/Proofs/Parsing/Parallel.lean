/-
  Scriptorium.Proofs.Parsing.Parallel: two parsers side by side.

  The first reads a list of tokens, the second a list that begins with tokens that look the
  same and may go on with others.  Whether two tokens look the same is a matter of their
  kinds, their texts and of their places as seen through two `Views`: with all places seen as
  one, layout is ignored; with a view that moves places down, the second list may stand below
  other lines.

  As long as there is nothing to go on with, or the first list ends with a semicolon, the two
  parsers do the same.  No expression has a semicolon in it, so within one the first parser
  does not get to the end of its list.  They read trees that look the same, or complain with
  the same words.

  Main results:
    * `Views.Feeds.eat?`: both consume the next token, or neither does.
    * `parseExpression_along`, and one lemma for each of the other parse functions.
    * `parseStatements_along`: the second parser reads what the first does, and goes on.
-/

import Scriptorium.Proofs.Parsing.Program
import Mathlib.Data.List.Forall2

namespace Scriptorium

/-! ## §1. Looking the same. -/

/-- Two ways to look at places, which moving to the right keeps alike. -/
structure Views where
  left : Position → Position
  right : Position → Position
  moved : ∀ {p q : Position} (n : Int), left p = right q →
    left ⟨p.line, p.column + n⟩ = right ⟨q.line, q.column + n⟩

namespace Views

variable (v : Views)

/-- A span as seen from the left. -/
def leftSpan (s : Span) : Span := ⟨v.left s.start, v.left s.stop⟩

/-- A span as seen from the right. -/
def rightSpan (s : Span) : Span := ⟨v.right s.start, v.right s.stop⟩

/-- Whether two tokens look the same. -/
structure Tokens (t u : Token) : Prop where
  kind : u.kind = t.kind
  lexeme : u.lexeme = t.lexeme
  pos : v.left t.pos = v.right u.pos

/-- Whether two expressions look the same. -/
def Exprs (e e' : Expr) : Prop := e.mapSpan v.leftSpan = e'.mapSpan v.rightSpan

/-- Whether two lists of expressions look the same. -/
def ExprLists (es es' : List Expr) : Prop :=
  Expr.mapSpanAll v.leftSpan es = Expr.mapSpanAll v.rightSpan es'

/-- Whether two lists of properties look the same. -/
def PropertyLists (ps ps' : List Property) : Prop :=
  Property.mapSpanAll v.leftSpan ps = Property.mapSpanAll v.rightSpan ps'

/-- Whether two statements look the same. -/
def Statements (s s' : Statement) : Prop := s.mapSpan v.leftSpan = s'.mapSpan v.rightSpan

/-- Whether the tokens consumed last end at places that look the same. -/
def Ends (f g : Feed) : Prop := v.left f.lastEnd = v.right g.lastEnd

/-- Whether the second feed has what the first has and then `more`. -/
structure Rests (more : List Token) (f g : Feed) : Prop where
  rest : ∃ us, g.rest = us ++ more ∧ List.Forall₂ v.Tokens f.rest us
  closed : (more = [] ∧ v.left f.stop = v.right g.stop) ∨ f.rest = [] ∨
    ∃ ts t, f.rest = ts ++ [t] ∧ t.kind = .semicolon

/-- Whether, besides, no parser within an expression can tell the feeds apart. -/
structure Feeds (more : List Token) (f g : Feed) : Prop where
  rests : v.Rests more f g
  closed : (more = [] ∧ v.left f.stop = v.right g.stop) ∨
    ∃ ts t, f.rest = ts ++ [t] ∧ t.kind = .semicolon

variable {v} {more : List Token} {f g : Feed}

theorem leftSpan_eq {p q p' q' : Position} (hp : v.left p = v.right p')
    (hq : v.left q = v.right q') : v.leftSpan ⟨p, q⟩ = v.rightSpan ⟨p', q'⟩ := by
  unfold leftSpan rightSpan
  rw [hp, hq]

theorem Tokens.stop {t u : Token} (h : v.Tokens t u) : v.left t.stop = v.right u.stop := by
  have hwidth : u.width = t.width := by
    unfold Token.width
    rw [h.kind, h.lexeme]
  unfold Token.stop
  rw [hwidth]
  exact v.moved _ h.pos

theorem Tokens.describe {t u : Token} (h : v.Tokens t u) : u.describe = t.describe := by
  unfold Token.describe
  rw [h.kind, h.lexeme]

theorem Rests.feeds (h : v.Rests more f g) (hne : f.rest ≠ []) : v.Feeds more f g := by
  refine ⟨h, ?_⟩
  rcases h.closed with hmore | hnil | hlast
  · exact .inl hmore
  · exact absurd hnil hne
  · exact .inr hlast

/-- Within an expression both are at their ends, or neither is. -/
theorem Feeds.cases (h : v.Feeds more f g) :
    (f.rest = [] ∧ g.rest = [] ∧ v.left f.stop = v.right g.stop) ∨
    ∃ t rest u us, f.rest = t :: rest ∧ g.rest = u :: (us ++ more) ∧ v.Tokens t u ∧
      List.Forall₂ v.Tokens rest us := by
  obtain ⟨us, hg, hall⟩ := h.rests.rest
  generalize hf : f.rest = ts at hall
  cases hall with
  | nil =>
    rcases h.closed with ⟨hmore, hstop⟩ | ⟨ts, t, hlast, _⟩
    · subst hmore
      exact .inl ⟨rfl, hg, hstop⟩
    · rw [hf] at hlast
      cases ts <;> cases hlast
  | @cons t u rest us ht hrest => exact .inr ⟨t, rest, u, us, rfl, hg, ht, hrest⟩

/-- What comes next looks the same. -/
theorem Feeds.peek (h : v.Feeds more f g) : v.Tokens f.peek g.peek := by
  rcases h.cases with ⟨hf, hg, hstop⟩ | ⟨t, rest, u, us, hf, hg, ht, _⟩
  · rw [Feed.peek_eq_atEnd hf, Feed.peek_eq_atEnd hg]
    exact ⟨rfl, rfl, hstop⟩
  · rw [Feed.peek_eq_cons hf, Feed.peek_eq_cons hg]
    exact ht

theorem Feeds.isEmpty (h : v.Feeds more f g) : g.rest.isEmpty = f.rest.isEmpty := by
  rcases h.cases with ⟨hf, hg, _⟩ | ⟨t, rest, u, us, hf, hg, _, _⟩
  · rw [hf, hg]
  · rw [hf, hg]
    rfl

/-- Both consume a token of the kind, or neither does. -/
theorem Feeds.eat?_rests (h : v.Feeds more f g) (kind : TokenKind) :
    (f.eat? kind = none ∧ g.eat? kind = none) ∨
    ∃ t f₁ h₁ u g₁ k₁, f.eat? kind = some ⟨t, f₁, h₁⟩ ∧ g.eat? kind = some ⟨u, g₁, k₁⟩ ∧
      t.kind = kind ∧ v.Tokens t u ∧ v.Rests more f₁ g₁ ∧ v.Ends f₁ g₁ := by
  rcases h.cases with ⟨hf, hg, _⟩ | ⟨t, rest, u, us, hf, hg, ht, hrest⟩
  · exact .inl ⟨Feed.eat?_eq_none_of_rest hf, Feed.eat?_eq_none_of_rest hg⟩
  by_cases hkind : t.kind = kind
  · right
    have htook : f.Took [t] ⟨rest, f.stop, t.stop⟩ := ⟨hf, rfl, rfl⟩
    have htook' : g.Took [u] ⟨us ++ more, g.stop, u.stop⟩ := ⟨hg, rfl, rfl⟩
    refine ⟨t, _, htook.size_lt, u, _, htook'.size_lt, htook.eat? hkind,
      htook'.eat? (ht.kind.trans hkind), hkind, ht, ⟨⟨us, rfl, hrest⟩, ?_⟩, ht.stop⟩
    -- the last token is still the last, unless it was the one consumed
    rcases h.closed with hmore | ⟨ts, last, hlast, hsemi⟩
    · exact .inl hmore
    · rw [hf] at hlast
      cases ts with
      | nil =>
        cases hlast
        exact .inr (.inl rfl)
      | cons _ ts =>
        cases hlast
        exact .inr (.inr ⟨ts, last, rfl, hsemi⟩)
  · left
    have hpeek : f.peek.kind ≠ kind := by
      rw [Feed.peek_eq_cons hf]
      exact hkind
    have hpeek' : g.peek.kind ≠ kind := by
      rw [h.peek.kind]
      exact hpeek
    exact ⟨Feed.eat?_eq_none_of_peek hpeek, Feed.eat?_eq_none_of_peek hpeek'⟩

/-- Consuming anything but a semicolon, the feeds stay alike. -/
theorem Feeds.eat? (h : v.Feeds more f g) (kind : TokenKind) (hkind : kind ≠ .semicolon) :
    (f.eat? kind = none ∧ g.eat? kind = none) ∨
    ∃ t f₁ h₁ u g₁ k₁, f.eat? kind = some ⟨t, f₁, h₁⟩ ∧ g.eat? kind = some ⟨u, g₁, k₁⟩ ∧
      v.Tokens t u ∧ v.Feeds more f₁ g₁ ∧ v.Ends f₁ g₁ := by
  rcases h.eat?_rests kind with hnone | ⟨t, f₁, h₁, u, g₁, k₁, hf, hg, ht, htoken, hrests, hends⟩
  · exact .inl hnone
  refine .inr ⟨t, f₁, h₁, u, g₁, k₁, hf, hg, htoken, ⟨hrests, ?_⟩, hends⟩
  -- if the token had been the last one it would be a semicolon
  have htook := (Feed.eat?_eq_some_iff.1 hf).1
  have htook' := (Feed.eat?_eq_some_iff.1 hg).1
  rcases h.closed with hmore | ⟨ts, last, hlast, hsemi⟩
  · left
    rw [htook.stop, htook'.stop]
    exact hmore
  · rw [htook.rest] at hlast
    cases ts with
    | nil =>
      obtain ⟨rfl, _⟩ := List.cons.inj hlast
      exact absurd (ht.symm.trans hsemi) hkind
    | cons _ ts =>
      obtain ⟨_, hrest⟩ := List.cons.inj hlast
      exact .inr ⟨ts, last, hrest, hsemi⟩

theorem Feeds.eatOperator? (h : v.Feeds more f g) (operators : List Text) :
    (f.eatOperator? operators = none ∧ g.eatOperator? operators = none) ∨
    ∃ t f₁ h₁ u g₁ k₁, f.eatOperator? operators = some ⟨t, f₁, h₁⟩ ∧
      g.eatOperator? operators = some ⟨u, g₁, k₁⟩ ∧
      v.Tokens t u ∧ v.Feeds more f₁ g₁ ∧ v.Ends f₁ g₁ := by
  unfold Feed.eatOperator?
  rw [h.peek.lexeme]
  by_cases hoperator : f.peek.lexeme ∈ operators
  · rw [if_pos hoperator, if_pos hoperator]
    exact h.eat? .binaryOperator (by decide)
  · rw [if_neg hoperator, if_neg hoperator]
    exact .inl ⟨rfl, rfl⟩

section Trees

variable {p p' : Position} {e e' d d' : Expr} {es es' : List Expr} {ps ps' : List Property}
  {t u : Token}

theorem Exprs.identifier (ht : v.Tokens t u) (he : v.Ends f g) :
    v.Exprs (.identifier ⟨t.pos, f.lastEnd⟩ t.lexeme)
      (.identifier ⟨u.pos, g.lastEnd⟩ u.lexeme) := by
  simp only [Exprs, Expr.mapSpan, leftSpan_eq ht.pos he, ht.lexeme]

theorem Exprs.number (ht : v.Tokens t u) (he : v.Ends f g) (value : Float) :
    v.Exprs (.number ⟨t.pos, f.lastEnd⟩ value) (.number ⟨u.pos, g.lastEnd⟩ value) := by
  simp only [Exprs, Expr.mapSpan, leftSpan_eq ht.pos he]

theorem Exprs.string (ht : v.Tokens t u) (he : v.Ends f g) :
    v.Exprs (.string ⟨t.pos, f.lastEnd⟩ t.lexeme) (.string ⟨u.pos, g.lastEnd⟩ u.lexeme) := by
  simp only [Exprs, Expr.mapSpan, leftSpan_eq ht.pos he, ht.lexeme]

variable (hp : v.left p = v.right p') (he : v.Ends f g)

include hp he

theorem Exprs.assign (hd : v.Exprs d d') (hx : v.Exprs e e') :
    v.Exprs (.assign ⟨p, f.lastEnd⟩ d e) (.assign ⟨p', g.lastEnd⟩ d' e') := by
  unfold Exprs at hd hx ⊢
  simp only [Expr.mapSpan, leftSpan_eq hp he, hd, hx]

theorem Exprs.binary (ht : v.Tokens t u) (hd : v.Exprs d d') (hx : v.Exprs e e') :
    v.Exprs (.binary ⟨p, f.lastEnd⟩ t.lexeme d e) (.binary ⟨p', g.lastEnd⟩ u.lexeme d' e') := by
  unfold Exprs at hd hx ⊢
  simp only [Expr.mapSpan, leftSpan_eq hp he, ht.lexeme, hd, hx]

theorem Exprs.member (hd : v.Exprs d d') (hx : v.Exprs e e') (c : Bool) :
    v.Exprs (.member ⟨p, f.lastEnd⟩ d e c) (.member ⟨p', g.lastEnd⟩ d' e' c) := by
  unfold Exprs at hd hx ⊢
  simp only [Expr.mapSpan, leftSpan_eq hp he, hd, hx]

theorem Exprs.call (hd : v.Exprs d d') (hes : v.ExprLists es es') :
    v.Exprs (.call ⟨p, f.lastEnd⟩ d es) (.call ⟨p', g.lastEnd⟩ d' es') := by
  unfold Exprs ExprLists at *
  simp only [Expr.mapSpan, leftSpan_eq hp he, hd, hes]

theorem Exprs.list (hes : v.ExprLists es es') :
    v.Exprs (.list ⟨p, f.lastEnd⟩ es) (.list ⟨p', g.lastEnd⟩ es') := by
  unfold Exprs ExprLists at *
  simp only [Expr.mapSpan, leftSpan_eq hp he, hes]

theorem Exprs.object (hps : v.PropertyLists ps ps') :
    v.Exprs (.object ⟨p, f.lastEnd⟩ ps) (.object ⟨p', g.lastEnd⟩ ps') := by
  unfold Exprs PropertyLists at *
  simp only [Expr.mapSpan, leftSpan_eq hp he, hps]

omit hp in
theorem PropertyLists.cons (ht : v.Tokens t u) (hx : v.Exprs e e')
    (hps : v.PropertyLists ps ps') :
    v.PropertyLists (.mk ⟨t.pos, f.lastEnd⟩ t.lexeme e :: ps)
      (.mk ⟨u.pos, g.lastEnd⟩ u.lexeme e' :: ps') := by
  unfold Exprs PropertyLists at *
  simp only [Property.mapSpanAll, Property.mapSpan, leftSpan_eq ht.pos he, ht.lexeme, hx, hps]

omit hp he in
theorem ExprLists.cons (hx : v.Exprs e e') (hes : v.ExprLists es es') :
    v.ExprLists (e :: es) (e' :: es') := by
  unfold Exprs ExprLists at *
  simp only [Expr.mapSpanAll, hx, hes]

end Trees

/-! ## §2. Outcomes. -/

/-- Whether two errors are of one kind and use the same words. -/
def SameWords (e e' : Error) : Prop :=
  e'.cause.kind = e.cause.kind ∧ e'.cause.message = e.cause.message

/-- Whether the second parser succeeds where the first does, with results and feeds that are
    alike, and fails with the same words where it fails. -/
def Along {α : Type} {m n : Nat} (v : Views) (S : Feed → Feed → Prop)
    (R : α → α → Prop) (x : Parse α m) (y : Parse α n) : Prop :=
  match x with
  | .ok p => ∃ q, y = .ok q ∧ R p.value q.value ∧ S p.feed q.feed ∧ v.Ends p.feed q.feed
  | .error e => ∃ e', y = .error e' ∧ SameWords e e'

section Rules

variable {α β : Type} {m n m' n' : Nat} {S S' : Feed → Feed → Prop} {R : α → α → Prop}
  {R' : β → β → Prop}

theorem Along.bind {x : Parse α m} {y : Parse α n} {k : Parsed α m → Parse β m'}
    {k' : Parsed α n → Parse β n'} (hx : v.Along S R x y)
    (hk : ∀ p q, R p.value q.value → S p.feed q.feed → v.Ends p.feed q.feed →
      v.Along S' R' (k p) (k' q)) : v.Along S' R' (x >>= k) (y >>= k') := by
  cases x with
  | error e =>
    obtain ⟨e', rfl, hwords⟩ := hx
    exact ⟨e', rfl, hwords⟩
  | ok p =>
    obtain ⟨q, rfl, hvalue, hfeed, hends⟩ := hx
    exact hk p q hvalue hfeed hends

/-- A complaint about the token that is there. -/
theorem Along.complain {e e' : Error} (hwords : SameWords e e') :
    v.Along S R (.error e : Parse α m) (.error e' : Parse α n) :=
  ⟨e', rfl, hwords⟩

theorem SameWords.expected (h : v.Feeds more f g) (what : Expectation) :
    SameWords ⟨.expected what f.peek, f.peek.pos⟩ ⟨.expected what g.peek, g.peek.pos⟩ := by
  refine ⟨rfl, ?_⟩
  show _ ++ _ ++ g.peek.describe = _ ++ _ ++ f.peek.describe
  rw [h.peek.describe]

theorem Along.expect (h : v.Feeds more f g) (kind : TokenKind) (hkind : kind ≠ .semicolon)
    (what : Expectation) :
    v.Along (v.Feeds more) v.Tokens (f.expect kind what) (g.expect kind what) := by
  unfold Feed.expect
  rcases h.eat? kind hkind with ⟨hf, hg⟩ | ⟨t, f₁, h₁, u, g₁, k₁, hf, hg, ht, hf₁, he₁⟩
  · rw [hf, hg]
    exact .complain (.expected h what)
  · rw [hf, hg]
    exact ⟨_, rfl, ht, hf₁, he₁⟩

end Rules

end Views

/-! ## §3. Expressions. -/

section Expressions

open Views

variable {v : Views} {more : List Token}

mutual

theorem parseExpression_along (f g : Feed) (h : v.Feeds more f g) :
    v.Along (v.Feeds more) v.Exprs (parseExpression f) (parseExpression g) := by
  rw [parseExpression, parseExpression]
  refine (parseOperand_along f g h).bind ?_
  intro ⟨left, f₁, h₁⟩ ⟨left', g₁, k₁⟩ hleft hf₁ he₁
  dsimp only at hleft hf₁ he₁ ⊢
  rcases hf₁.eat? .equals (by decide) with
    ⟨hf, hg⟩ | ⟨t, f₂, h₂, u, g₂, k₂, hf, hg, _, hf₂, _⟩
  · rw [hf, hg]
    exact ⟨_, rfl, hleft, hf₁, he₁⟩
  · rw [hf, hg]
    refine (parseExpression_along f₂ g₂ hf₂).bind ?_
    intro ⟨value, f₃, h₃⟩ ⟨value', g₃, k₃⟩ hvalue hf₃ he₃
    exact ⟨_, rfl, Exprs.assign h.peek.pos he₃ hleft hvalue, hf₃, he₃⟩
termination_by 10 * f.size + 7
decreasing_by all_goals omega

theorem parseOperand_along (f g : Feed) (h : v.Feeds more f g) :
    v.Along (v.Feeds more) v.Exprs (parseOperand f) (parseOperand g) := by
  rw [parseOperand, parseOperand]
  rcases h.eat? .openBrace (by decide) with
    ⟨hf, hg⟩ | ⟨t, f₁, h₁, u, g₁, k₁, hf, hg, ht, hf₁, _⟩
  · rw [hf, hg]
    rcases h.eat? .openBracket (by decide) with
      ⟨hf, hg⟩ | ⟨t, f₁, h₁, u, g₁, k₁, hf, hg, ht, hf₁, _⟩
    · rw [hf, hg]
      exact parseAdditive_along f g h
    · rw [hf, hg]
      refine (parseItems_along f₁ g₁ hf₁).bind ?_
      intro ⟨items, f₂, h₂⟩ ⟨items', g₂, k₂⟩ hitems hf₂ he₂
      exact ⟨_, rfl, Exprs.list ht.pos he₂ hitems, hf₂, he₂⟩
  · rw [hf, hg]
    refine (parseProperties_along f₁ g₁ hf₁).bind ?_
    intro ⟨ps, f₂, h₂⟩ ⟨ps', g₂, k₂⟩ hps hf₂ he₂
    exact ⟨_, rfl, Exprs.object ht.pos he₂ hps, hf₂, he₂⟩
termination_by 10 * f.size + 6
decreasing_by all_goals omega

theorem parseProperties_along (f g : Feed) (h : v.Feeds more f g) :
    v.Along (v.Feeds more) v.PropertyLists (parseProperties f) (parseProperties g) := by
  rw [parseProperties, parseProperties]
  rcases h.eat? .closeBrace (by decide) with
    ⟨hf, hg⟩ | ⟨t, f₁, h₁, u, g₁, k₁, hf, hg, _, hf₁, he₁⟩
  swap
  · rw [hf, hg]
    exact ⟨_, rfl, rfl, hf₁, he₁⟩
  rw [hf, hg, h.isEmpty]
  by_cases hempty : f.rest.isEmpty = true
  · rw [if_pos hempty, if_pos hempty]
    exact .complain (.expected h _)
  rw [if_neg hempty, if_neg hempty]
  refine (Along.expect h .identifier (by decide) _).bind ?_
  intro ⟨key, f₁, h₁⟩ ⟨key', g₁, k₁⟩ hkey hf₁ he₁
  dsimp only at hkey hf₁ he₁ ⊢
  rcases hf₁.eat? .comma (by decide) with
    ⟨hf, hg⟩ | ⟨t, f₂, h₂, u, g₂, k₂, hf, hg, _, hf₂, he₂⟩
  swap
  · rw [hf, hg]
    refine (parseProperties_along f₂ g₂ hf₂).bind ?_
    intro ⟨rest, f₃, h₃⟩ ⟨rest', g₃, k₃⟩ hrest hf₃ he₃
    exact ⟨_, rfl, PropertyLists.cons he₂ hkey rfl hrest, hf₃, he₃⟩
  rw [hf, hg, hf₁.peek.kind]
  dsimp only
  by_cases hbrace : f₁.peek.kind = .closeBrace
  · rw [if_pos hbrace, if_pos hbrace]
    refine (parseProperties_along f₁ g₁ hf₁).bind ?_
    intro ⟨rest, f₂, h₂⟩ ⟨rest', g₂, k₂⟩ hrest hf₂ he₂
    exact ⟨_, rfl, PropertyLists.cons he₁ hkey rfl hrest, hf₂, he₂⟩
  rw [if_neg hbrace, if_neg hbrace]
  refine (Along.expect hf₁ .colon (by decide) _).bind ?_
  intro ⟨_, f₂, h₂⟩ ⟨_, g₂, k₂⟩ _ hf₂ _
  refine (parseExpression_along f₂ g₂ hf₂).bind ?_
  intro ⟨value, f₃, h₃⟩ ⟨value', g₃, k₃⟩ hvalue hf₃ he₃
  dsimp only at hvalue hf₃ he₃ ⊢
  rw [hf₃.peek.kind]
  by_cases hbrace₃ : f₃.peek.kind = .closeBrace
  · rw [if_pos hbrace₃, if_pos hbrace₃]
    refine (parseProperties_along f₃ g₃ hf₃).bind ?_
    intro ⟨rest, f₄, h₄⟩ ⟨rest', g₄, k₄⟩ hrest hf₄ he₄
    exact ⟨_, rfl, PropertyLists.cons he₃ hkey hvalue hrest, hf₄, he₄⟩
  · rw [if_neg hbrace₃, if_neg hbrace₃]
    refine (Along.expect hf₃ .comma (by decide) _).bind ?_
    intro ⟨_, f₄, h₄⟩ ⟨_, g₄, k₄⟩ _ hf₄ _
    refine (parseProperties_along f₄ g₄ hf₄).bind ?_
    intro ⟨rest, f₅, h₅⟩ ⟨rest', g₅, k₅⟩ hrest hf₅ he₅
    exact ⟨_, rfl, PropertyLists.cons he₃ hkey hvalue hrest, hf₅, he₅⟩
termination_by 10 * f.size + 8
decreasing_by all_goals omega

theorem parseItems_along (f g : Feed) (h : v.Feeds more f g) :
    v.Along (v.Feeds more) v.ExprLists (parseItems f) (parseItems g) := by
  rw [parseItems, parseItems]
  rcases h.eat? .closeBracket (by decide) with
    ⟨hf, hg⟩ | ⟨t, f₁, h₁, u, g₁, k₁, hf, hg, _, hf₁, he₁⟩
  swap
  · rw [hf, hg]
    exact ⟨_, rfl, rfl, hf₁, he₁⟩
  rw [hf, hg, h.isEmpty]
  by_cases hempty : f.rest.isEmpty = true
  · rw [if_pos hempty, if_pos hempty]
    exact .complain (.expected h _)
  rw [if_neg hempty, if_neg hempty]
  refine (parseExpression_along f g h).bind ?_
  intro ⟨item, f₁, h₁⟩ ⟨item', g₁, k₁⟩ hitem hf₁ he₁
  dsimp only at hitem hf₁ he₁ ⊢
  rw [hf₁.peek.kind]
  by_cases hbracket : f₁.peek.kind = .closeBracket
  · rw [if_pos hbracket, if_pos hbracket]
    refine (parseItems_along f₁ g₁ hf₁).bind ?_
    intro ⟨rest, f₂, h₂⟩ ⟨rest', g₂, k₂⟩ hrest hf₂ he₂
    exact ⟨_, rfl, ExprLists.cons hitem hrest, hf₂, he₂⟩
  · rw [if_neg hbracket, if_neg hbracket]
    refine (Along.expect hf₁ .comma (by decide) _).bind ?_
    intro ⟨_, f₂, h₂⟩ ⟨_, g₂, k₂⟩ _ hf₂ _
    refine (parseItems_along f₂ g₂ hf₂).bind ?_
    intro ⟨rest, f₃, h₃⟩ ⟨rest', g₃, k₃⟩ hrest hf₃ he₃
    exact ⟨_, rfl, ExprLists.cons hitem hrest, hf₃, he₃⟩
termination_by 10 * f.size + 8
decreasing_by all_goals omega

theorem parseAdditive_along (f g : Feed) (h : v.Feeds more f g) :
    v.Along (v.Feeds more) v.Exprs (parseAdditive f) (parseAdditive g) := by
  rw [parseAdditive, parseAdditive]
  refine (parseMultiplicative_along f g h).bind ?_
  intro ⟨left, f₁, h₁⟩ ⟨left', g₁, k₁⟩ hleft hf₁ he₁
  refine (parseAdditiveTail_along h.peek.pos hleft f₁ g₁ hf₁ he₁).bind ?_
  intro p q he hf₂ he₂
  exact ⟨_, rfl, he, hf₂, he₂⟩
termination_by 10 * f.size + 5
decreasing_by all_goals omega

theorem parseAdditiveTail_along {start start' : Position} {left left' : Expr}
    (hstart : v.left start = v.right start') (hleft : v.Exprs left left') (f g : Feed)
    (h : v.Feeds more f g) (he : v.Ends f g) :
    v.Along (v.Feeds more) v.Exprs (parseAdditiveTail start left f)
      (parseAdditiveTail start' left' g) := by
  rw [parseAdditiveTail, parseAdditiveTail]
  rcases h.eatOperator? ["+", "-"] with
    ⟨hf, hg⟩ | ⟨op, f₁, h₁, op', g₁, k₁, hf, hg, hop, hf₁, _⟩
  · rw [hf, hg]
    exact ⟨_, rfl, hleft, h, he⟩
  · rw [hf, hg]
    refine (parseMultiplicative_along f₁ g₁ hf₁).bind ?_
    intro ⟨right, f₂, h₂⟩ ⟨right', g₂, k₂⟩ hright hf₂ he₂
    have hsum := Exprs.binary hstart he₂ hop hleft hright
    refine (parseAdditiveTail_along hstart hsum f₂ g₂ hf₂ he₂).bind ?_
    intro p q he hf₃ he₃
    exact ⟨_, rfl, he, hf₃, he₃⟩
termination_by 10 * f.size + 8
decreasing_by all_goals omega

theorem parseMultiplicative_along (f g : Feed) (h : v.Feeds more f g) :
    v.Along (v.Feeds more) v.Exprs (parseMultiplicative f) (parseMultiplicative g) := by
  rw [parseMultiplicative, parseMultiplicative]
  refine (parseCall_along f g h).bind ?_
  intro ⟨left, f₁, h₁⟩ ⟨left', g₁, k₁⟩ hleft hf₁ he₁
  refine (parseMultiplicativeTail_along h.peek.pos hleft f₁ g₁ hf₁ he₁).bind ?_
  intro p q he hf₂ he₂
  exact ⟨_, rfl, he, hf₂, he₂⟩
termination_by 10 * f.size + 4
decreasing_by all_goals omega

theorem parseMultiplicativeTail_along {start start' : Position} {left left' : Expr}
    (hstart : v.left start = v.right start') (hleft : v.Exprs left left') (f g : Feed)
    (h : v.Feeds more f g) (he : v.Ends f g) :
    v.Along (v.Feeds more) v.Exprs (parseMultiplicativeTail start left f)
      (parseMultiplicativeTail start' left' g) := by
  rw [parseMultiplicativeTail, parseMultiplicativeTail]
  rcases h.eatOperator? ["*", "/", "%"] with
    ⟨hf, hg⟩ | ⟨op, f₁, h₁, op', g₁, k₁, hf, hg, hop, hf₁, _⟩
  · rw [hf, hg]
    exact ⟨_, rfl, hleft, h, he⟩
  · rw [hf, hg]
    refine (parseCall_along f₁ g₁ hf₁).bind ?_
    intro ⟨right, f₂, h₂⟩ ⟨right', g₂, k₂⟩ hright hf₂ he₂
    have hproduct := Exprs.binary hstart he₂ hop hleft hright
    refine (parseMultiplicativeTail_along hstart hproduct f₂ g₂ hf₂ he₂).bind ?_
    intro p q he hf₃ he₃
    exact ⟨_, rfl, he, hf₃, he₃⟩
termination_by 10 * f.size + 8
decreasing_by all_goals omega

theorem parseCall_along (f g : Feed) (h : v.Feeds more f g) :
    v.Along (v.Feeds more) v.Exprs (parseCall f) (parseCall g) := by
  rw [parseCall, parseCall]
  refine (parseMember_along f g h).bind ?_
  intro ⟨callee, f₁, h₁⟩ ⟨callee', g₁, k₁⟩ hcallee hf₁ he₁
  refine (parseCallTail_along h.peek.pos hcallee f₁ g₁ hf₁ he₁).bind ?_
  intro p q he hf₂ he₂
  exact ⟨_, rfl, he, hf₂, he₂⟩
termination_by 10 * f.size + 3
decreasing_by all_goals omega

theorem parseCallTail_along {start start' : Position} {callee callee' : Expr}
    (hstart : v.left start = v.right start') (hcallee : v.Exprs callee callee') (f g : Feed)
    (h : v.Feeds more f g) (he : v.Ends f g) :
    v.Along (v.Feeds more) v.Exprs (parseCallTail start callee f)
      (parseCallTail start' callee' g) := by
  rw [parseCallTail, parseCallTail]
  rcases h.eat? .openParen (by decide) with
    ⟨hf, hg⟩ | ⟨t, f₁, h₁, u, g₁, k₁, hf, hg, _, hf₁, _⟩
  · rw [hf, hg]
    exact ⟨_, rfl, hcallee, h, he⟩
  · rw [hf, hg]
    refine (parseArguments_along f₁ g₁ hf₁).bind ?_
    intro ⟨args, f₂, h₂⟩ ⟨args', g₂, k₂⟩ hargs hf₂ he₂
    have hcall := Exprs.call hstart he₂ hcallee hargs
    refine (parseCallTail_along hstart hcall f₂ g₂ hf₂ he₂).bind ?_
    intro p q he hf₃ he₃
    exact ⟨_, rfl, he, hf₃, he₃⟩
termination_by 10 * f.size + 8
decreasing_by all_goals omega

theorem parseArguments_along (f g : Feed) (h : v.Feeds more f g) :
    v.Along (v.Feeds more) v.ExprLists (parseArguments f) (parseArguments g) := by
  rw [parseArguments, parseArguments]
  rcases h.eat? .closeParen (by decide) with
    ⟨hf, hg⟩ | ⟨t, f₁, h₁, u, g₁, k₁, hf, hg, _, hf₁, he₁⟩
  · rw [hf, hg]
    exact parseArgumentList_along f g h
  · rw [hf, hg]
    exact ⟨_, rfl, rfl, hf₁, he₁⟩
termination_by 10 * f.size + 9
decreasing_by all_goals omega

theorem parseArgumentList_along (f g : Feed) (h : v.Feeds more f g) :
    v.Along (v.Feeds more) v.ExprLists (parseArgumentList f) (parseArgumentList g) := by
  rw [parseArgumentList, parseArgumentList]
  refine (parseExpression_along f g h).bind ?_
  intro ⟨arg, f₁, h₁⟩ ⟨arg', g₁, k₁⟩ harg hf₁ he₁
  dsimp only at harg hf₁ he₁ ⊢
  rcases hf₁.eat? .comma (by decide) with
    ⟨hf, hg⟩ | ⟨t, f₂, h₂, u, g₂, k₂, hf, hg, _, hf₂, _⟩
  · rw [hf, hg]
    refine (Along.expect hf₁ .closeParen (by decide) _).bind ?_
    intro ⟨_, f₂, h₂⟩ ⟨_, g₂, k₂⟩ _ hf₂ he₂
    exact ⟨_, rfl, ExprLists.cons harg rfl, hf₂, he₂⟩
  · rw [hf, hg]
    refine (parseArgumentList_along f₂ g₂ hf₂).bind ?_
    intro ⟨rest, f₃, h₃⟩ ⟨rest', g₃, k₃⟩ hrest hf₃ he₃
    exact ⟨_, rfl, ExprLists.cons harg hrest, hf₃, he₃⟩
termination_by 10 * f.size + 8
decreasing_by all_goals omega

theorem parseMember_along (f g : Feed) (h : v.Feeds more f g) :
    v.Along (v.Feeds more) v.Exprs (parseMember f) (parseMember g) := by
  rw [parseMember, parseMember]
  refine (parsePrimary_along f g h).bind ?_
  intro ⟨object, f₁, h₁⟩ ⟨object', g₁, k₁⟩ hobject hf₁ he₁
  refine (parseMemberTail_along h.peek.pos hobject f₁ g₁ hf₁ he₁).bind ?_
  intro p q he hf₂ he₂
  exact ⟨_, rfl, he, hf₂, he₂⟩
termination_by 10 * f.size + 2
decreasing_by all_goals omega

theorem parseMemberTail_along {start start' : Position} {object object' : Expr}
    (hstart : v.left start = v.right start') (hobject : v.Exprs object object') (f g : Feed)
    (h : v.Feeds more f g) (he : v.Ends f g) :
    v.Along (v.Feeds more) v.Exprs (parseMemberTail start object f)
      (parseMemberTail start' object' g) := by
  rw [parseMemberTail, parseMemberTail]
  rcases h.eat? .dot (by decide) with
    ⟨hf, hg⟩ | ⟨t, f₁, h₁, u, g₁, k₁, hf, hg, _, hf₁, _⟩
  · rw [hf, hg]
    rcases h.eat? .openBracket (by decide) with
      ⟨hf, hg⟩ | ⟨t, f₁, h₁, u, g₁, k₁, hf, hg, _, hf₁, _⟩
    · rw [hf, hg]
      exact ⟨_, rfl, hobject, h, he⟩
    · rw [hf, hg]
      refine (parseExpression_along f₁ g₁ hf₁).bind ?_
      intro ⟨property, f₂, h₂⟩ ⟨property', g₂, k₂⟩ hproperty hf₂ _
      dsimp only at hproperty hf₂ ⊢
      refine (Along.expect hf₂ .closeBracket (by decide) _).bind ?_
      intro ⟨_, f₃, h₃⟩ ⟨_, g₃, k₃⟩ _ hf₃ he₃
      have hmember := Exprs.member hstart he₃ hobject hproperty true
      refine (parseMemberTail_along hstart hmember f₃ g₃ hf₃ he₃).bind ?_
      intro p q he hf₄ he₄
      exact ⟨_, rfl, he, hf₄, he₄⟩
  · rw [hf, hg]
    dsimp only
    rcases hf₁.eat? .identifier (by decide) with
      ⟨hf, hg⟩ | ⟨name, f₂, h₂, name', g₂, k₂, hf, hg, hname, hf₂, he₂⟩
    · rw [hf, hg]
      refine .complain ⟨rfl, ?_⟩
      show _ ++ g₁.peek.describe = _ ++ f₁.peek.describe
      rw [hf₁.peek.describe]
    · rw [hf, hg]
      have hmember := Exprs.member hstart he₂ hobject (Exprs.identifier hname he₂) false
      refine (parseMemberTail_along hstart hmember f₂ g₂ hf₂ he₂).bind ?_
      intro p q he hf₃ he₃
      exact ⟨_, rfl, he, hf₃, he₃⟩
termination_by 10 * f.size + 8
decreasing_by all_goals omega

theorem parsePrimary_along (f g : Feed) (h : v.Feeds more f g) :
    v.Along (v.Feeds more) v.Exprs (parsePrimary f) (parsePrimary g) := by
  rw [parsePrimary, parsePrimary]
  rcases h.eat? .identifier (by decide) with
    ⟨hf, hg⟩ | ⟨t, f₁, h₁, u, g₁, k₁, hf, hg, ht, hf₁, he₁⟩
  swap
  · rw [hf, hg]
    exact ⟨_, rfl, Exprs.identifier ht he₁, hf₁, he₁⟩
  rw [hf, hg]
  rcases h.eat? .number (by decide) with
    ⟨hf, hg⟩ | ⟨t, f₁, h₁, u, g₁, k₁, hf, hg, ht, hf₁, he₁⟩
  swap
  · rw [hf, hg]
    dsimp only
    rw [← ht.lexeme]
    split
    · exact ⟨_, rfl, Exprs.number ht he₁ _, hf₁, he₁⟩
    · exact .complain ⟨rfl, rfl⟩
  rw [hf, hg]
  rcases h.eat? .string (by decide) with
    ⟨hf, hg⟩ | ⟨t, f₁, h₁, u, g₁, k₁, hf, hg, ht, hf₁, he₁⟩
  swap
  · rw [hf, hg]
    exact ⟨_, rfl, Exprs.string ht he₁, hf₁, he₁⟩
  rw [hf, hg]
  rcases h.eat? .openParen (by decide) with
    ⟨hf, hg⟩ | ⟨t, f₁, h₁, u, g₁, k₁, hf, hg, _, hf₁, _⟩
  · rw [hf, hg]
    refine .complain ⟨rfl, ?_⟩
    show _ ++ g.peek.describe = _ ++ f.peek.describe
    rw [h.peek.describe]
  · rw [hf, hg]
    refine (parseExpression_along f₁ g₁ hf₁).bind ?_
    intro ⟨inner, f₂, h₂⟩ ⟨inner', g₂, k₂⟩ hinner hf₂ _
    refine (Along.expect hf₂ .closeParen (by decide) _).bind ?_
    intro ⟨_, f₃, h₃⟩ ⟨_, g₃, k₃⟩ _ hf₃ he₃
    exact ⟨_, rfl, hinner, hf₃, he₃⟩
termination_by 10 * f.size + 1
decreasing_by all_goals omega

end

end Expressions

/-! ## §4. Statements. -/

section Statements

open Views

variable {v : Views} {more : List Token}

/-- Here the semicolon is consumed, and the feeds may part. -/
theorem parseTerminator_along (f g : Feed) (h : v.Feeds more f g) (he : v.Ends f g) :
    v.Along (v.Rests more) (fun _ _ => True) (parseTerminator f) (parseTerminator g) := by
  unfold parseTerminator
  rcases h.eat?_rests .semicolon with
    ⟨hf, hg⟩ | ⟨t, f₁, h₁, u, g₁, k₁, hf, hg, _, _, hf₁, he₁⟩
  · rw [hf, hg, h.isEmpty]
    dsimp only
    by_cases hempty : f.rest.isEmpty = true
    · rw [if_pos hempty, if_pos hempty]
      exact ⟨_, rfl, trivial, h.rests, he⟩
    · rw [if_neg hempty, if_neg hempty]
      exact .complain (.expected h _)
  · rw [hf, hg]
    exact ⟨_, rfl, trivial, hf₁, he₁⟩

theorem parseDeclaration_along {start start' : Position} (hstart : v.left start = v.right start')
    (constant : Bool) (f g : Feed) (h : v.Feeds more f g) :
    v.Along (v.Rests more) v.Statements (parseDeclaration start constant f)
      (parseDeclaration start' constant g) := by
  unfold parseDeclaration
  refine (Along.expect h .identifier (by decide) _).bind ?_
  intro ⟨name, f₁, h₁⟩ ⟨name', g₁, k₁⟩ hname hf₁ he₁
  dsimp only at hname hf₁ he₁ ⊢
  rcases hf₁.eat? .equals (by decide) with
    ⟨hf, hg⟩ | ⟨t, f₂, h₂, u, g₂, k₂, hf, hg, _, hf₂, _⟩
  · rw [hf, hg]
    cases constant with
    | true =>
      refine Along.complain ⟨rfl, ?_⟩
      show _ ++ name'.lexeme.quote = _ ++ name.lexeme.quote
      rw [hname.lexeme]
    | false =>
      refine (parseTerminator_along f₁ g₁ hf₁ he₁).bind ?_
      intro ⟨_, f₂, h₂⟩ ⟨_, g₂, k₂⟩ _ hf₂ he₂
      refine ⟨_, rfl, ?_, hf₂, he₂⟩
      simp only [Views.Statements, Statement.mapSpan, leftSpan_eq hstart he₂, hname.lexeme,
        Expr.mapSpan]
  · rw [hf, hg]
    refine (parseExpression_along f₂ g₂ hf₂).bind ?_
    intro ⟨value, f₃, h₃⟩ ⟨value', g₃, k₃⟩ hvalue hf₃ he₃
    refine (parseTerminator_along f₃ g₃ hf₃ he₃).bind ?_
    intro ⟨_, f₄, h₄⟩ ⟨_, g₄, k₄⟩ _ hf₄ he₄
    refine ⟨_, rfl, ?_, hf₄, he₄⟩
    have hsame : value.mapSpan v.leftSpan = value'.mapSpan v.rightSpan := hvalue
    simp only [Views.Statements, Statement.mapSpan, leftSpan_eq hstart he₄, hname.lexeme, hsame]

theorem parseStatement_along (f g : Feed) (h : v.Feeds more f g) :
    v.Along (v.Rests more) v.Statements (parseStatement f) (parseStatement g) := by
  rw [parseStatement_eq, parseStatement_eq]
  rcases h.eat? .letKeyword (by decide) with
    ⟨hf, hg⟩ | ⟨t, f₁, h₁, u, g₁, k₁, hf, hg, ht, hf₁, _⟩
  swap
  · rw [hf, hg]
    refine (parseDeclaration_along ht.pos false f₁ g₁ hf₁).bind ?_
    intro p q hs hf₂ he₂
    exact ⟨_, rfl, hs, hf₂, he₂⟩
  rw [hf, hg]
  rcases h.eat? .constKeyword (by decide) with
    ⟨hf, hg⟩ | ⟨t, f₁, h₁, u, g₁, k₁, hf, hg, ht, hf₁, _⟩
  swap
  · rw [hf, hg]
    refine (parseDeclaration_along ht.pos true f₁ g₁ hf₁).bind ?_
    intro p q hs hf₂ he₂
    exact ⟨_, rfl, hs, hf₂, he₂⟩
  rw [hf, hg]
  unfold parseBare
  refine (parseExpression_along f g h).bind ?_
  intro ⟨e, f₁, h₁⟩ ⟨e', g₁, k₁⟩ hsame hf₁ he₁
  dsimp only at hsame hf₁ he₁ ⊢
  have hs : v.Statements (.expression e) (.expression e') := congrArg Statement.expression hsame
  rcases hf₁.eat?_rests .semicolon with
    ⟨hf, hg⟩ | ⟨t, f₂, h₂, u, g₂, k₂, hf, hg, _, _, hf₂, he₂⟩
  · rw [hf, hg]
    exact ⟨_, rfl, hs, hf₁.rests, he₁⟩
  · rw [hf, hg]
    exact ⟨_, rfl, hs, hf₂, he₂⟩

/-- Where no token is left, no statement is. -/
theorem parseStatements_of_rest {f : Feed} (h : f.rest = []) : parseStatements f = .ok [] := by
  rw [parseStatements, h]
  rfl

/-- **The second parser reads what the first does, and goes on** with what is left; it fails
    where the first does. -/
theorem parseStatements_along (f g : Feed) (h : v.Rests more f g) :
    (∀ body, parseStatements f = .ok body → ∃ body' g', g'.rest = more ∧ g'.stop = g.stop ∧
      body.map (Statement.mapSpan v.leftSpan) = body'.map (Statement.mapSpan v.rightSpan) ∧
      parseStatements g = (parseStatements g').map (body' ++ ·)) ∧
    ∀ e, parseStatements f = .error e →
      ∃ e', parseStatements g = .error e' ∧ SameWords e e' := by
  by_cases hempty : f.rest.isEmpty = true
  · -- nothing is read, and the second parser stands before what is left
    obtain ⟨us, hg, hall⟩ := h.rest
    rw [List.isEmpty_iff.1 hempty] at hall
    cases hall
    rw [parseStatements_of_rest (List.isEmpty_iff.1 hempty)]
    constructor
    · intro body hbody
      cases hbody
      refine ⟨[], g, hg, rfl, rfl, ?_⟩
      cases parseStatements g with
      | error e => rfl
      | ok body => rfl
    · intro e he
      cases he
  have hfeeds := h.feeds fun hnil => hempty (List.isEmpty_iff.2 hnil)
  have hempty' : ¬ g.rest.isEmpty = true := by
    rw [hfeeds.isEmpty]
    exact hempty
  have hstatement := parseStatement_along f g hfeeds
  rw [parseStatements.eq_1 f, if_neg hempty, parseStatements.eq_1 g, if_neg hempty']
  cases hs : parseStatement f with
  | error e =>
    rw [hs] at hstatement
    constructor
    · intro body hbody
      cases hbody
    · intro e' he'
      cases he'
      obtain ⟨e'', hg, hwords⟩ := hstatement
      rw [hg]
      exact ⟨e'', rfl, hwords⟩
  | ok p =>
    obtain ⟨s, f₁, h₁⟩ := p
    rw [hs] at hstatement
    obtain ⟨⟨s', g₁, k₁⟩, hg, hsame, hrests, _⟩ := hstatement
    obtain ⟨used, htook, _⟩ := parseStatement_spells ⟨k₁, hg⟩
    obtain ⟨hok, herror⟩ := parseStatements_along f₁ g₁ hrests
    rw [hg]
    simp only [bind, Except.bind]
    constructor
    · intro body hbody
      cases hmore : parseStatements f₁ with
      | error e =>
        rw [hmore] at hbody
        cases hbody
      | ok rest =>
        rw [hmore] at hbody
        cases hbody
        obtain ⟨rest', g', hrest, hstop, hbodies, hread⟩ := hok rest hmore
        refine ⟨s' :: rest', g', hrest, hstop.trans htook.stop, ?_, ?_⟩
        · rw [List.map_cons, List.map_cons, hbodies, show s.mapSpan _ = s'.mapSpan _ from hsame]
        · rw [hread]
          cases parseStatements g' with
          | error e => rfl
          | ok body => rfl
    · intro e he
      cases hrest : parseStatements f₁ with
      | ok rest =>
        rw [hrest] at he
        cases he
      | error e' =>
        rw [hrest] at he
        cases he
        obtain ⟨e'', hg', hwords⟩ := herror e hrest
        rw [hg']
        exact ⟨e'', rfl, hwords⟩
termination_by f.size

end Statements

end Scriptorium
