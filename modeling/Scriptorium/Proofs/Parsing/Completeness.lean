/-
  Scriptorium.Proofs.Parsing.Completeness: what the grammar derives, the parser reads.

  A parse function takes as much as it can, so a phrase is read as it was derived only
  if the token after it cannot continue it.  `Token.EndsExpression` and its tighter
  kin say what such a token is; in a derivation every phrase is followed by one.

  The loops that collect operands to the left never see the derivation of the chain
  they have read so far, and the derivation of a chain does not know what the loop
  does next.  `Phrase.Read` therefore says of a chain that the parser reaches the loop
  with the chain in hand, and leaves the rest to the loop.

  The result is read up to a rewriting `g` of places under which the places of the
  parser and those of the derivation agree: the identity if the derivation has the
  parser's places, and one that forgets all places otherwise.
-/

import Scriptorium.Proofs.Parsing.Feed

namespace Scriptorium

/-! ## §1. What cannot continue a phrase. -/

namespace Token

/-- The token takes no member. -/
def EndsMember (t : Token) : Prop := t.kind ≠ .dot ∧ t.kind ≠ .openBracket

/-- The token takes no member and calls nothing. -/
def EndsCall (t : Token) : Prop := t.EndsMember ∧ t.kind ≠ .openParen

/-- The token goes on with no factor. -/
def EndsMultiplicative (t : Token) : Prop := t.EndsCall ∧ ¬ t.IsOperator multiplicativeOperators

/-- The token goes on with no summand. -/
def EndsAdditive (t : Token) : Prop := t.EndsMultiplicative ∧ ¬ t.IsOperator additiveOperators

/-- The token goes on with nothing that belongs to an expression. -/
def EndsExpression (t : Token) : Prop := t.EndsAdditive ∧ t.kind ≠ .equals

theorem endsMember_of_openParen {t : Token} (h : t.kind = .openParen) : t.EndsMember := by
  simp [EndsMember, h]

theorem endsCall_of_operator {t : Token} (h : t.kind = .binaryOperator) : t.EndsCall := by
  simp [EndsCall, EndsMember, h]

theorem endsMultiplicative_of_additive {t : Token} (h : t.IsOperator additiveOperators) :
    t.EndsMultiplicative := by
  refine ⟨endsCall_of_operator h.1, fun hm => ?_⟩
  -- a summand's operator is not read as a factor's
  have hdisjoint : ∀ op ∈ additiveOperators, op ∉ multiplicativeOperators := by decide
  exact hdisjoint _ h.2 hm.2

theorem endsAdditive_of_kind {t : Token} (hc : t.EndsCall) (h : t.kind ≠ .binaryOperator) :
    t.EndsAdditive :=
  ⟨⟨hc, fun hm => h hm.1⟩, fun ha => h ha.1⟩

theorem endsAdditive_of_equals {t : Token} (h : t.kind = .equals) : t.EndsAdditive :=
  endsAdditive_of_kind (by simp [EndsCall, EndsMember, h]) (by simp [h])

/-- The kinds of tokens that can follow an expression. -/
def followKinds : List TokenKind :=
  [.closeParen, .closeBrace, .closeBracket, .comma, .semicolon, .endOfInput, .letKeyword,
    .constKeyword]

theorem endsExpression_of_mem {t : Token} (h : t.kind ∈ followKinds) : t.EndsExpression := by
  have hends : ∀ kind ∈ followKinds, kind ≠ .dot ∧ kind ≠ .openBracket ∧ kind ≠ .openParen ∧
      kind ≠ .binaryOperator ∧ kind ≠ .equals := by decide
  obtain ⟨hd, hb, hp, ho, he⟩ := hends _ h
  exact ⟨endsAdditive_of_kind ⟨⟨hd, hb⟩, hp⟩ ho, he⟩

end Token

/-! ## §2. One step of each parse function. -/

section Steps

variable {f f₁ f₂ f₃ f₄ : Feed} {e left right object property value : Expr} {t u : Token}
  {start : Position}

theorem parseExpression_of_operand (h : (parseOperand f).Gives e f₁)
    (hend : f₁.peek.kind ≠ .equals) : (parseExpression f).Gives e f₁ := by
  rw [parseExpression, Parse.gives_bind]
  refine ⟨e, f₁, h.size_lt, h, ?_⟩
  dsimp only
  rw [Feed.eat?_eq_none_of_peek hend]
  exact Parse.gives_ok.2 ⟨rfl, rfl⟩

theorem parseExpression_of_assign (h : (parseOperand f).Gives left f₁) (ht : f₁.Took [t] f₂)
    (hk : t.kind = .equals) (hv : (parseExpression f₂).Gives value f₃) :
    (parseExpression f).Gives (.assign ⟨f.peek.pos, f₃.lastEnd⟩ left value) f₃ := by
  rw [parseExpression, Parse.gives_bind]
  refine ⟨left, f₁, h.size_lt, h, ?_⟩
  dsimp only
  rw [ht.eat? hk]
  exact Parse.gives_bind.2 ⟨value, f₃, hv.size_lt, hv, Parse.gives_ok.2 ⟨rfl, rfl⟩⟩

theorem parseOperand_of_object {ps : List Property} (ht : f.Took [t] f₁) (hk : t.kind = .openBrace)
    (h : (parseProperties f₁).Gives ps f₂) :
    (parseOperand f).Gives (.object ⟨t.pos, f₂.lastEnd⟩ ps) f₂ := by
  rw [parseOperand, ht.eat? hk]
  exact Parse.gives_bind.2 ⟨ps, f₂, h.size_lt, h, Parse.gives_ok.2 ⟨rfl, rfl⟩⟩

theorem parseOperand_of_list {es : List Expr} (ht : f.Took [t] f₁) (hk : t.kind = .openBracket)
    (h : (parseItems f₁).Gives es f₂) :
    (parseOperand f).Gives (.list ⟨t.pos, f₂.lastEnd⟩ es) f₂ := by
  rw [parseOperand, Feed.eat?_eq_none_of_peek (by rw [ht.peek_eq, hk]; decide), ht.eat? hk]
  exact Parse.gives_bind.2 ⟨es, f₂, h.size_lt, h, Parse.gives_ok.2 ⟨rfl, rfl⟩⟩

theorem parseOperand_of_additive (hfirst : f.peek.kind ∈ primaryKinds)
    (h : (parseAdditive f).Gives e f₁) : (parseOperand f).Gives e f₁ := by
  -- objects and lists are tried first
  have hkinds : ∀ kind ∈ primaryKinds, kind ≠ .openBrace ∧ kind ≠ .openBracket := by decide
  obtain ⟨hbrace, hbracket⟩ := hkinds _ hfirst
  rw [parseOperand, Feed.eat?_eq_none_of_peek hbrace, Feed.eat?_eq_none_of_peek hbracket]
  exact h

theorem parseAdditive_of_tail (h : (parseMultiplicative f).Gives left f₁)
    (htail : (parseAdditiveTail f.peek.pos left f₁).Gives e f₂) :
    (parseAdditive f).Gives e f₂ := by
  simp only [parseAdditive, Parse.gives_bind, Parse.gives_ok]
  exact ⟨left, f₁, h.size_lt, h, e, f₂, htail.size_lt, htail, rfl, rfl⟩

theorem parseAdditiveTail_stop (hend : ¬ f.peek.IsOperator additiveOperators) :
    (parseAdditiveTail start left f).Gives left f := by
  rw [parseAdditiveTail]
  rw [show f.eatOperator? ["+", "-"] = none from Feed.eatOperator?_eq_none hend]
  exact Parse.gives_ok.2 ⟨rfl, rfl⟩

theorem parseAdditiveTail_step (ht : f.Took [t] f₁) (ho : t.IsOperator additiveOperators)
    (h : (parseMultiplicative f₁).Gives right f₂)
    (htail : (parseAdditiveTail start (.binary ⟨start, f₂.lastEnd⟩ t.lexeme left right) f₂).Gives
      e f₃) :
    (parseAdditiveTail start left f).Gives e f₃ := by
  rw [parseAdditiveTail]
  rw [show f.eatOperator? ["+", "-"] = _ from ht.eatOperator? ho]
  simp only [Parse.gives_bind, Parse.gives_ok]
  exact ⟨right, f₂, h.size_lt, h, e, f₃, htail.size_lt, htail, rfl, rfl⟩

theorem parseMultiplicative_of_tail (h : (parseCall f).Gives left f₁)
    (htail : (parseMultiplicativeTail f.peek.pos left f₁).Gives e f₂) :
    (parseMultiplicative f).Gives e f₂ := by
  simp only [parseMultiplicative, Parse.gives_bind, Parse.gives_ok]
  exact ⟨left, f₁, h.size_lt, h, e, f₂, htail.size_lt, htail, rfl, rfl⟩

theorem parseMultiplicativeTail_stop (hend : ¬ f.peek.IsOperator multiplicativeOperators) :
    (parseMultiplicativeTail start left f).Gives left f := by
  rw [parseMultiplicativeTail]
  rw [show f.eatOperator? ["*", "/", "%"] = none from Feed.eatOperator?_eq_none hend]
  exact Parse.gives_ok.2 ⟨rfl, rfl⟩

theorem parseMultiplicativeTail_step (ht : f.Took [t] f₁)
    (ho : t.IsOperator multiplicativeOperators) (h : (parseCall f₁).Gives right f₂)
    (htail : (parseMultiplicativeTail start
      (.binary ⟨start, f₂.lastEnd⟩ t.lexeme left right) f₂).Gives e f₃) :
    (parseMultiplicativeTail start left f).Gives e f₃ := by
  rw [parseMultiplicativeTail]
  rw [show f.eatOperator? ["*", "/", "%"] = _ from ht.eatOperator? ho]
  simp only [Parse.gives_bind, Parse.gives_ok]
  exact ⟨right, f₂, h.size_lt, h, e, f₃, htail.size_lt, htail, rfl, rfl⟩

theorem parseCall_of_tail (h : (parseMember f).Gives left f₁)
    (htail : (parseCallTail f.peek.pos left f₁).Gives e f₂) : (parseCall f).Gives e f₂ := by
  simp only [parseCall, Parse.gives_bind, Parse.gives_ok]
  exact ⟨left, f₁, h.size_lt, h, e, f₂, htail.size_lt, htail, rfl, rfl⟩

theorem parseCallTail_stop (hend : f.peek.kind ≠ .openParen) :
    (parseCallTail start left f).Gives left f := by
  rw [parseCallTail, Feed.eat?_eq_none_of_peek hend]
  exact Parse.gives_ok.2 ⟨rfl, rfl⟩

theorem parseCallTail_step {args : List Expr} (ht : f.Took [t] f₁) (hk : t.kind = .openParen)
    (h : (parseArguments f₁).Gives args f₂)
    (htail : (parseCallTail start (.call ⟨start, f₂.lastEnd⟩ left args) f₂).Gives e f₃) :
    (parseCallTail start left f).Gives e f₃ := by
  rw [parseCallTail, ht.eat? hk]
  simp only [Parse.gives_bind, Parse.gives_ok]
  exact ⟨args, f₂, h.size_lt, h, e, f₃, htail.size_lt, htail, rfl, rfl⟩

theorem parseMember_of_tail (h : (parsePrimary f).Gives object f₁)
    (htail : (parseMemberTail f.peek.pos object f₁).Gives e f₂) :
    (parseMember f).Gives e f₂ := by
  simp only [parseMember, Parse.gives_bind, Parse.gives_ok]
  exact ⟨object, f₁, h.size_lt, h, e, f₂, htail.size_lt, htail, rfl, rfl⟩

theorem parseMemberTail_stop (hend : f.peek.EndsMember) :
    (parseMemberTail start object f).Gives object f := by
  rw [parseMemberTail, Feed.eat?_eq_none_of_peek hend.1, Feed.eat?_eq_none_of_peek hend.2]
  exact Parse.gives_ok.2 ⟨rfl, rfl⟩

theorem parseMemberTail_dotted (ht : f.Took [t] f₁) (hk : t.kind = .dot) (hu : f₁.Took [u] f₂)
    (hname : u.kind = .identifier)
    (htail : (parseMemberTail start (.member ⟨start, f₂.lastEnd⟩ object
      (.identifier ⟨u.pos, f₂.lastEnd⟩ u.lexeme) false) f₂).Gives e f₃) :
    (parseMemberTail start object f).Gives e f₃ := by
  rw [parseMemberTail, ht.eat? hk]
  dsimp only
  rw [hu.eat? hname]
  simp only [Parse.gives_bind, Parse.gives_ok]
  exact ⟨e, f₃, htail.size_lt, htail, rfl, rfl⟩

theorem parseMemberTail_computed (ht : f.Took [t] f₁) (hk : t.kind = .openBracket)
    (h : (parseExpression f₁).Gives property f₂) (hu : f₂.Took [u] f₃)
    (hclose : u.kind = .closeBracket)
    (htail : (parseMemberTail start (.member ⟨start, f₃.lastEnd⟩ object property true) f₃).Gives
      e f₄) :
    (parseMemberTail start object f).Gives e f₄ := by
  rw [parseMemberTail, Feed.eat?_eq_none_of_peek (by rw [ht.peek_eq, hk]; decide), ht.eat? hk]
  simp only [Parse.gives_bind, Parse.gives_expect, Parse.gives_ok]
  exact ⟨property, f₂, h.size_lt, h, u, f₃, hu.size_lt, ⟨hu, hclose⟩, e, f₄, htail.size_lt, htail,
    rfl, rfl⟩

theorem parsePrimary_of_name (ht : f.Took [t] f₁) (hk : t.kind = .identifier) :
    (parsePrimary f).Gives (.identifier ⟨t.pos, f₁.lastEnd⟩ t.lexeme) f₁ := by
  rw [parsePrimary, ht.eat? hk]
  exact Parse.gives_ok.2 ⟨rfl, rfl⟩

theorem parsePrimary_of_number {value : Float} (ht : f.Took [t] f₁) (hk : t.kind = .number)
    (hw : Number.ofText? t.lexeme = some value) :
    (parsePrimary f).Gives (.number ⟨t.pos, f₁.lastEnd⟩ value) f₁ := by
  rw [parsePrimary, Feed.eat?_eq_none_of_peek (by rw [ht.peek_eq, hk]; decide), ht.eat? hk]
  dsimp only
  rw [hw]
  exact Parse.gives_ok.2 ⟨rfl, rfl⟩

theorem parsePrimary_of_string (ht : f.Took [t] f₁) (hk : t.kind = .string) :
    (parsePrimary f).Gives (.string ⟨t.pos, f₁.lastEnd⟩ t.lexeme) f₁ := by
  rw [parsePrimary, Feed.eat?_eq_none_of_peek (by rw [ht.peek_eq, hk]; decide),
    Feed.eat?_eq_none_of_peek (by rw [ht.peek_eq, hk]; decide), ht.eat? hk]
  exact Parse.gives_ok.2 ⟨rfl, rfl⟩

theorem parsePrimary_of_group (ht : f.Took [t] f₁) (hk : t.kind = .openParen)
    (h : (parseExpression f₁).Gives e f₂) (hu : f₂.Took [u] f₃) (hclose : u.kind = .closeParen) :
    (parsePrimary f).Gives e f₃ := by
  rw [parsePrimary, Feed.eat?_eq_none_of_peek (by rw [ht.peek_eq, hk]; decide),
    Feed.eat?_eq_none_of_peek (by rw [ht.peek_eq, hk]; decide),
    Feed.eat?_eq_none_of_peek (by rw [ht.peek_eq, hk]; decide), ht.eat? hk]
  simp only [Parse.gives_bind, Parse.gives_expect, Parse.gives_ok]
  exact ⟨e, f₂, h.size_lt, h, u, f₃, hu.size_lt, ⟨hu, hclose⟩, rfl, rfl⟩

theorem parseArguments_of_end (ht : f.Took [t] f₁) (hk : t.kind = .closeParen) :
    (parseArguments f).Gives [] f₁ := by
  rw [parseArguments, ht.eat? hk]
  exact Parse.gives_ok.2 ⟨rfl, rfl⟩

theorem parseArguments_of_list {args : List Expr} (hfirst : f.peek.kind ∈ expressionKinds)
    (h : (parseArgumentList f).Gives args f₁) : (parseArguments f).Gives args f₁ := by
  have hkinds : ∀ kind ∈ expressionKinds, kind ≠ .closeParen := by decide
  rw [parseArguments, Feed.eat?_eq_none_of_peek (hkinds _ hfirst)]
  exact h

theorem parseArgumentList_of_last (h : (parseExpression f).Gives e f₁) (ht : f₁.Took [t] f₂)
    (hk : t.kind = .closeParen) : (parseArgumentList f).Gives [e] f₂ := by
  rw [parseArgumentList, Parse.gives_bind]
  refine ⟨e, f₁, h.size_lt, h, ?_⟩
  dsimp only
  rw [Feed.eat?_eq_none_of_peek (by rw [ht.peek_eq, hk]; decide), Parse.gives_bind]
  exact ⟨t, f₂, ht.size_lt, Parse.gives_expect.2 ⟨ht, hk⟩, Parse.gives_ok.2 ⟨rfl, rfl⟩⟩

theorem parseArgumentList_of_more {args : List Expr} (h : (parseExpression f).Gives e f₁)
    (ht : f₁.Took [t] f₂) (hk : t.kind = .comma) (hmore : (parseArgumentList f₂).Gives args f₃) :
    (parseArgumentList f).Gives (e :: args) f₃ := by
  rw [parseArgumentList, Parse.gives_bind]
  refine ⟨e, f₁, h.size_lt, h, ?_⟩
  dsimp only
  rw [ht.eat? hk]
  simp only [Parse.gives_bind, Parse.gives_ok]
  exact ⟨args, f₃, hmore.size_lt, hmore, rfl, rfl⟩

theorem parseItems_of_end (ht : f.Took [t] f₁) (hk : t.kind = .closeBracket) :
    (parseItems f).Gives [] f₁ := by
  rw [parseItems, ht.eat? hk]
  exact Parse.gives_ok.2 ⟨rfl, rfl⟩

/-- There is something to read where an expression begins. -/
theorem rest_isEmpty_of_peek {kinds : List TokenKind} (hfirst : f.peek.kind ∈ kinds)
    (hkinds : .endOfInput ∉ kinds) : ¬ f.rest.isEmpty = true := by
  intro hempty
  have hend : f.peek.kind = .endOfInput := by
    unfold Feed.peek
    rw [List.isEmpty_iff.1 hempty]
    rfl
  exact hkinds (hend ▸ hfirst)

/-- What stands after an item: the closing bracket, or a comma and the items `es`. -/
def Feed.EndsItem (f : Feed) (es : List Expr) (f' : Feed) : Prop :=
  (∃ last, f.Took [last] f' ∧ last.kind = .closeBracket ∧ es = []) ∨
    ∃ comma f₁, f.Took [comma] f₁ ∧ comma.kind = .comma ∧ (parseItems f₁).Gives es f'

theorem parseItems_of_item {es : List Expr} (hfirst : f.peek.kind ∈ expressionKinds)
    (h : (parseExpression f).Gives e f₁) (hend : f₁.EndsItem es f₂) :
    (parseItems f).Gives (e :: es) f₂ := by
  have hkinds : ∀ kind ∈ expressionKinds, kind ≠ .closeBracket := by decide
  rw [parseItems, Feed.eat?_eq_none_of_peek (hkinds _ hfirst)]
  dsimp only
  rw [if_neg (rest_isEmpty_of_peek hfirst (by decide)), Parse.gives_bind]
  refine ⟨e, f₁, h.size_lt, h, ?_⟩
  dsimp only
  rcases hend with ⟨last, ht, hk, rfl⟩ | ⟨comma, f₃, ht, hk, hmore⟩
  · -- the bracket is left to the next round, which gives no items
    rw [if_pos (by rw [ht.peek_eq]; exact hk), Parse.gives_bind]
    exact ⟨[], f₂, ht.size_lt, parseItems_of_end ht hk, Parse.gives_ok.2 ⟨rfl, rfl⟩⟩
  · rw [if_neg (by rw [ht.peek_eq, hk]; decide)]
    simp only [Parse.gives_bind, Parse.gives_expect, Parse.gives_ok]
    exact ⟨comma, f₃, ht.size_lt, ⟨ht, hk⟩, es, f₂, hmore.size_lt, hmore, rfl, rfl⟩

theorem parseProperties_of_end (ht : f.Took [t] f₁) (hk : t.kind = .closeBrace) :
    (parseProperties f).Gives [] f₁ := by
  rw [parseProperties, ht.eat? hk]
  exact Parse.gives_ok.2 ⟨rfl, rfl⟩

theorem parseProperties_of_shorthand (ht : f.Took [t] f₁) (hkey : t.kind = .identifier)
    (hu : f₁.Took [u] f₂) (hk : u.kind = .closeBrace) :
    (parseProperties f).Gives [.mk ⟨t.pos, f₁.lastEnd⟩ t.lexeme .absent] f₂ := by
  have hfirst : f.peek.kind ∈ [TokenKind.identifier] := by simp [ht.peek_eq, hkey]
  rw [parseProperties, Feed.eat?_eq_none_of_peek (by rw [ht.peek_eq, hkey]; decide)]
  dsimp only
  rw [if_neg (rest_isEmpty_of_peek hfirst (by decide)), Parse.gives_bind]
  refine ⟨t, f₁, ht.size_lt, Parse.gives_expect.2 ⟨ht, hkey⟩, ?_⟩
  dsimp only
  rw [Feed.eat?_eq_none_of_peek (by rw [hu.peek_eq, hk]; decide)]
  dsimp only
  rw [if_pos (by rw [hu.peek_eq]; exact hk), Parse.gives_bind]
  exact ⟨[], f₂, hu.size_lt, parseProperties_of_end hu hk, Parse.gives_ok.2 ⟨rfl, rfl⟩⟩

theorem parseProperties_of_shorthandMore {ps : List Property} (ht : f.Took [t] f₁)
    (hkey : t.kind = .identifier) (hu : f₁.Took [u] f₂) (hk : u.kind = .comma)
    (hmore : (parseProperties f₂).Gives ps f₃) :
    (parseProperties f).Gives (.mk ⟨t.pos, f₂.lastEnd⟩ t.lexeme .absent :: ps) f₃ := by
  have hfirst : f.peek.kind ∈ [TokenKind.identifier] := by simp [ht.peek_eq, hkey]
  rw [parseProperties, Feed.eat?_eq_none_of_peek (by rw [ht.peek_eq, hkey]; decide)]
  dsimp only
  rw [if_neg (rest_isEmpty_of_peek hfirst (by decide)), Parse.gives_bind]
  refine ⟨t, f₁, ht.size_lt, Parse.gives_expect.2 ⟨ht, hkey⟩, ?_⟩
  dsimp only
  rw [hu.eat? hk]
  simp only [Parse.gives_bind, Parse.gives_ok]
  exact ⟨ps, f₃, hmore.size_lt, hmore, rfl, rfl⟩

/-- What stands after a property: the closing brace, or a comma and the properties
    `ps`. -/
def Feed.EndsProperty (f : Feed) (ps : List Property) (f' : Feed) : Prop :=
  (∃ last, f.Took [last] f' ∧ last.kind = .closeBrace ∧ ps = []) ∨
    ∃ comma f₁, f.Took [comma] f₁ ∧ comma.kind = .comma ∧ (parseProperties f₁).Gives ps f'

theorem parseProperties_of_keyed {ps : List Property} (ht : f.Took [t] f₁)
    (hkey : t.kind = .identifier) (hu : f₁.Took [u] f₂) (hk : u.kind = .colon)
    (hv : (parseExpression f₂).Gives value f₃) (hend : f₃.EndsProperty ps f₄) :
    (parseProperties f).Gives (.mk ⟨t.pos, f₃.lastEnd⟩ t.lexeme value :: ps) f₄ := by
  have hfirst : f.peek.kind ∈ [TokenKind.identifier] := by simp [ht.peek_eq, hkey]
  rw [parseProperties, Feed.eat?_eq_none_of_peek (by rw [ht.peek_eq, hkey]; decide)]
  dsimp only
  rw [if_neg (rest_isEmpty_of_peek hfirst (by decide)), Parse.gives_bind]
  refine ⟨t, f₁, ht.size_lt, Parse.gives_expect.2 ⟨ht, hkey⟩, ?_⟩
  dsimp only
  rw [Feed.eat?_eq_none_of_peek (by rw [hu.peek_eq, hk]; decide)]
  dsimp only
  rw [if_neg (by rw [hu.peek_eq, hk]; decide)]
  simp only [Parse.gives_bind, Parse.gives_expect]
  refine ⟨u, f₂, hu.size_lt, ⟨hu, hk⟩, value, f₃, hv.size_lt, hv, ?_⟩
  rcases hend with ⟨last, hl, hlast, rfl⟩ | ⟨comma, f₅, hc, hcomma, hmore⟩
  · rw [if_pos (by rw [hl.peek_eq]; exact hlast), Parse.gives_bind]
    exact ⟨[], f₄, hl.size_lt, parseProperties_of_end hl hlast, Parse.gives_ok.2 ⟨rfl, rfl⟩⟩
  · rw [if_neg (by rw [hc.peek_eq, hcomma]; decide)]
    simp only [Parse.gives_bind, Parse.gives_expect, Parse.gives_ok]
    exact ⟨comma, f₅, hc.size_lt, ⟨hc, hcomma⟩, ps, f₄, hmore.size_lt, hmore, rfl, rfl⟩

end Steps

/-! ## §3. Every derivation is read. -/

/-- The parser reads the phrase wherever the tokens stand before something that cannot
    continue it, up to the places. -/
def Phrase.Read (g : Span → Span) : Phrase → List Token → Prop
  | .expression e, ts => ∀ f f' : Feed, f.Took ts f' → f'.peek.EndsExpression →
      ∃ e', (parseExpression f).Gives e' f' ∧ e'.mapSpan g = e.mapSpan g
  | .operand e, ts => ∀ f f' : Feed, f.Took ts f' → f'.peek.EndsAdditive →
      ∃ e', (parseOperand f).Gives e' f' ∧ e'.mapSpan g = e.mapSpan g
  | .additive e, ts => ∀ f f' : Feed, f.Took ts f' → f'.peek.EndsMultiplicative →
      ∃ e', e'.mapSpan g = e.mapSpan g ∧ ∀ v f'',
        (parseAdditiveTail f.peek.pos e' f').Gives v f'' → (parseAdditive f).Gives v f''
  | .multiplicative e, ts => ∀ f f' : Feed, f.Took ts f' → f'.peek.EndsCall →
      ∃ e', e'.mapSpan g = e.mapSpan g ∧ ∀ v f'',
        (parseMultiplicativeTail f.peek.pos e' f').Gives v f'' →
          (parseMultiplicative f).Gives v f''
  | .call e, ts => ∀ f f' : Feed, f.Took ts f' → f'.peek.EndsMember →
      ∃ e', e'.mapSpan g = e.mapSpan g ∧ ∀ v f'',
        (parseCallTail f.peek.pos e' f').Gives v f'' → (parseCall f).Gives v f''
  | .member e, ts => ∀ f f' : Feed, f.Took ts f' →
      ∃ e', e'.mapSpan g = e.mapSpan g ∧ ∀ v f'',
        (parseMemberTail f.peek.pos e' f').Gives v f'' → (parseMember f).Gives v f''
  | .primary e, ts => ∀ f f' : Feed, f.Took ts f' →
      ∃ e', (parsePrimary f).Gives e' f' ∧ e'.mapSpan g = e.mapSpan g
  | .properties ps, ts => ∀ (f f' : Feed) (last : Token), f.Took (ts ++ [last]) f' →
      last.kind = .closeBrace →
      ∃ ps', (parseProperties f).Gives ps' f' ∧ Property.mapSpanAll g ps' = Property.mapSpanAll g ps
  | .items es, ts => ∀ (f f' : Feed) (last : Token), f.Took (ts ++ [last]) f' →
      last.kind = .closeBracket →
      ∃ es', (parseItems f).Gives es' f' ∧ Expr.mapSpanAll g es' = Expr.mapSpanAll g es
  | .arguments es, ts => ∀ (f f' : Feed) (last : Token), f.Took (ts ++ [last]) f' →
      last.kind = .closeParen →
      ∃ es', (parseArguments f).Gives es' f' ∧ Expr.mapSpanAll g es' = Expr.mapSpanAll g es
  | .argumentList es, ts => ∀ (f f' : Feed) (last : Token), f.Took (ts ++ [last]) f' →
      last.kind = .closeParen →
      ∃ es', (parseArgumentList f).Gives es' f' ∧ Expr.mapSpanAll g es' = Expr.mapSpanAll g es

section Read

variable {g : Span → Span} {e : Expr} {ts : List Token} {f f' : Feed}

/-- A sum is read whole before a token that ends it. -/
theorem Phrase.Read.additive (h : Phrase.Read g (.additive e) ts) (ht : f.Took ts f')
    (hend : f'.peek.EndsAdditive) :
    ∃ e', (parseAdditive f).Gives e' f' ∧ e'.mapSpan g = e.mapSpan g := by
  obtain ⟨e', he, hloop⟩ := h f f' ht hend.1
  exact ⟨e', hloop _ _ (parseAdditiveTail_stop hend.2), he⟩

/-- A product is read whole before a token that ends it. -/
theorem Phrase.Read.multiplicative (h : Phrase.Read g (.multiplicative e) ts) (ht : f.Took ts f')
    (hend : f'.peek.EndsMultiplicative) :
    ∃ e', (parseMultiplicative f).Gives e' f' ∧ e'.mapSpan g = e.mapSpan g := by
  obtain ⟨e', he, hloop⟩ := h f f' ht hend.1
  exact ⟨e', hloop _ _ (parseMultiplicativeTail_stop hend.2), he⟩

/-- A call is read whole before a token that ends it. -/
theorem Phrase.Read.call (h : Phrase.Read g (.call e) ts) (ht : f.Took ts f')
    (hend : f'.peek.EndsCall) :
    ∃ e', (parseCall f).Gives e' f' ∧ e'.mapSpan g = e.mapSpan g := by
  obtain ⟨e', he, hloop⟩ := h f f' ht hend.1
  exact ⟨e', hloop _ _ (parseCallTail_stop hend.2), he⟩

/-- A member is read whole before a token that ends it. -/
theorem Phrase.Read.member (h : Phrase.Read g (.member e) ts) (ht : f.Took ts f')
    (hend : f'.peek.EndsMember) :
    ∃ e', (parseMember f).Gives e' f' ∧ e'.mapSpan g = e.mapSpan g := by
  obtain ⟨e', he, hloop⟩ := h f f' ht
  exact ⟨e', hloop _ _ (parseMemberTail_stop hend), he⟩

/-- An expression is read before a token that can follow one. -/
theorem Phrase.Read.before {us : List Token} {t : Token} (h : Phrase.Read g (.expression e) ts)
    (ht : f.Took (ts ++ t :: us) f') (hk : t.kind ∈ Token.followKinds) :
    ∃ e' f₁ f₂, (parseExpression f).Gives e' f₁ ∧ e'.mapSpan g = e.mapSpan g ∧
      f.Took ts f₁ ∧ f₁.Took [t] f₂ ∧ f₂.Took us f' := by
  obtain ⟨f₁, hts, hrest⟩ := ht.of_append
  obtain ⟨f₂, htok, hus⟩ := hrest.of_cons
  obtain ⟨e', hgives, he⟩ := h f f₁ hts (by rw [htok.peek_eq]; exact Token.endsExpression_of_mem hk)
  exact ⟨e', f₁, f₂, hgives, he, hts, htok, hus⟩

end Read

/-! ## §4. One production at a time.

    The places of the derivation are those of `mark`; `hg` says that `g` does not see the
    difference from the parser's. -/

section Productions

variable {mark : List Token → Span} {g : Span → Span}
  (hg : ∀ ts, g (Token.extent ts) = g (mark ts))
  {e left right holder property target value : Expr} {ts us : List Token} {t u : Token}

include hg

/-- The place that the parser gives to a part agrees with that of its derivation. -/
theorem place_eq {f f' : Feed} (ht : f.Took ts f') (hne : ts ≠ []) :
    g ⟨f.peek.pos, f'.lastEnd⟩ = g (mark ts) := by
  rw [ht.extent hne, hg]

namespace Phrase.Read

theorem assign (hl : Read g (.operand target) ts) (hk : t.kind = .equals)
    (hv : Read g (.expression value) us) :
    Read g (.expression (.assign (mark (ts ++ t :: us)) target value)) (ts ++ t :: us) := by
  intro f f' ht hend
  obtain ⟨f₁, hts, hrest⟩ := ht.of_append
  obtain ⟨f₂, htok, hus⟩ := hrest.of_cons
  obtain ⟨l', hl', hle⟩ := hl f f₁ hts (by rw [htok.peek_eq]; exact Token.endsAdditive_of_equals hk)
  obtain ⟨v', hv', hve⟩ := hv f₂ f' hus hend
  refine ⟨_, parseExpression_of_assign hl' htok hk hv', ?_⟩
  rw [Expr.mapSpan, Expr.mapSpan, place_eq hg ht (by simp), hle, hve]

theorem object {ps : List Property} (hopen : t.kind = .openBrace) (hp : Read g (.properties ps) ts)
    (hclose : u.kind = .closeBrace) :
    Read g (.operand (.object (mark (t :: (ts ++ [u]))) ps)) (t :: (ts ++ [u])) := by
  intro f f' ht _
  obtain ⟨f₁, htok, hrest⟩ := ht.of_cons
  obtain ⟨ps', hps', hpe⟩ := hp f₁ f' u hrest hclose
  refine ⟨_, parseOperand_of_object htok hopen hps', ?_⟩
  rw [Expr.mapSpan, Expr.mapSpan, ← htok.peek_eq, place_eq hg ht (by simp), htok.peek_eq, hpe]

theorem list {es : List Expr} (hopen : t.kind = .openBracket) (hi : Read g (.items es) ts)
    (hclose : u.kind = .closeBracket) :
    Read g (.operand (.list (mark (t :: (ts ++ [u]))) es)) (t :: (ts ++ [u])) := by
  intro f f' ht _
  obtain ⟨f₁, htok, hrest⟩ := ht.of_cons
  obtain ⟨es', hes', hee⟩ := hi f₁ f' u hrest hclose
  refine ⟨_, parseOperand_of_list htok hopen hes', ?_⟩
  rw [Expr.mapSpan, Expr.mapSpan, ← htok.peek_eq, place_eq hg ht (by simp), htok.peek_eq, hee]

theorem plus (hl : Read g (.additive left) ts) (ho : t.IsOperator additiveOperators)
    (hr : Read g (.multiplicative right) us) :
    Read g (.additive (.binary (mark (ts ++ t :: us)) t.lexeme left right)) (ts ++ t :: us) := by
  intro f f' ht hend
  obtain ⟨f₁, hts, hrest⟩ := ht.of_append
  obtain ⟨f₂, htok, hus⟩ := hrest.of_cons
  -- the loop has the left operand in hand and finds the operator
  obtain ⟨l', hle, hloop⟩ :=
    hl f f₁ hts (by rw [htok.peek_eq]; exact Token.endsMultiplicative_of_additive ho)
  obtain ⟨r', hr', hre⟩ := hr.multiplicative hus hend
  refine ⟨.binary ⟨f.peek.pos, f'.lastEnd⟩ t.lexeme l' r', ?_, fun v f'' hv => ?_⟩
  · rw [Expr.mapSpan, Expr.mapSpan, place_eq hg ht (by simp), hle, hre]
  · exact hloop _ _ (parseAdditiveTail_step htok ho hr' hv)

theorem times (hl : Read g (.multiplicative left) ts) (ho : t.IsOperator multiplicativeOperators)
    (hr : Read g (.call right) us) :
    Read g (.multiplicative (.binary (mark (ts ++ t :: us)) t.lexeme left right))
      (ts ++ t :: us) := by
  intro f f' ht hend
  obtain ⟨f₁, hts, hrest⟩ := ht.of_append
  obtain ⟨f₂, htok, hus⟩ := hrest.of_cons
  obtain ⟨l', hle, hloop⟩ :=
    hl f f₁ hts (by rw [htok.peek_eq]; exact Token.endsCall_of_operator ho.1)
  obtain ⟨r', hr', hre⟩ := hr.call hus hend
  refine ⟨.binary ⟨f.peek.pos, f'.lastEnd⟩ t.lexeme l' r', ?_, fun v f'' hv => ?_⟩
  · rw [Expr.mapSpan, Expr.mapSpan, place_eq hg ht (by simp), hle, hre]
  · exact hloop _ _ (parseMultiplicativeTail_step htok ho hr' hv)

theorem apply {args : List Expr} (hl : Read g (.call left) ts) (hopen : t.kind = .openParen)
    (ha : Read g (.arguments args) us) (hclose : u.kind = .closeParen) :
    Read g (.call (.call (mark (ts ++ t :: (us ++ [u]))) left args)) (ts ++ t :: (us ++ [u])) := by
  intro f f' ht _
  obtain ⟨f₁, hts, hrest⟩ := ht.of_append
  obtain ⟨f₂, htok, hus⟩ := hrest.of_cons
  obtain ⟨l', hle, hloop⟩ :=
    hl f f₁ hts (by rw [htok.peek_eq]; exact Token.endsMember_of_openParen hopen)
  obtain ⟨as', has', hae⟩ := ha f₂ f' u hus hclose
  refine ⟨.call ⟨f.peek.pos, f'.lastEnd⟩ l' as', ?_, fun v f'' hv => ?_⟩
  · rw [Expr.mapSpan, Expr.mapSpan, place_eq hg ht (by simp), hle, hae]
  · exact hloop _ _ (parseCallTail_step htok hopen has' hv)

theorem dotted (hl : Read g (.member holder) ts) (hdot : t.kind = .dot)
    (hname : u.kind = .identifier) :
    Read g (.member (.member (mark (ts ++ [t, u])) holder (.identifier (mark [u]) u.lexeme) false))
      (ts ++ [t, u]) := by
  intro f f' ht
  obtain ⟨f₁, hts, hrest⟩ := ht.of_append
  obtain ⟨f₂, htok, hu⟩ := hrest.of_cons
  obtain ⟨o', hoe, hloop⟩ := hl f f₁ hts
  refine ⟨.member ⟨f.peek.pos, f'.lastEnd⟩ o' (.identifier ⟨u.pos, f'.lastEnd⟩ u.lexeme) false, ?_,
    fun v f'' hv => ?_⟩
  · simp only [Expr.mapSpan]
    rw [place_eq hg ht (by simp), hu.extent_singleton, hg, hoe]
  · exact hloop _ _ (parseMemberTail_dotted htok hdot hu hname hv)

theorem computed (hl : Read g (.member holder) ts) (hopen : t.kind = .openBracket)
    (hp : Read g (.expression property) us) (hclose : u.kind = .closeBracket) :
    Read g (.member (.member (mark (ts ++ t :: (us ++ [u]))) holder property true))
      (ts ++ t :: (us ++ [u])) := by
  intro f f' ht
  obtain ⟨f₁, hts, hrest⟩ := ht.of_append
  obtain ⟨f₂, htok, hus⟩ := hrest.of_cons
  obtain ⟨o', hoe, hloop⟩ := hl f f₁ hts
  obtain ⟨p', f₃, f₄, hp', hpe, _, hu, hnil⟩ := hp.before hus (by simp [hclose, Token.followKinds])
  obtain rfl := hnil.eq_of_nil
  refine ⟨.member ⟨f.peek.pos, f'.lastEnd⟩ o' p' true, ?_, fun v f'' hv => ?_⟩
  · rw [Expr.mapSpan, Expr.mapSpan, place_eq hg ht (by simp), hoe, hpe]
  · exact hloop _ _ (parseMemberTail_computed htok hopen hp' hu hclose hv)

theorem name (hk : t.kind = .identifier) :
    Read g (.primary (.identifier (mark [t]) t.lexeme)) [t] := by
  intro f f' ht
  refine ⟨_, parsePrimary_of_name ht hk, ?_⟩
  rw [Expr.mapSpan, Expr.mapSpan, ht.extent_singleton, hg]

theorem number {value : Float} (hk : t.kind = .number)
    (hw : Number.ofText? t.lexeme = some value) :
    Read g (.primary (.number (mark [t]) value)) [t] := by
  intro f f' ht
  refine ⟨_, parsePrimary_of_number ht hk hw, ?_⟩
  rw [Expr.mapSpan, Expr.mapSpan, ht.extent_singleton, hg]

theorem string (hk : t.kind = .string) : Read g (.primary (.string (mark [t]) t.lexeme)) [t] := by
  intro f f' ht
  refine ⟨_, parsePrimary_of_string ht hk, ?_⟩
  rw [Expr.mapSpan, Expr.mapSpan, ht.extent_singleton, hg]

omit hg in
theorem group (hopen : t.kind = .openParen) (he : Read g (.expression e) ts)
    (hclose : u.kind = .closeParen) : Read g (.primary e) (t :: (ts ++ [u])) := by
  intro f f' ht
  obtain ⟨f₁, htok, hrest⟩ := ht.of_cons
  obtain ⟨e', f₂, f₃, he', hee, _, hu, hnil⟩ :=
    he.before hrest (by simp [hclose, Token.followKinds])
  obtain rfl := hnil.eq_of_nil
  exact ⟨e', parsePrimary_of_group htok hopen he' hu hclose, hee⟩

theorem shorthand (hkey : t.kind = .identifier) :
    Read g (.properties [.mk (mark [t]) t.lexeme .absent]) [t] := by
  intro f f' last ht hlast
  obtain ⟨f₁, htok, hl⟩ := ht.of_cons
  refine ⟨_, parseProperties_of_shorthand htok hkey hl hlast, ?_⟩
  simp only [Property.mapSpanAll, Property.mapSpan]
  rw [htok.extent_singleton, hg]

theorem shorthandMore {ps : List Property} (hkey : t.kind = .identifier) (hcomma : u.kind = .comma)
    (hp : Read g (.properties ps) ts) :
    Read g (.properties (.mk (mark [t, u]) t.lexeme .absent :: ps)) (t :: u :: ts) := by
  intro f f' last ht hlast
  obtain ⟨f₁, htok, hrest⟩ := ht.of_cons
  obtain ⟨f₂, hu, hts⟩ := hrest.of_cons
  obtain ⟨ps', hps', hpe⟩ := hp f₂ f' last hts hlast
  refine ⟨_, parseProperties_of_shorthandMore htok hkey hu hcomma hps', ?_⟩
  simp only [Property.mapSpanAll, Property.mapSpan]
  rw [← htok.peek_eq, place_eq hg (htok.cons hu) (by simp), htok.peek_eq, hpe]

theorem keyed (hkey : t.kind = .identifier) (hcolon : u.kind = .colon)
    (hv : Read g (.expression value) ts) :
    Read g (.properties [.mk (mark (t :: u :: ts)) t.lexeme value]) (t :: u :: ts) := by
  intro f f' last ht hlast
  obtain ⟨f₁, htok, hrest⟩ := ht.of_cons
  obtain ⟨f₂, hu, hrest⟩ := hrest.of_cons
  obtain ⟨v', f₃, f₄, hv', hve, hts, hl, hnil⟩ :=
    hv.before hrest (by simp [hlast, Token.followKinds])
  obtain rfl := hnil.eq_of_nil
  refine ⟨_, parseProperties_of_keyed htok hkey hu hcolon hv' (.inl ⟨_, hl, hlast, rfl⟩), ?_⟩
  simp only [Property.mapSpanAll, Property.mapSpan]
  rw [← htok.peek_eq, place_eq hg (htok.cons (hu.cons hts)) (by simp), htok.peek_eq, hve]

theorem keyedMore {ps : List Property} {comma : Token} (hkey : t.kind = .identifier)
    (hcolon : u.kind = .colon) (hv : Read g (.expression value) ts) (hcomma : comma.kind = .comma)
    (hp : Read g (.properties ps) us) :
    Read g (.properties (.mk (mark (t :: u :: ts)) t.lexeme value :: ps))
      (t :: u :: (ts ++ comma :: us)) := by
  intro f f' last ht hlast
  simp only [List.cons_append, List.append_assoc] at ht
  obtain ⟨f₁, htok, hrest⟩ := ht.of_cons
  obtain ⟨f₂, hu, hrest⟩ := hrest.of_cons
  obtain ⟨v', f₃, f₄, hv', hve, hts, hc, hus⟩ :=
    hv.before hrest (by simp [hcomma, Token.followKinds])
  obtain ⟨ps', hps', hpe⟩ := hp f₄ f' last hus hlast
  refine ⟨_, parseProperties_of_keyed htok hkey hu hcolon hv' (.inr ⟨_, _, hc, hcomma, hps'⟩), ?_⟩
  simp only [Property.mapSpanAll, Property.mapSpan]
  rw [← htok.peek_eq, place_eq hg (htok.cons (hu.cons hts)) (by simp), htok.peek_eq, hve, hpe]

omit hg

theorem item (hfirst : Begins expressionKinds ts) (he : Read g (.expression e) ts) :
    Read g (.items [e]) ts := by
  intro f f' last ht hlast
  have hpeek := ht.peek_mem (hfirst.append _)
  obtain ⟨e', f₁, f₂, he', hee, _, hl, hnil⟩ := he.before ht (by simp [hlast, Token.followKinds])
  obtain rfl := hnil.eq_of_nil
  refine ⟨_, parseItems_of_item hpeek he' (.inl ⟨_, hl, hlast, rfl⟩), ?_⟩
  simp only [Expr.mapSpanAll]
  rw [hee]

theorem itemMore {es : List Expr} (hfirst : Begins expressionKinds ts)
    (he : Read g (.expression e) ts) (hcomma : t.kind = .comma) (hes : Read g (.items es) us) :
    Read g (.items (e :: es)) (ts ++ t :: us) := by
  intro f f' last ht hlast
  simp only [List.cons_append, List.append_assoc] at ht
  have hpeek := ht.peek_mem (hfirst.append _)
  obtain ⟨e', f₁, f₂, he', hee, _, hc, hus⟩ := he.before ht (by simp [hcomma, Token.followKinds])
  obtain ⟨es', hes', hese⟩ := hes f₂ f' last hus hlast
  refine ⟨_, parseItems_of_item hpeek he' (.inr ⟨_, _, hc, hcomma, hes'⟩), ?_⟩
  simp only [Expr.mapSpanAll]
  rw [hee, hese]

theorem argument (he : Read g (.expression e) ts) : Read g (.argumentList [e]) ts := by
  intro f f' last ht hlast
  obtain ⟨e', f₁, f₂, he', hee, _, hl, hnil⟩ := he.before ht (by simp [hlast, Token.followKinds])
  obtain rfl := hnil.eq_of_nil
  refine ⟨_, parseArgumentList_of_last he' hl hlast, ?_⟩
  simp only [Expr.mapSpanAll]
  rw [hee]

theorem argumentMore {es : List Expr} (he : Read g (.expression e) ts) (hcomma : t.kind = .comma)
    (hes : Read g (.argumentList es) us) : Read g (.argumentList (e :: es)) (ts ++ t :: us) := by
  intro f f' last ht hlast
  simp only [List.cons_append, List.append_assoc] at ht
  obtain ⟨e', f₁, f₂, he', hee, _, hc, hus⟩ := he.before ht (by simp [hcomma, Token.followKinds])
  obtain ⟨es', hes', hese⟩ := hes f₂ f' last hus hlast
  refine ⟨_, parseArgumentList_of_more he' hc hcomma hes', ?_⟩
  simp only [Expr.mapSpanAll]
  rw [hee, hese]

end Phrase.Read

end Productions

/-- **Every phrase that the grammar derives is read**, up to a rewriting of places that
    does not tell the parser's places from those of the derivation. -/
theorem Derives.read {mark : List Token → Span} {g : Span → Span}
    (hg : ∀ ts, g (Token.extent ts) = g (mark ts)) {phrase : Phrase} {ts : List Token}
    (h : Derives mark phrase ts) : phrase.Read g ts := by
  induction h with
  | value _ ih =>
    intro f f' ht hend
    obtain ⟨e', he', hee⟩ := ih f f' ht hend.1
    exact ⟨e', parseExpression_of_operand he' hend.2, hee⟩
  | assign _ he _ ih₁ ih₂ => exact Phrase.Read.assign hg ih₁ he ih₂
  | object ho _ hc ih => exact Phrase.Read.object hg ho ih hc
  | list ho _ hc ih => exact Phrase.Read.list hg ho ih hc
  | sum hd ih =>
    -- from here inward the loops have to be told to stop
    intro f f' ht hend
    obtain ⟨e', he', hee⟩ := ih.additive ht hend
    exact ⟨e', parseOperand_of_additive (ht.peek_mem hd.first) he', hee⟩
  | term _ ih =>
    intro f f' ht hend
    obtain ⟨e', he', hee⟩ := ih.multiplicative ht hend
    exact ⟨e', hee, fun v f'' hv => parseAdditive_of_tail he' hv⟩
  | plus _ ho _ ih₁ ih₂ => exact Phrase.Read.plus hg ih₁ ho ih₂
  | factor _ ih =>
    intro f f' ht hend
    obtain ⟨e', he', hee⟩ := ih.call ht hend
    exact ⟨e', hee, fun v f'' hv => parseMultiplicative_of_tail he' hv⟩
  | times _ ho _ ih₁ ih₂ => exact Phrase.Read.times hg ih₁ ho ih₂
  | callee _ ih =>
    intro f f' ht hend
    obtain ⟨e', he', hee⟩ := ih.member ht hend
    exact ⟨e', hee, fun v f'' hv => parseCall_of_tail he' hv⟩
  | apply _ ho _ hc ih₁ ih₂ => exact Phrase.Read.apply hg ih₁ ho ih₂ hc
  | base _ ih =>
    intro f f' ht
    obtain ⟨e', he', hee⟩ := ih f f' ht
    exact ⟨e', hee, fun v f'' hv => parseMember_of_tail he' hv⟩
  | dotted _ hd hn ih => exact Phrase.Read.dotted hg ih hd hn
  | computed _ ho _ hc ih₁ ih₂ => exact Phrase.Read.computed hg ih₁ ho ih₂ hc
  | name ht => exact Phrase.Read.name hg ht
  | number ht hw => exact Phrase.Read.number hg ht hw
  | string ht => exact Phrase.Read.string hg ht
  | group ho _ hc ih => exact Phrase.Read.group ho ih hc
  | noProperties =>
    intro f f' last ht hlast
    exact ⟨[], parseProperties_of_end ht hlast, rfl⟩
  | shorthand hk => exact Phrase.Read.shorthand hg hk
  | shorthandMore hk hc _ ih => exact Phrase.Read.shorthandMore hg hk hc ih
  | keyed hk hc _ ih => exact Phrase.Read.keyed hg hk hc ih
  | keyedMore hk hc _ hm _ ih₁ ih₂ => exact Phrase.Read.keyedMore hg hk hc ih₁ hm ih₂
  | noItems =>
    intro f f' last ht hlast
    exact ⟨[], parseItems_of_end ht hlast, rfl⟩
  | item hd ih => exact Phrase.Read.item hd.first ih
  | itemMore hd hc _ ih₁ ih₂ => exact Phrase.Read.itemMore hd.first ih₁ hc ih₂
  | noArguments =>
    intro f f' last ht hlast
    exact ⟨[], parseArguments_of_end ht hlast, rfl⟩
  | someArguments hd ih =>
    intro f f' last ht hlast
    obtain ⟨es', hes', hee⟩ := ih f f' last ht hlast
    exact ⟨es', parseArguments_of_list (ht.peek_mem (hd.first.append _)) hes', hee⟩
  | argument _ ih => exact Phrase.Read.argument ih
  | argumentMore _ hc _ ih₁ ih₂ => exact Phrase.Read.argumentMore ih₁ hc ih₂

end Scriptorium
