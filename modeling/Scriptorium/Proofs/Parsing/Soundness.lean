/-
  Scriptorium.Proofs.Parsing.Soundness: what the parser reads, the grammar derives.

  For every parse function there is one theorem: if it gives a tree and a feed, the
  tokens between its own feed and that one spell the tree, with the places that the
  parser assigned.  The theorems call each other as the functions do, and end for the
  same reason.

  The loops that collect operands to the left are stated for a part `left` that was
  read from an earlier feed `start`: going on from there, the whole stretch since
  `start` spells the result.
-/

import Scriptorium.Proofs.Parsing.Feed

namespace Scriptorium

/-! ## §1. Stretches of a feed that spell a phrase. -/

/-- What was consumed between the two feeds spells the phrase. -/
def Feed.Spells (f : Feed) (phrase : Phrase) (f' : Feed) : Prop :=
  ∃ used, f.Took used f' ∧ Derives Token.extent phrase used

/-- What was consumed between the two feeds spells the phrase, except for a last token
    that closes it. -/
def Feed.SpellsUpTo (f : Feed) (phrase : Phrase) (closing : TokenKind) (f' : Feed) : Prop :=
  ∃ used last, f.Took (used ++ [last]) f' ∧ Derives Token.extent phrase used ∧ last.kind = closing

namespace Feed

variable {start f f₁ f₂ f₃ f' : Feed} {left right target value : Expr} {t : Token}

theorem Spells.assign (hl : f.Spells (.operand target) f₁) (ht : f₁.Took [t] f₂)
    (hk : t.kind = .equals) (hv : f₂.Spells (.expression value) f₃) :
    f.Spells (.expression (.assign ⟨f.peek.pos, f₃.lastEnd⟩ target value)) f₃ := by
  obtain ⟨ts, hts, hdl⟩ := hl
  obtain ⟨us, hus, hdv⟩ := hv
  have htook := hts.append (ht.cons hus)
  rw [htook.extent (hdl.first.append _).ne_nil]
  exact ⟨_, htook, .assign hdl hk hdv⟩

theorem Spells.plus (hl : start.Spells (.additive left) f) (ht : f.Took [t] f₁)
    (ho : t.IsOperator additiveOperators) (hr : f₁.Spells (.multiplicative right) f₂) :
    start.Spells (.additive (.binary ⟨start.peek.pos, f₂.lastEnd⟩ t.lexeme left right)) f₂ := by
  obtain ⟨ts, hts, hdl⟩ := hl
  obtain ⟨us, hus, hdr⟩ := hr
  have htook := hts.append (ht.cons hus)
  rw [htook.extent (hdl.first.append _).ne_nil]
  exact ⟨_, htook, .plus hdl ho hdr⟩

theorem Spells.times (hl : start.Spells (.multiplicative left) f) (ht : f.Took [t] f₁)
    (ho : t.IsOperator multiplicativeOperators) (hr : f₁.Spells (.call right) f₂) :
    start.Spells (.multiplicative (.binary ⟨start.peek.pos, f₂.lastEnd⟩ t.lexeme left right))
      f₂ := by
  obtain ⟨ts, hts, hdl⟩ := hl
  obtain ⟨us, hus, hdr⟩ := hr
  have htook := hts.append (ht.cons hus)
  rw [htook.extent (hdl.first.append _).ne_nil]
  exact ⟨_, htook, .times hdl ho hdr⟩

theorem Spells.apply {callee : Expr} {args : List Expr} (hl : start.Spells (.call callee) f)
    (ht : f.Took [t] f₁) (hk : t.kind = .openParen)
    (ha : f₁.SpellsUpTo (.arguments args) .closeParen f₂) :
    start.Spells (.call (.call ⟨start.peek.pos, f₂.lastEnd⟩ callee args)) f₂ := by
  obtain ⟨ts, hts, hdl⟩ := hl
  obtain ⟨us, last, hus, hda, hlast⟩ := ha
  have htook := hts.append (ht.cons hus)
  rw [htook.extent (hdl.first.append _).ne_nil]
  exact ⟨_, htook, .apply hdl hk hda hlast⟩

theorem Spells.dotted {object : Expr} {name : Token} (hl : start.Spells (.member object) f)
    (ht : f.Took [t] f₁) (hk : t.kind = .dot) (hn : f₁.Took [name] f₂)
    (hname : name.kind = .identifier) :
    start.Spells (.member (.member ⟨start.peek.pos, f₂.lastEnd⟩ object
      (.identifier ⟨name.pos, f₂.lastEnd⟩ name.lexeme) false)) f₂ := by
  obtain ⟨ts, hts, hdl⟩ := hl
  have htook := hts.append (ht.cons hn)
  rw [htook.extent (hdl.first.append _).ne_nil, hn.extent_singleton]
  exact ⟨_, htook, .dotted hdl hk hname⟩

theorem Spells.computed {object property : Expr} {last : Token}
    (hl : start.Spells (.member object) f) (ht : f.Took [t] f₁) (hk : t.kind = .openBracket)
    (hp : f₁.Spells (.expression property) f₂) (hc : f₂.Took [last] f₃)
    (hlast : last.kind = .closeBracket) :
    start.Spells (.member (.member ⟨start.peek.pos, f₃.lastEnd⟩ object property true)) f₃ := by
  obtain ⟨ts, hts, hdl⟩ := hl
  obtain ⟨us, hus, hdp⟩ := hp
  have htook := hts.append (ht.cons (hus.append hc))
  rw [htook.extent (hdl.first.append _).ne_nil]
  exact ⟨_, htook, .computed hdl hk hdp hlast⟩

theorem Spells.object {properties : List Property} (ht : f.Took [t] f₁) (hk : t.kind = .openBrace)
    (hp : f₁.SpellsUpTo (.properties properties) .closeBrace f₂) :
    f.Spells (.operand (.object ⟨t.pos, f₂.lastEnd⟩ properties)) f₂ := by
  obtain ⟨us, last, hus, hdp, hlast⟩ := hp
  have htook := ht.cons hus
  rw [← ht.peek_eq, htook.extent (List.cons_ne_nil _ _)]
  exact ⟨_, htook, .object hk hdp hlast⟩

theorem Spells.list {items : List Expr} (ht : f.Took [t] f₁) (hk : t.kind = .openBracket)
    (hp : f₁.SpellsUpTo (.items items) .closeBracket f₂) :
    f.Spells (.operand (.list ⟨t.pos, f₂.lastEnd⟩ items)) f₂ := by
  obtain ⟨us, last, hus, hdp, hlast⟩ := hp
  have htook := ht.cons hus
  rw [← ht.peek_eq, htook.extent (List.cons_ne_nil _ _)]
  exact ⟨_, htook, .list hk hdp hlast⟩

end Feed

/-- Before a closing brace there are no further properties. -/
theorem parseProperties_of_closeBrace {f f' : Feed} {ps : List Property}
    (hpeek : f.peek.kind = .closeBrace) (h : (parseProperties f).Gives ps f') :
    ps = [] ∧ f.Took [f.peek] f' := by
  obtain ⟨f₁, ht⟩ := f.took_peek (by rw [hpeek]; decide)
  rw [parseProperties, ht.eat? hpeek, Parse.gives_ok] at h
  obtain ⟨rfl, rfl⟩ := h
  exact ⟨rfl, ht⟩

/-- Before a closing bracket there are no further items. -/
theorem parseItems_of_closeBracket {f f' : Feed} {es : List Expr}
    (hpeek : f.peek.kind = .closeBracket) (h : (parseItems f).Gives es f') :
    es = [] ∧ f.Took [f.peek] f' := by
  obtain ⟨f₁, ht⟩ := f.took_peek (by rw [hpeek]; decide)
  rw [parseItems, ht.eat? hpeek, Parse.gives_ok] at h
  obtain ⟨rfl, rfl⟩ := h
  exact ⟨rfl, ht⟩

/-! ## §2. The parse functions, one by one. -/

mutual

theorem parseExpression_spells (f : Feed) : ∀ {e : Expr} {f' : Feed},
    (parseExpression f).Gives e f' → f.Spells (.expression e) f' := by
  intro e f' h
  rw [parseExpression, Parse.gives_bind] at h
  obtain ⟨left, f₁, h₁, hleft, h⟩ := h
  obtain ⟨ts, hts, hd⟩ := parseOperand_spells f hleft
  dsimp only at h
  split at h
  · obtain ⟨rfl, rfl⟩ := Parse.gives_ok.1 h
    exact ⟨ts, hts, .value hd⟩
  · next t f₂ h₂ heat =>
    obtain ⟨ht, hk⟩ := Feed.eat?_eq_some_iff.1 heat
    simp only [Parse.gives_bind, Parse.gives_ok] at h
    obtain ⟨value, f₃, h₃, hvalue, rfl, rfl⟩ := h
    exact Feed.Spells.assign ⟨ts, hts, hd⟩ ht hk (parseExpression_spells f₂ hvalue)
termination_by 10 * f.size + 7
decreasing_by all_goals omega

theorem parseOperand_spells (f : Feed) : ∀ {e : Expr} {f' : Feed},
    (parseOperand f).Gives e f' → f.Spells (.operand e) f' := by
  intro e f' h
  rw [parseOperand] at h
  split at h
  · next t f₁ h₁ heat =>
    obtain ⟨ht, hk⟩ := Feed.eat?_eq_some_iff.1 heat
    simp only [Parse.gives_bind, Parse.gives_ok] at h
    obtain ⟨properties, f₂, h₂, hps, rfl, rfl⟩ := h
    exact Feed.Spells.object ht hk (parseProperties_spells f₁ hps)
  · split at h
    · next t f₁ h₁ heat =>
      obtain ⟨ht, hk⟩ := Feed.eat?_eq_some_iff.1 heat
      simp only [Parse.gives_bind, Parse.gives_ok] at h
      obtain ⟨items, f₂, h₂, hes, rfl, rfl⟩ := h
      exact Feed.Spells.list ht hk (parseItems_spells f₁ hes)
    · obtain ⟨ts, htook, hd⟩ := parseAdditive_spells f h
      exact ⟨ts, htook, .sum hd⟩
termination_by 10 * f.size + 6
decreasing_by all_goals omega

theorem parseProperties_spells (f : Feed) : ∀ {ps : List Property} {f' : Feed},
    (parseProperties f).Gives ps f' → f.SpellsUpTo (.properties ps) .closeBrace f' := by
  intro ps f' h
  rw [parseProperties] at h
  split at h
  · next t f₁ h₁ heat =>
    obtain ⟨ht, hk⟩ := Feed.eat?_eq_some_iff.1 heat
    obtain ⟨rfl, rfl⟩ := Parse.gives_ok.1 h
    exact ⟨[], t, ht, .noProperties, hk⟩
  split at h
  · exact (Parse.gives_error.1 h).elim
  simp only [Parse.gives_bind, Parse.gives_expect] at h
  obtain ⟨key, f₁, h₁, ⟨htk, hkk⟩, h⟩ := h
  split at h
  · -- a bare key before a comma: its place takes in the comma
    next comma f₂ h₂ heat =>
    obtain ⟨htc, hkc⟩ := Feed.eat?_eq_some_iff.1 heat
    simp only [Parse.gives_bind, Parse.gives_ok] at h
    obtain ⟨more, f₃, h₃, hmore, rfl, rfl⟩ := h
    obtain ⟨us, last, hus, hd, hlast⟩ := parseProperties_spells f₂ hmore
    have htook := htk.cons htc
    rw [← htk.peek_eq, htook.extent (List.cons_ne_nil _ _), htk.peek_eq]
    exact ⟨key :: comma :: us, last, htk.cons (htc.cons hus), .shorthandMore hkk hkc hd, hlast⟩
  split at h
  · -- a bare key before the closing brace
    next hpeek =>
    simp only [Parse.gives_bind, Parse.gives_ok] at h
    obtain ⟨more, f₂, h₂, hmore, rfl, rfl⟩ := h
    obtain ⟨rfl, htl⟩ := parseProperties_of_closeBrace hpeek hmore
    rw [← htk.peek_eq, htk.extent (List.cons_ne_nil _ _), htk.peek_eq]
    exact ⟨[key], _, htk.append htl, .shorthand hkk, hpeek⟩
  simp only [Parse.gives_bind, Parse.gives_expect] at h
  -- a key with a value: its place ends with the value, whatever comes next
  obtain ⟨colon, f₂, h₂, ⟨htc, hkc⟩, value, f₃, h₃, hvalue, h⟩ := h
  obtain ⟨ts, hts, hdv⟩ := parseExpression_spells f₂ hvalue
  have hpair := htk.cons (htc.cons hts)
  have hplace := hpair.extent (List.cons_ne_nil _ _)
  rw [htk.peek_eq] at hplace
  rw [hplace] at h
  split at h
  · next hpeek =>
    simp only [Parse.gives_bind, Parse.gives_ok] at h
    obtain ⟨more, f₄, h₄, hmore, rfl, rfl⟩ := h
    obtain ⟨rfl, htl⟩ := parseProperties_of_closeBrace hpeek hmore
    exact ⟨_, _, hpair.append htl, .keyed hkk hkc hdv, hpeek⟩
  · simp only [Parse.gives_bind, Parse.gives_expect, Parse.gives_ok] at h
    obtain ⟨comma, f₄, h₄, ⟨htm, hkm⟩, more, f₅, h₅, hmore, rfl, rfl⟩ := h
    obtain ⟨us, last, hus, hd, hlast⟩ := parseProperties_spells f₄ hmore
    have htook := hpair.append (htm.cons hus)
    exact ⟨_, last, by simpa using htook, .keyedMore hkk hkc hdv hkm hd, hlast⟩
termination_by 10 * f.size + 8
decreasing_by all_goals omega

theorem parseItems_spells (f : Feed) : ∀ {es : List Expr} {f' : Feed},
    (parseItems f).Gives es f' → f.SpellsUpTo (.items es) .closeBracket f' := by
  intro es f' h
  rw [parseItems] at h
  split at h
  · next t f₁ h₁ heat =>
    obtain ⟨ht, hk⟩ := Feed.eat?_eq_some_iff.1 heat
    obtain ⟨rfl, rfl⟩ := Parse.gives_ok.1 h
    exact ⟨[], t, ht, .noItems, hk⟩
  split at h
  · exact (Parse.gives_error.1 h).elim
  simp only [Parse.gives_bind] at h
  obtain ⟨item, f₁, h₁, hitem, h⟩ := h
  obtain ⟨ts, hts, hdi⟩ := parseExpression_spells f hitem
  split at h
  · next hpeek =>
    simp only [Parse.gives_bind, Parse.gives_ok] at h
    obtain ⟨more, f₂, h₂, hmore, rfl, rfl⟩ := h
    obtain ⟨rfl, htl⟩ := parseItems_of_closeBracket hpeek hmore
    exact ⟨ts, _, hts.append htl, .item hdi, hpeek⟩
  · simp only [Parse.gives_bind, Parse.gives_expect, Parse.gives_ok] at h
    obtain ⟨comma, f₂, h₂, ⟨htm, hkm⟩, more, f₃, h₃, hmore, rfl, rfl⟩ := h
    obtain ⟨us, last, hus, hd, hlast⟩ := parseItems_spells f₂ hmore
    have htook := hts.append (htm.cons hus)
    exact ⟨_, last, by simpa using htook, .itemMore hdi hkm hd, hlast⟩
termination_by 10 * f.size + 8
decreasing_by all_goals omega

theorem parseAdditive_spells (f : Feed) : ∀ {e : Expr} {f' : Feed},
    (parseAdditive f).Gives e f' → f.Spells (.additive e) f' := by
  intro e f' h
  simp only [parseAdditive, Parse.gives_bind, Parse.gives_ok] at h
  obtain ⟨left, f₁, h₁, hleft, _, f₂, h₂, htail, rfl, rfl⟩ := h
  obtain ⟨ts, hts, hd⟩ := parseMultiplicative_spells f hleft
  exact parseAdditiveTail_spells f f₁ ⟨ts, hts, .term hd⟩ htail
termination_by 10 * f.size + 5
decreasing_by all_goals omega

theorem parseAdditiveTail_spells (start f : Feed) : ∀ {left e : Expr} {f' : Feed},
    start.Spells (.additive left) f →
    (parseAdditiveTail start.peek.pos left f).Gives e f' →
    start.Spells (.additive e) f' := by
  intro left e f' hleft h
  rw [parseAdditiveTail] at h
  split at h
  · obtain ⟨rfl, rfl⟩ := Parse.gives_ok.1 h
    exact hleft
  · next op f₁ h₁ heat =>
    obtain ⟨ht, ho⟩ := Feed.eatOperator?_eq_some_iff.1 heat
    simp only [Parse.gives_bind, Parse.gives_ok] at h
    obtain ⟨right, f₂, h₂, hright, _, f₃, h₃, htail, rfl, rfl⟩ := h
    have hr := parseMultiplicative_spells f₁ hright
    exact parseAdditiveTail_spells start f₂ (hleft.plus ht ho hr) htail
termination_by 10 * f.size + 8
decreasing_by all_goals omega

theorem parseMultiplicative_spells (f : Feed) : ∀ {e : Expr} {f' : Feed},
    (parseMultiplicative f).Gives e f' → f.Spells (.multiplicative e) f' := by
  intro e f' h
  simp only [parseMultiplicative, Parse.gives_bind, Parse.gives_ok] at h
  obtain ⟨left, f₁, h₁, hleft, _, f₂, h₂, htail, rfl, rfl⟩ := h
  obtain ⟨ts, hts, hd⟩ := parseCall_spells f hleft
  exact parseMultiplicativeTail_spells f f₁ ⟨ts, hts, .factor hd⟩ htail
termination_by 10 * f.size + 4
decreasing_by all_goals omega

theorem parseMultiplicativeTail_spells (start f : Feed) : ∀ {left e : Expr} {f' : Feed},
    start.Spells (.multiplicative left) f →
    (parseMultiplicativeTail start.peek.pos left f).Gives e f' →
    start.Spells (.multiplicative e) f' := by
  intro left e f' hleft h
  rw [parseMultiplicativeTail] at h
  split at h
  · obtain ⟨rfl, rfl⟩ := Parse.gives_ok.1 h
    exact hleft
  · next op f₁ h₁ heat =>
    obtain ⟨ht, ho⟩ := Feed.eatOperator?_eq_some_iff.1 heat
    simp only [Parse.gives_bind, Parse.gives_ok] at h
    obtain ⟨right, f₂, h₂, hright, _, f₃, h₃, htail, rfl, rfl⟩ := h
    have hr := parseCall_spells f₁ hright
    exact parseMultiplicativeTail_spells start f₂ (hleft.times ht ho hr) htail
termination_by 10 * f.size + 8
decreasing_by all_goals omega

theorem parseCall_spells (f : Feed) : ∀ {e : Expr} {f' : Feed},
    (parseCall f).Gives e f' → f.Spells (.call e) f' := by
  intro e f' h
  simp only [parseCall, Parse.gives_bind, Parse.gives_ok] at h
  obtain ⟨callee, f₁, h₁, hcallee, _, f₂, h₂, htail, rfl, rfl⟩ := h
  obtain ⟨ts, hts, hd⟩ := parseMember_spells f hcallee
  exact parseCallTail_spells f f₁ ⟨ts, hts, .callee hd⟩ htail
termination_by 10 * f.size + 3
decreasing_by all_goals omega

theorem parseCallTail_spells (start f : Feed) : ∀ {callee e : Expr} {f' : Feed},
    start.Spells (.call callee) f →
    (parseCallTail start.peek.pos callee f).Gives e f' →
    start.Spells (.call e) f' := by
  intro callee e f' hcallee h
  rw [parseCallTail] at h
  split at h
  · obtain ⟨rfl, rfl⟩ := Parse.gives_ok.1 h
    exact hcallee
  · next t f₁ h₁ heat =>
    obtain ⟨ht, hk⟩ := Feed.eat?_eq_some_iff.1 heat
    simp only [Parse.gives_bind, Parse.gives_ok] at h
    obtain ⟨args, f₂, h₂, hargs, _, f₃, h₃, htail, rfl, rfl⟩ := h
    have ha := parseArguments_spells f₁ hargs
    exact parseCallTail_spells start f₂ (hcallee.apply ht hk ha) htail
termination_by 10 * f.size + 8
decreasing_by all_goals omega

theorem parseArguments_spells (f : Feed) : ∀ {args : List Expr} {f' : Feed},
    (parseArguments f).Gives args f' → f.SpellsUpTo (.arguments args) .closeParen f' := by
  intro args f' h
  rw [parseArguments] at h
  split at h
  · next t f₁ h₁ heat =>
    obtain ⟨ht, hk⟩ := Feed.eat?_eq_some_iff.1 heat
    obtain ⟨rfl, rfl⟩ := Parse.gives_ok.1 h
    exact ⟨[], t, ht, .noArguments, hk⟩
  · obtain ⟨ts, last, hts, hd, hlast⟩ := parseArgumentList_spells f h
    exact ⟨ts, last, hts, .someArguments hd, hlast⟩
termination_by 10 * f.size + 9
decreasing_by all_goals omega

theorem parseArgumentList_spells (f : Feed) : ∀ {args : List Expr} {f' : Feed},
    (parseArgumentList f).Gives args f' → f.SpellsUpTo (.argumentList args) .closeParen f' := by
  intro args f' h
  rw [parseArgumentList, Parse.gives_bind] at h
  obtain ⟨arg, f₁, h₁, harg, h⟩ := h
  obtain ⟨ts, hts, hda⟩ := parseExpression_spells f harg
  dsimp only at h
  split at h
  · next comma f₂ h₂ heat =>
    obtain ⟨htc, hkc⟩ := Feed.eat?_eq_some_iff.1 heat
    simp only [Parse.gives_bind, Parse.gives_ok] at h
    obtain ⟨more, f₃, h₃, hmore, rfl, rfl⟩ := h
    obtain ⟨us, last, hus, hd, hlast⟩ := parseArgumentList_spells f₂ hmore
    have htook := hts.append (htc.cons hus)
    exact ⟨_, last, by simpa using htook, .argumentMore hda hkc hd, hlast⟩
  · simp only [Parse.gives_bind, Parse.gives_expect, Parse.gives_ok] at h
    obtain ⟨last, f₂, h₂, ⟨htl, hkl⟩, rfl, rfl⟩ := h
    exact ⟨ts, last, hts.append htl, .argument hda, hkl⟩
termination_by 10 * f.size + 8
decreasing_by all_goals omega

theorem parseMember_spells (f : Feed) : ∀ {e : Expr} {f' : Feed},
    (parseMember f).Gives e f' → f.Spells (.member e) f' := by
  intro e f' h
  simp only [parseMember, Parse.gives_bind, Parse.gives_ok] at h
  obtain ⟨object, f₁, h₁, hobject, _, f₂, h₂, htail, rfl, rfl⟩ := h
  obtain ⟨ts, hts, hd⟩ := parsePrimary_spells f hobject
  exact parseMemberTail_spells f f₁ ⟨ts, hts, .base hd⟩ htail
termination_by 10 * f.size + 2
decreasing_by all_goals omega

theorem parseMemberTail_spells (start f : Feed) : ∀ {object e : Expr} {f' : Feed},
    start.Spells (.member object) f →
    (parseMemberTail start.peek.pos object f).Gives e f' →
    start.Spells (.member e) f' := by
  intro object e f' hobject h
  rw [parseMemberTail] at h
  split at h
  · next dot f₁ h₁ heat =>
    obtain ⟨htd, hkd⟩ := Feed.eat?_eq_some_iff.1 heat
    split at h
    · exact (Parse.gives_error.1 h).elim
    · next name f₂ h₂ heat =>
      obtain ⟨htn, hkn⟩ := Feed.eat?_eq_some_iff.1 heat
      simp only [Parse.gives_bind, Parse.gives_ok] at h
      obtain ⟨_, f₃, h₃, htail, rfl, rfl⟩ := h
      exact parseMemberTail_spells start f₂ (hobject.dotted htd hkd htn hkn) htail
  · split at h
    · next t f₁ h₁ heat =>
      obtain ⟨ht, hk⟩ := Feed.eat?_eq_some_iff.1 heat
      simp only [Parse.gives_bind, Parse.gives_expect, Parse.gives_ok] at h
      obtain ⟨property, f₂, h₂, hproperty, last, f₃, h₃, ⟨htl, hkl⟩, _, f₄, h₄, htail, rfl, rfl⟩ :=
        h
      have hp := parseExpression_spells f₁ hproperty
      exact parseMemberTail_spells start f₃ (hobject.computed ht hk hp htl hkl) htail
    · obtain ⟨rfl, rfl⟩ := Parse.gives_ok.1 h
      exact hobject
termination_by 10 * f.size + 8
decreasing_by all_goals omega

theorem parsePrimary_spells (f : Feed) : ∀ {e : Expr} {f' : Feed},
    (parsePrimary f).Gives e f' → f.Spells (.primary e) f' := by
  intro e f' h
  rw [parsePrimary] at h
  split at h
  · next t f₁ h₁ heat =>
    obtain ⟨ht, hk⟩ := Feed.eat?_eq_some_iff.1 heat
    obtain ⟨rfl, rfl⟩ := Parse.gives_ok.1 h
    rw [ht.extent_singleton]
    exact ⟨_, ht, .name hk⟩
  split at h
  · next t f₁ h₁ heat =>
    obtain ⟨ht, hk⟩ := Feed.eat?_eq_some_iff.1 heat
    split at h
    · next value hw =>
      obtain ⟨rfl, rfl⟩ := Parse.gives_ok.1 h
      rw [ht.extent_singleton]
      exact ⟨_, ht, .number hk hw⟩
    · exact (Parse.gives_error.1 h).elim
  split at h
  · next t f₁ h₁ heat =>
    obtain ⟨ht, hk⟩ := Feed.eat?_eq_some_iff.1 heat
    obtain ⟨rfl, rfl⟩ := Parse.gives_ok.1 h
    rw [ht.extent_singleton]
    exact ⟨_, ht, .string hk⟩
  split at h
  · next t f₁ h₁ heat =>
    obtain ⟨ht, hk⟩ := Feed.eat?_eq_some_iff.1 heat
    simp only [Parse.gives_bind, Parse.gives_expect, Parse.gives_ok] at h
    -- a group is the expression inside, with the expression's own place
    obtain ⟨inner, f₂, h₂, hinner, last, f₃, h₃, ⟨htl, hkl⟩, rfl, rfl⟩ := h
    obtain ⟨ts, hts, hd⟩ := parseExpression_spells f₁ hinner
    exact ⟨_, ht.cons (hts.append htl), .group hk hd hkl⟩
  · exact (Parse.gives_error.1 h).elim
termination_by 10 * f.size + 1
decreasing_by all_goals omega

end

end Scriptorium
