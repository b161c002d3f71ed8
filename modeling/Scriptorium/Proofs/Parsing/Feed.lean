/-
  Scriptorium.Proofs.Parsing.Feed: what parsing takes from its feed.

  `f.Took used f'` says that a parser that had the feed `f` and now has `f'` consumed
  exactly the tokens `used`.  `r.Gives v f` says that a parse function read `v` and
  left `f`.  The parse functions are stated and proved through these two; the bound
  on the size of the feed that their results carry is left behind here.

  Main results:
    * `Took.append`, `Took.of_append`: consuming two stretches is consuming one and
      then the other, in both directions.
    * `Took.extent`: the place a part is given is the extent of what was consumed.
    * `eat?_eq_some_iff`, `eatOperator?_eq_some_iff`: what consuming one token does.
-/

import Scriptorium.Proofs.Grammar

namespace Scriptorium

/-! ## §1. Extents. -/

@[simp]
theorem Token.endFrom_nil (pos : Position) : endFrom pos [] = pos := rfl

@[simp]
theorem Token.endFrom_cons (pos : Position) (t : Token) (ts : List Token) :
    endFrom pos (t :: ts) = endFrom t.stop ts := rfl

@[simp]
theorem Token.endFrom_append (pos : Position) (ts us : List Token) :
    endFrom pos (ts ++ us) = endFrom (endFrom pos ts) us := by
  simp [endFrom]

/-- From the first token to the end of the last one. -/
def Token.extent : List Token → Span
  | [] => .unknown
  | t :: ts => ⟨t.pos, endFrom t.stop ts⟩

/-! ## §2. Consumption. -/

/-- `f.Took used f'`: between `f` and `f'` the tokens `used` were consumed. -/
structure Feed.Took (f : Feed) (used : List Token) (f' : Feed) : Prop where
  rest : f.rest = used ++ f'.rest
  stop : f'.stop = f.stop
  lastEnd : f'.lastEnd = Token.endFrom f.lastEnd used

namespace Feed.Took

variable {f f₁ f₂ f' : Feed} {ts us : List Token}

theorem refl (f : Feed) : f.Took [] f := ⟨rfl, rfl, rfl⟩

theorem append (h₁ : f.Took ts f₁) (h₂ : f₁.Took us f₂) : f.Took (ts ++ us) f₂ := by
  refine ⟨?_, h₂.stop.trans h₁.stop, ?_⟩
  · rw [h₁.rest, h₂.rest, List.append_assoc]
  · rw [h₂.lastEnd, h₁.lastEnd, Token.endFrom_append]

theorem cons {t : Token} (h₁ : f.Took [t] f₁) (h₂ : f₁.Took us f₂) : f.Took (t :: us) f₂ :=
  h₁.append h₂

/-- The feed between two stretches. -/
theorem of_append (h : f.Took (ts ++ us) f₂) : ∃ f₁, f.Took ts f₁ ∧ f₁.Took us f₂ := by
  refine ⟨⟨us ++ f₂.rest, f.stop, Token.endFrom f.lastEnd ts⟩, ⟨?_, rfl, rfl⟩, ⟨rfl, h.stop, ?_⟩⟩
  · rw [h.rest, List.append_assoc]
  · rw [h.lastEnd, Token.endFrom_append]

theorem of_cons {t : Token} (h : f.Took (t :: us) f₂) :
    ∃ f₁, f.Took [t] f₁ ∧ f₁.Took us f₂ := by
  have hsplit : f.Took ([t] ++ us) f₂ := h
  exact of_append hsplit

/-- Consuming nothing changes nothing. -/
theorem eq_of_nil (h : f.Took [] f') : f' = f := by
  obtain ⟨hr, hs, hl⟩ := h
  cases f; cases f'
  simp_all

/-- What is consumed and what is left fix each other. -/
theorem unique (h₁ : f.Took ts f₁) (h₂ : f.Took ts f₂) : f₁ = f₂ := by
  obtain ⟨hr₁, hs₁, hl₁⟩ := h₁
  obtain ⟨hr₂, hs₂, hl₂⟩ := h₂
  have hrest : f₁.rest = f₂.rest := List.append_cancel_left (hr₁.symm.trans hr₂)
  cases f₁; cases f₂
  simp_all

theorem peek_eq {t : Token} (h : f.Took (t :: ts) f') : f.peek = t := by
  unfold Feed.peek
  rw [h.rest]
  rfl

theorem peek_mem {kinds : List TokenKind} (h : f.Took ts f') (hb : Begins kinds ts) :
    f.peek.kind ∈ kinds := by
  obtain ⟨t, rest, rfl, ht⟩ := hb
  rw [h.peek_eq]
  exact ht

/-- The place from the first token to where reading stands now. -/
theorem extent (h : f.Took ts f') (hne : ts ≠ []) :
    (⟨f.peek.pos, f'.lastEnd⟩ : Span) = Token.extent ts := by
  cases ts with
  | nil => exact absurd rfl hne
  | cons t ts =>
    rw [h.peek_eq, h.lastEnd]
    rfl

theorem extent_singleton {t : Token} (h : f.Took [t] f') :
    (⟨t.pos, f'.lastEnd⟩ : Span) = Token.extent [t] := by
  rw [← h.extent (List.cons_ne_nil t []), h.peek_eq]

end Feed.Took

/-! ## §3. One token. -/

namespace Feed

variable {f f' : Feed} {t : Token} {kind : TokenKind}

theorem eat?_eq_some_iff {h : f'.size < f.size} :
    f.eat? kind = some ⟨t, f', h⟩ ↔ f.Took [t] f' ∧ t.kind = kind := by
  unfold eat?
  split
  · next hf =>
    constructor
    · intro h; cases h
    · intro ⟨ht, _⟩; rw [ht.rest] at hf; cases hf
  · next u rest hf =>
    split
    · next hk =>
      constructor
      · intro h
        cases h
        exact ⟨⟨hf, rfl, rfl⟩, hk⟩
      · intro ⟨ht, _⟩
        -- what was consumed fixes the token and the feed that is left
        have htook : f.Took [u] ⟨rest, f.stop, u.stop⟩ := ⟨hf, rfl, rfl⟩
        have hu : u = t := (htook.peek_eq.symm.trans ht.peek_eq)
        subst hu
        cases htook.unique ht
        rfl
    · next hk =>
      constructor
      · intro h; cases h
      · intro ⟨ht, htk⟩
        have : u = t := by
          rw [ht.rest] at hf
          exact (List.cons.inj hf).1.symm
        exact absurd (this ▸ htk) hk

theorem Took.size_lt (h : f.Took [t] f') : f'.size < f.size := by
  unfold size
  rw [h.rest]
  simp

/-- Consuming a token that is there. -/
theorem Took.eat? (h : f.Took [t] f') (hk : t.kind = kind) :
    f.eat? kind = some ⟨t, f', h.size_lt⟩ :=
  eat?_eq_some_iff.2 ⟨h, hk⟩

/-- Consuming what comes next, whatever it is. -/
theorem Took.eat (h : f.Took [t] f') : ∃ hlt, f.eat = ⟨t, f', hlt⟩ := by
  have hne : f.rest = t :: f'.rest := h.rest
  refine ⟨by have := h.size_lt; omega, ?_⟩
  unfold Feed.eat
  split
  · next hf =>
    rw [hf] at hne
    cases hne
  · next u rest hf =>
    have htook : f.Took [u] ⟨rest, f.stop, u.stop⟩ := ⟨hf, rfl, rfl⟩
    obtain rfl : u = t := htook.peek_eq.symm.trans h.peek_eq
    cases htook.unique h
    rfl

/-- What is seen at the end of the input. -/
theorem peek_eq_atEnd (h : f.rest = []) : f.peek = .atEnd f.stop := by
  unfold peek
  rw [h]

theorem peek_eq_cons {rest : List Token} (h : f.rest = t :: rest) : f.peek = t := by
  unfold peek
  rw [h]

/-- What is consumed is what was seen. -/
theorem value_eat (f : Feed) : f.eat.value = f.peek := by
  unfold Feed.eat
  split
  · next hf => exact (peek_eq_atEnd hf).symm
  · next hf => exact (peek_eq_cons hf).symm

/-- The end of the input is not consumed. -/
theorem feed_eat_of_rest (h : f.rest = []) : f.eat.feed = f := by
  unfold Feed.eat
  split
  · rfl
  · next hf =>
    rw [h] at hf
    cases hf

/-- What is seen ahead is there, unless it is the end of the input. -/
theorem took_peek (h : f.peek.kind ≠ .endOfInput) : ∃ f', f.Took [f.peek] f' := by
  cases hf : f.rest with
  | nil =>
    unfold peek at h
    rw [hf] at h
    exact absurd rfl h
  | cons u rest =>
    rw [peek_eq_cons hf]
    exact ⟨⟨rest, f.stop, u.stop⟩, hf, rfl, rfl⟩

/-- A token of another kind is not consumed. -/
theorem eat?_eq_none_of_peek (h : f.peek.kind ≠ kind) : f.eat? kind = none := by
  unfold eat?
  split
  · rfl
  · next u rest hf =>
    rw [if_neg]
    unfold peek at h
    rw [hf] at h
    exact h

/-- At the end of the input nothing is consumed. -/
theorem eat?_eq_none_of_rest (h : f.rest = []) : f.eat? kind = none := by
  unfold eat?
  split
  · rfl
  · next hf => rw [h] at hf; cases hf

theorem eatOperator?_eq_some_iff {operators : List Text} {h : f'.size < f.size} :
    f.eatOperator? operators = some ⟨t, f', h⟩ ↔ f.Took [t] f' ∧ t.IsOperator operators := by
  unfold eatOperator? Token.IsOperator
  split
  · next hm =>
    rw [eat?_eq_some_iff]
    constructor
    · intro ⟨ht, hk⟩
      rw [ht.peek_eq] at hm
      exact ⟨ht, hk, hm⟩
    · intro ⟨ht, hk, _⟩
      exact ⟨ht, hk⟩
  · next hm =>
    constructor
    · intro h; cases h
    · intro ⟨ht, _, hl⟩
      rw [ht.peek_eq] at hm
      exact absurd hl hm

/-- Consuming an operator that is there. -/
theorem Took.eatOperator? {operators : List Text} (h : f.Took [t] f')
    (ho : t.IsOperator operators) : f.eatOperator? operators = some ⟨t, f', h.size_lt⟩ :=
  eatOperator?_eq_some_iff.2 ⟨h, ho⟩

/-- A token that is no operator, or another one, is not consumed as an operator. -/
theorem eatOperator?_eq_none {operators : List Text} (h : ¬ f.peek.IsOperator operators) :
    f.eatOperator? operators = none := by
  unfold eatOperator?
  split
  · next hm => exact eat?_eq_none_of_peek fun hk => h ⟨hk, hm⟩
  · rfl

end Feed

/-! ## §4. What parse functions give. -/

/-- `r.Gives v f`: the parse function read `v` and left `f`. -/
def Parse.Gives {α : Type} {n : Nat} (r : Parse α n) (v : α) (f : Feed) : Prop :=
  ∃ h, r = .ok ⟨v, f, h⟩

namespace Parse

variable {α β : Type} {m n : Nat} {v w : α} {u : β} {f g : Feed}

@[simp]
theorem gives_ok {h : f.size < n} : Gives (.ok ⟨v, f, h⟩) w g ↔ w = v ∧ g = f := by
  constructor
  · intro ⟨_, he⟩
    cases he
    exact ⟨rfl, rfl⟩
  · rintro ⟨rfl, rfl⟩
    exact ⟨h, rfl⟩

@[simp]
theorem gives_error {e : Error} : Gives (.error e : Parse α n) v f ↔ False := by
  constructor
  · intro ⟨_, he⟩; cases he
  · intro h; exact h.elim

theorem Gives.size_lt {r : Parse α n} (h : r.Gives v f) : f.size < n := h.1

/-- A sequence gives what its second part gives after the first. -/
@[simp]
theorem gives_bind {x : Parse α m} {k : Parsed α m → Parse β n} :
    Gives (x >>= k) u f ↔ ∃ v g, ∃ h : g.size < m, Gives x v g ∧ Gives (k ⟨v, g, h⟩) u f := by
  cases x with
  | error e =>
    constructor
    · intro ⟨_, he⟩; cases he
    · rintro ⟨_, _, _, ⟨_, he⟩, _⟩; cases he
  | ok p =>
    obtain ⟨v, g, hg⟩ := p
    constructor
    · intro h
      exact ⟨v, g, hg, gives_ok.2 ⟨rfl, rfl⟩, h⟩
    · rintro ⟨_, _, _, hx, h⟩
      obtain ⟨rfl, rfl⟩ := gives_ok.1 hx
      exact h

/-- `expect` gives a token of the kind it was asked for. -/
@[simp]
theorem gives_expect {f f' : Feed} {t : Token} {kind : TokenKind} {what : Expectation} :
    Gives (f.expect kind what) t f' ↔ f.Took [t] f' ∧ t.kind = kind := by
  unfold Feed.expect
  constructor
  · intro h
    split at h
    · next p hp =>
      obtain ⟨hlt, he⟩ := h
      cases he
      exact Feed.eat?_eq_some_iff.1 hp
    · exact (gives_error.1 h).elim
  · intro ⟨ht, hk⟩
    rw [ht.eat? hk]
    exact gives_ok.2 ⟨rfl, rfl⟩

end Parse

/-! ## §5. Statements. -/

/-- Where something comes next it is consumed as the keyword. -/
theorem Feed.Took.parseVarDeclaration_eq {f f₁ : Feed} {keyword : Token}
    (ht : f.Took [keyword] f₁) : parseVarDeclaration f =
      (parseDeclaration keyword.pos (keyword.kind = .constKeyword) f₁ >>= fun p =>
        .ok ⟨p.value, p.feed, Nat.lt_trans p.size_lt ht.size_lt⟩) := by
  obtain ⟨_, heat⟩ := ht.eat
  unfold parseVarDeclaration
  generalize f.eat = eaten at heat
  subst heat
  rfl

/-- A statement is a declaration behind one of the keywords, or an expression. -/
theorem parseStatement_eq (f : Feed) : parseStatement f =
    match f.eat? .letKeyword with
    | some ⟨keyword, f₁, h₁⟩ => parseDeclaration keyword.pos false f₁ >>= fun p =>
      .ok ⟨p.value, p.feed, Nat.lt_trans p.size_lt h₁⟩
    | none =>
      match f.eat? .constKeyword with
      | some ⟨keyword, f₁, h₁⟩ => parseDeclaration keyword.pos true f₁ >>= fun p =>
        .ok ⟨p.value, p.feed, Nat.lt_trans p.size_lt h₁⟩
      | none => parseBare f := by
  unfold parseStatement
  by_cases hlet : f.peek.kind = .letKeyword
  · obtain ⟨f₁, ht⟩ := f.took_peek (by rw [hlet]; decide)
    rw [if_pos (.inl hlet), ht.parseVarDeclaration_eq, ht.eat? hlet,
      decide_eq_false (by rw [hlet]; decide)]
  rw [Feed.eat?_eq_none_of_peek hlet]
  by_cases hconst : f.peek.kind = .constKeyword
  · obtain ⟨f₁, ht⟩ := f.took_peek (by rw [hconst]; decide)
    rw [if_pos (.inr hconst), ht.parseVarDeclaration_eq, ht.eat? hconst, decide_eq_true hconst]
  · rw [if_neg (by simp [hlet, hconst]), Feed.eat?_eq_none_of_peek hconst]

end Scriptorium
