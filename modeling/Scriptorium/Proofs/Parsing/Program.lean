/-
  Scriptorium.Proofs.Parsing.Program: the parser and the grammar agree on programs.

  Above expressions the grammar is ambiguous in one place only: an expression without
  a semicolon can be followed by another expression, and the parser may then read the
  two as one.  A list of clauses in which that does not happen is `Clause.Separated`.

  Main results:
    * `parseStatements_derived`: the statements that are read are derived, clause by
      clause, from all the tokens there are.
    * `Clause.Derived.read`: separated clauses are read as they were derived.
    * `parse_follows_grammar`: both, for the programs of texts.
-/

import Scriptorium.Proofs.Lexing.Scan
import Scriptorium.Proofs.Parsing.Completeness
import Scriptorium.Proofs.Parsing.Soundness

namespace Scriptorium

/-! ## §1. Statements. -/

/-- A terminator is read exactly where one stands. -/
theorem gives_parseTerminator {f f' : Feed} :
    (parseTerminator f).Gives () f' ↔ ∃ ts, f.Took ts f' ∧ Terminates ts f'.rest := by
  unfold parseTerminator
  constructor
  · intro h
    split at h
    · next t f₁ h₁ heat =>
      obtain ⟨ht, hk⟩ := Feed.eat?_eq_some_iff.1 heat
      obtain ⟨_, rfl⟩ := Parse.gives_ok.1 h
      exact ⟨[t], ht, .semicolon hk⟩
    · split at h
      · next hempty =>
        obtain ⟨_, rfl⟩ := Parse.gives_ok.1 h
        refine ⟨[], .refl _, ?_⟩
        rw [List.isEmpty_iff.1 hempty]
        exact .endOfInput
      · exact (Parse.gives_error.1 h).elim
  · rintro ⟨ts, ht, hterm⟩
    -- what is left decides between the two ways to end
    generalize hrest : f'.rest = rest at hterm
    cases hterm with
    | semicolon hk =>
      rw [ht.eat? hk]
      exact Parse.gives_ok.2 ⟨rfl, rfl⟩
    | endOfInput =>
      obtain rfl := ht.eq_of_nil
      rw [Feed.eat?_eq_none_of_rest hrest, if_pos (by rw [hrest]; rfl)]
      exact Parse.gives_ok.2 ⟨rfl, rfl⟩

/-- What stands between the two feeds spells the statement before what is left. -/
def Feed.SpellsStatement (f : Feed) (s : Statement) (f' : Feed) : Prop :=
  ∃ used, f.Took used f' ∧ DerivesStatement Token.extent s used f'.rest

/-- A declaration that was read follows its keyword. -/
theorem parseDeclaration_spells {f f₁ f' : Feed} {keyword : Token} {constant : Bool}
    {s : Statement} (ht : f.Took [keyword] f₁)
    (hk : keyword.kind = if constant then .constKeyword else .letKeyword)
    (h : (parseDeclaration keyword.pos constant f₁).Gives s f') : f.SpellsStatement s f' := by
  unfold parseDeclaration at h
  rw [Parse.gives_bind] at h
  obtain ⟨name, f₂, h₂, hname, h⟩ := h
  obtain ⟨htn, hkn⟩ := Parse.gives_expect.1 hname
  dsimp only at h
  split at h
  · split at h
    · exact (Parse.gives_error.1 h).elim
    · next hconstant =>
      rw [if_neg hconstant] at hk
      simp only [Parse.gives_bind, Parse.gives_ok] at h
      obtain ⟨_, f₃, _, hend, rfl, rfl⟩ := h
      obtain ⟨us, hus, hterm⟩ := gives_parseTerminator.1 hend
      -- the place runs from the keyword to the terminator
      have htook := ht.cons (htn.cons hus)
      have hplace := htook.extent (List.cons_ne_nil _ _)
      rw [ht.peek_eq] at hplace
      rw [hplace]
      exact ⟨_, htook, .uninitialized hk hkn hterm⟩
  · next equals f₃ h₃ heat =>
    obtain ⟨hte, hke⟩ := Feed.eat?_eq_some_iff.1 heat
    simp only [Parse.gives_bind, Parse.gives_ok] at h
    obtain ⟨value, f₄, _, hvalue, _, f₅, _, hend, rfl, rfl⟩ := h
    obtain ⟨ts, hts, hd⟩ := parseExpression_spells _ hvalue
    obtain ⟨us, hus, hterm⟩ := gives_parseTerminator.1 hend
    have htook := ht.cons (htn.cons (hte.cons (hts.append hus)))
    have hplace := htook.extent (List.cons_ne_nil _ _)
    rw [ht.peek_eq] at hplace
    rw [hplace]
    exact ⟨_, htook, .initialized constant hk hkn hke hd hterm⟩

theorem parseBare_spells {f f' : Feed} {s : Statement} (h : (parseBare f).Gives s f') :
    f.SpellsStatement s f' := by
  unfold parseBare at h
  rw [Parse.gives_bind] at h
  obtain ⟨e, f₁, h₁, he, h⟩ := h
  obtain ⟨ts, hts, hd⟩ := parseExpression_spells _ he
  dsimp only at h
  split at h
  · next semicolon f₂ h₂ heat =>
    obtain ⟨ht, hk⟩ := Feed.eat?_eq_some_iff.1 heat
    obtain ⟨rfl, rfl⟩ := Parse.gives_ok.1 h
    exact ⟨_, hts.append ht, .ended hd hk⟩
  · obtain ⟨rfl, rfl⟩ := Parse.gives_ok.1 h
    exact ⟨_, hts, .bare hd⟩

theorem parseStatement_spells {f f' : Feed} {s : Statement} (h : (parseStatement f).Gives s f') :
    f.SpellsStatement s f' := by
  rw [parseStatement_eq] at h
  split at h
  · next keyword f₁ h₁ heat =>
    obtain ⟨ht, hk⟩ := Feed.eat?_eq_some_iff.1 heat
    simp only [Parse.gives_bind, Parse.gives_ok] at h
    obtain ⟨_, _, _, hdecl, rfl, rfl⟩ := h
    exact parseDeclaration_spells ht (by rw [hk]; rfl) hdecl
  · split at h
    · next keyword f₁ h₁ heat =>
      obtain ⟨ht, hk⟩ := Feed.eat?_eq_some_iff.1 heat
      simp only [Parse.gives_bind, Parse.gives_ok] at h
      obtain ⟨_, _, _, hdecl, rfl, rfl⟩ := h
      exact parseDeclaration_spells ht (by rw [hk]; rfl) hdecl
    · exact parseBare_spells h

/-- **The statements that are read are derived** from all the tokens there are. -/
theorem parseStatements_derived (f : Feed) : ∀ {body : List Statement},
    parseStatements f = .ok body →
    ∃ clauses, Clause.Derived Token.extent clauses ∧ Clause.tokens clauses = f.rest ∧
      Clause.statements clauses = body := by
  intro body h
  rw [parseStatements] at h
  split at h
  · next hempty =>
    cases h
    exact ⟨[], .nil, (List.isEmpty_iff.1 hempty).symm, rfl⟩
  · cases hs : parseStatement f with
    | error e => rw [hs] at h; cases h
    | ok parsed =>
      obtain ⟨s, f₁, hlt⟩ := parsed
      rw [hs] at h
      cases hmore : parseStatements f₁ with
      | error e => simp [bind, Except.bind, hmore] at h
      | ok rest =>
        simp only [bind, Except.bind, hmore] at h
        cases h
        obtain ⟨used, htook, hd⟩ := parseStatement_spells ⟨hlt, hs⟩
        obtain ⟨clauses, hderived, htokens, hstatements⟩ := parseStatements_derived f₁ hmore
        refine ⟨(s, used) :: clauses, .cons (by rw [htokens]; exact hd) hderived, ?_, ?_⟩
        · rw [htook.rest, ← htokens]
          rfl
        · rw [← hstatements]
          rfl
termination_by f.size

/-! ## §2. Reading what was derived. -/

/-- No expression has a semicolon in it. -/
theorem Derives.kind_ne_semicolon {mark : List Token → Span} {phrase : Phrase} {ts : List Token}
    (h : Derives mark phrase ts) : ∀ t ∈ ts, t.kind ≠ .semicolon := by
  induction h with
  | value _ ih | sum _ ih | term _ ih | factor _ ih | callee _ ih | base _ ih | item _ ih
  | someArguments _ ih | argument _ ih => exact ih
  | noProperties | noItems | noArguments => simp
  | plus _ ho _ ih₁ ih₂ | times _ ho _ ih₁ ih₂ => grind [Token.IsOperator]
  | _ => grind

/-- The kinds of tokens that can follow an expression that no semicolon ends. -/
def Clause.followKinds : List TokenKind := [.endOfInput, .letKeyword, .constKeyword]

theorem Clause.endsExpression_of_mem {t : Token} (h : t.kind ∈ Clause.followKinds) :
    t.EndsExpression ∧ t.kind ≠ .semicolon := by
  have hkinds : ∀ kind ∈ Clause.followKinds, kind ∈ Token.followKinds ∧ kind ≠ .semicolon := by
    decide
  obtain ⟨hfollow, hne⟩ := hkinds _ h
  exact ⟨Token.endsExpression_of_mem hfollow, hne⟩

section Steps

variable {f f₁ f₂ f₃ f₄ f' : Feed} {keyword name equals : Token} {constant : Bool} {value : Expr}
  {start : Position} {ts : List Token}

/-- Where an expression begins, no declaration does. -/
theorem no_keyword_of_first (hfirst : f.peek.kind ∈ expressionKinds) :
    f.eat? .letKeyword = none ∧ f.eat? .constKeyword = none := by
  have hkinds : ∀ kind ∈ expressionKinds, kind ≠ .letKeyword ∧ kind ≠ .constKeyword := by decide
  obtain ⟨hlet, hconst⟩ := hkinds _ hfirst
  exact ⟨Feed.eat?_eq_none_of_peek hlet, Feed.eat?_eq_none_of_peek hconst⟩

/-- What ends a statement continues no expression. -/
theorem Terminates.peek_endsExpression (ht : f.Took ts f') (hterm : Terminates ts f'.rest) :
    f.peek.EndsExpression := by
  refine Token.endsExpression_of_mem ?_
  generalize hrest : f'.rest = rest at hterm
  cases hterm with
  | semicolon hk =>
    rw [ht.peek_eq, hk]
    decide
  | endOfInput =>
    obtain rfl := ht.eq_of_nil
    rw [Feed.peek_eq_atEnd hrest]
    exact List.mem_of_elem_eq_true rfl

theorem parseDeclaration_of_name (hn : f.Took [name] f₁) (hkn : name.kind = .identifier)
    (ht : f₁.Took ts f') (hterm : Terminates ts f'.rest) :
    (parseDeclaration start false f).Gives
      (.declaration ⟨start, f'.lastEnd⟩ false name.lexeme .absent) f' := by
  have hequals : f₁.eat? .equals = none :=
    Feed.eat?_eq_none_of_peek (Terminates.peek_endsExpression ht hterm).2
  have hend := gives_parseTerminator.2 ⟨ts, ht, hterm⟩
  unfold parseDeclaration
  rw [Parse.gives_bind]
  refine ⟨name, f₁, hn.size_lt, Parse.gives_expect.2 ⟨hn, hkn⟩, ?_⟩
  dsimp only
  rw [hequals]
  exact Parse.gives_bind.2 ⟨(), f', hend.size_lt, hend, Parse.gives_ok.2 ⟨rfl, rfl⟩⟩

theorem parseDeclaration_of_value (hn : f.Took [name] f₁) (hkn : name.kind = .identifier)
    (he : f₁.Took [equals] f₂) (hke : equals.kind = .equals)
    (hv : (parseExpression f₂).Gives value f₃) (ht : f₃.Took ts f')
    (hterm : Terminates ts f'.rest) :
    (parseDeclaration start constant f).Gives
      (.declaration ⟨start, f'.lastEnd⟩ constant name.lexeme value) f' := by
  have hend := gives_parseTerminator.2 ⟨ts, ht, hterm⟩
  unfold parseDeclaration
  rw [Parse.gives_bind]
  refine ⟨name, f₁, hn.size_lt, Parse.gives_expect.2 ⟨hn, hkn⟩, ?_⟩
  dsimp only
  rw [he.eat? hke]
  simp only [Parse.gives_bind, Parse.gives_ok]
  exact ⟨value, f₃, hv.size_lt, hv, (), f', hend.size_lt, hend, rfl, rfl⟩

theorem parseStatement_of_declaration {s : Statement} (hk : f.Took [keyword] f₁)
    (hkk : keyword.kind = if constant then .constKeyword else .letKeyword)
    (h : (parseDeclaration keyword.pos constant f₁).Gives s f') :
    (parseStatement f).Gives s f' := by
  rw [parseStatement_eq]
  cases constant with
  | false =>
    have hlet : keyword.kind = .letKeyword := hkk
    rw [hk.eat? hlet]
    exact Parse.gives_bind.2 ⟨s, f', h.size_lt, h, Parse.gives_ok.2 ⟨rfl, rfl⟩⟩
  | true =>
    have hconst : keyword.kind = .constKeyword := hkk
    rw [Feed.eat?_eq_none_of_peek (by rw [hk.peek_eq, hconst]; decide), hk.eat? hconst]
    exact Parse.gives_bind.2 ⟨s, f', h.size_lt, h, Parse.gives_ok.2 ⟨rfl, rfl⟩⟩

theorem parseStatement_of_bare (hfirst : f.peek.kind ∈ expressionKinds)
    (h : (parseExpression f).Gives value f₁) (hend : f₁.peek.kind ≠ .semicolon) :
    (parseStatement f).Gives (.expression value) f₁ := by
  obtain ⟨hlet, hconst⟩ := no_keyword_of_first hfirst
  rw [parseStatement_eq, hlet, hconst]
  unfold parseBare
  refine Parse.gives_bind.2 ⟨value, f₁, h.size_lt, h, ?_⟩
  dsimp only
  rw [Feed.eat?_eq_none_of_peek hend]
  exact Parse.gives_ok.2 ⟨rfl, rfl⟩

theorem parseStatement_of_ended {semicolon : Token} (hfirst : f.peek.kind ∈ expressionKinds)
    (h : (parseExpression f).Gives value f₁) (ht : f₁.Took [semicolon] f₂)
    (hk : semicolon.kind = .semicolon) : (parseStatement f).Gives (.expression value) f₂ := by
  obtain ⟨hlet, hconst⟩ := no_keyword_of_first hfirst
  rw [parseStatement_eq, hlet, hconst]
  unfold parseBare
  refine Parse.gives_bind.2 ⟨value, f₁, h.size_lt, h, ?_⟩
  dsimp only
  rw [ht.eat? hk]
  exact Parse.gives_ok.2 ⟨rfl, rfl⟩

theorem parseStatements_of_cons {s : Statement} {body : List Statement}
    (h : (parseStatement f).Gives s f') (hmore : parseStatements f' = .ok body) :
    parseStatements f = .ok (s :: body) := by
  obtain ⟨hlt, heq⟩ := h
  -- the statement took a token, so there was one
  have hne : ¬ f.rest.isEmpty = true := by
    intro hempty
    unfold Feed.size at hlt
    rw [List.isEmpty_iff.1 hempty] at hlt
    exact absurd hlt (Nat.not_lt_zero _)
  rw [parseStatements, if_neg hne, heq]
  simp only [bind, Except.bind, hmore]

end Steps

/-- What a clause that is not the last one needs: if it is an expression without a
    semicolon, the next token cannot continue it. -/
def Clause.EndsBefore (c : Clause) (f' : Feed) : Prop :=
  c.IsExpression → ¬ c.EndsWithSemicolon → f'.peek.kind ∈ Clause.followKinds

section Read

variable {mark : List Token → Span} {g : Span → Span}
  (hg : ∀ ts, g (Token.extent ts) = g (mark ts))

/-- A declaration begins and ends with what marks its place. -/
theorem Feed.Took.declaration_place {f f₁ f' : Feed} {keyword : Token} {ts : List Token}
    (hk : f.Took [keyword] f₁) (ht : f₁.Took ts f') :
    (⟨keyword.pos, f'.lastEnd⟩ : Span) = Token.extent (keyword :: ts) := by
  rw [← (hk.cons ht).extent (List.cons_ne_nil _ _), hk.peek_eq]

include hg in
/-- **A statement is read as it was derived** where nothing can continue it. -/
theorem DerivesStatement.read {s : Statement} {ts rest : List Token}
    (h : DerivesStatement mark s ts rest) {f f' : Feed} (ht : f.Took ts f') (hrest : f'.rest = rest)
    (hend : Clause.EndsBefore (s, ts) f') :
    ∃ s', (parseStatement f).Gives s' f' ∧ s'.mapSpan g = s.mapSpan g := by
  subst hrest
  cases h with
  | uninitialized hk hn hterm =>
    obtain ⟨f₁, htk, htr⟩ := ht.of_cons
    obtain ⟨f₂, htn, htt⟩ := htr.of_cons
    have hdeclaration := parseStatement_of_declaration htk (by rw [hk]; rfl)
      (parseDeclaration_of_name htn hn htt hterm)
    refine ⟨_, hdeclaration, ?_⟩
    rw [htk.declaration_place htr]
    simp only [Statement.mapSpan, hg]
  | initialized constant hk hn he hd hterm =>
    obtain ⟨f₁, htk, htr⟩ := ht.of_cons
    obtain ⟨f₂, htn, htr₂⟩ := htr.of_cons
    obtain ⟨f₃, hte, htr₃⟩ := htr₂.of_cons
    obtain ⟨f₄, hts, htt⟩ := htr₃.of_append
    obtain ⟨e', he', hee⟩ := hd.read hg f₃ f₄ hts
      (Terminates.peek_endsExpression htt hterm)
    refine ⟨_, parseStatement_of_declaration htk hk
      (parseDeclaration_of_value htn hn hte he he' htt hterm), ?_⟩
    rw [htk.declaration_place htr]
    simp only [Statement.mapSpan, hg, hee]
  | @bare e _ _ hd =>
    -- there is no semicolon, so what comes next has to end the expression
    have hsemi : ¬ Clause.EndsWithSemicolon (.expression e, ts) := by
      rintro ⟨us, semicolon, hts, hk⟩
      have hmem : semicolon ∈ ts := by
        rw [show ts = us ++ [semicolon] from hts]
        simp
      exact hd.kind_ne_semicolon semicolon hmem hk
    obtain ⟨hends, hne⟩ := Clause.endsExpression_of_mem (hend ⟨_, rfl⟩ hsemi)
    obtain ⟨e', he', hee⟩ := hd.read hg f f' ht hends
    refine ⟨_, parseStatement_of_bare (ht.peek_mem hd.first) he' hne, ?_⟩
    simp only [Statement.mapSpan, hee]
  | ended hd hk =>
    obtain ⟨e', f₁, f₂, he', hee, hts, hts₂, hnil⟩ :=
      (hd.read hg).before ht (by simp [hk, Token.followKinds])
    obtain rfl := hnil.eq_of_nil
    refine ⟨_, parseStatement_of_ended (ht.peek_mem (hd.first.append _)) he' hts₂ hk, ?_⟩
    simp only [Statement.mapSpan, hee]

/-- A declaration begins with its keyword. -/
theorem DerivesStatement.begins {s : Statement} {ts rest : List Token}
    (h : DerivesStatement mark s ts rest) (hs : ¬ ∃ e, s = .expression e) :
    Begins Clause.followKinds ts := by
  cases h with
  | uninitialized hk _ _ => exact ⟨_, _, rfl, by rw [hk]; decide⟩
  | initialized constant hk _ _ _ _ =>
    refine ⟨_, _, rfl, ?_⟩
    rw [hk]
    cases constant <;> decide
  | bare hd => exact absurd ⟨_, rfl⟩ hs
  | ended hd _ => exact absurd ⟨_, rfl⟩ hs

/-- What follows a clause of a separated list cannot continue it. -/
theorem Clause.Separated.endsBefore {c : Clause} {clauses : List Clause} {f' : Feed}
    (hsep : Separated (c :: clauses)) (hd : Derived mark clauses)
    (hrest : f'.rest = tokens clauses) : c.EndsBefore f' := by
  intro hexpr hsemi
  cases hd with
  | nil =>
    rw [Feed.peek_eq_atEnd hrest]
    exact List.mem_of_elem_eq_true rfl
  | @cons s ts clauses hs _ =>
    -- the next clause is a declaration: two expressions need a semicolon between them
    have hnot : ¬ ∃ e, s = .expression e := by
      intro hlater
      exact hsemi ((List.pairwise_cons.1 hsep).1 (s, ts) List.mem_cons_self hexpr hlater)
    obtain ⟨t, us, rfl, ht⟩ := hs.begins hnot
    rw [Feed.peek_eq_cons hrest]
    exact ht

include hg in
/-- **Separated clauses are read as they were derived.** -/
theorem Clause.Derived.read {clauses : List Clause} (h : Derived mark clauses)
    (hsep : Separated clauses) {f : Feed} (hrest : f.rest = tokens clauses) :
    ∃ body, parseStatements f = .ok body ∧
      body.map (Statement.mapSpan g) = (statements clauses).map (Statement.mapSpan g) := by
  induction h generalizing f with
  | nil =>
    refine ⟨[], ?_, rfl⟩
    rw [parseStatements, if_pos (by rw [hrest]; rfl)]
  | @cons s ts clauses hs hmore ih =>
    -- the feed between this clause and the next
    obtain ⟨f₁, htook, hrest₁⟩ : ∃ f₁, f.Took ts f₁ ∧ f₁.rest = tokens clauses :=
      ⟨⟨tokens clauses, f.stop, Token.endFrom f.lastEnd ts⟩, ⟨hrest, rfl, rfl⟩, rfl⟩
    obtain ⟨s', hs', hss⟩ := hs.read hg htook hrest₁ (hsep.endsBefore hmore hrest₁)
    obtain ⟨body, hbody, hbb⟩ := ih (List.pairwise_cons.1 hsep).2 hrest₁
    refine ⟨s' :: body, parseStatements_of_cons hs' hbody, ?_⟩
    simp only [statements, List.map_cons] at hbb ⊢
    rw [hss, hbb]

end Read

/-! ## §3. Programs. -/

/-- The feed of a token list with the end of the input last. -/
theorem Feed.ofTokens_append {ts : List Token} (stop : Position)
    (h : ∀ t ∈ ts, t.kind ≠ .endOfInput) :
    (ofTokens (ts ++ [.atEnd stop])).rest = ts ∧ (ofTokens (ts ++ [.atEnd stop])).stop = stop := by
  have hall : ∀ t ∈ ts, (decide (t.kind ≠ .endOfInput)) = true := by
    intro t ht
    exact decide_eq_true (h t ht)
  unfold ofTokens
  dsimp only
  rw [List.takeWhile_append_of_pos hall, List.dropWhile_append_of_pos hall]
  constructor
  · simp [Token.atEnd]
  · rfl

/-- The place of a program is that of its tokens, the end of the input among them. -/
theorem Feed.ofTokens_extent {ts : List Token} {stop : Position} {f : Feed}
    (hrest : f.rest = ts) (hstop : f.stop = stop) :
    (⟨f.peek.pos, f.stop⟩ : Span) = Token.extent (ts ++ [.atEnd stop]) := by
  -- the end of the input has no width
  have hwidth : (Token.atEnd stop).stop = stop := by
    show (⟨stop.line, stop.column + 0⟩ : Position) = stop
    rw [Int.add_zero]
  subst hrest hstop
  unfold peek
  cases f.rest with
  | nil =>
    show (⟨f.stop, f.stop⟩ : Span) = ⟨f.stop, (Token.atEnd f.stop).stop⟩
    rw [hwidth]
  | cons t ts =>
    show (⟨t.pos, f.stop⟩ : Span) = ⟨t.pos, Token.endFrom t.stop (ts ++ [.atEnd f.stop])⟩
    rw [Token.endFrom_append, Token.endFrom_cons, Token.endFrom_nil, hwidth]

theorem DerivesProgram.mapSpan {mark : List Token → Span} (g : Span → Span)
    {clauses : List Clause} {tokens : List Token} {p : Program}
    (h : DerivesProgram mark clauses tokens p) :
    DerivesProgram (g ∘ mark) (clauses.map (Clause.mapSpan g)) tokens (p.mapSpan g) := by
  refine ⟨h.derived.mapSpan g, ?_, ?_⟩
  · rw [Clause.tokens_mapSpan]
    exact h.tokens_eq
  · rw [h.program_eq, Clause.statements_mapSpan]
    rfl

/-- The program of a text: its tokens, the statements read from them and their extent. -/
theorem parse_eq_ok_iff {source : Text} {p : Program} :
    Program.parse source = .ok p ↔ ∃ ts stop body,
      (Cursor.ofText source).Scans ts (.finished stop) ∧
      parseStatements (Feed.ofTokens (ts ++ [.atEnd stop])) = .ok body ∧
      p = ⟨Token.extent (ts ++ [.atEnd stop]), body⟩ := by
  unfold Program.parse
  constructor
  · intro h
    cases htokens : tokenize source with
    | error e => rw [htokens] at h; cases h
    | ok tokens =>
      rw [htokens] at h
      obtain ⟨ts, stop, hscan, rfl⟩ := tokenize_eq_ok_iff.1 htokens
      obtain ⟨hrest, hstop⟩ := Feed.ofTokens_append stop hscan.kind_ne_endOfInput
      cases hbody : parseStatements (Feed.ofTokens (ts ++ [.atEnd stop])) with
      | error e => simp [Program.ofTokens, Program.ofFeed, bind, Except.bind, hbody] at h
      | ok body =>
        simp only [Program.ofTokens, Program.ofFeed, bind, Except.bind, hbody] at h
        cases h
        rw [Feed.ofTokens_extent hrest hstop]
        exact ⟨ts, stop, body, hscan, hbody, rfl⟩
  · rintro ⟨ts, stop, body, hscan, hbody, rfl⟩
    obtain ⟨hrest, hstop⟩ := Feed.ofTokens_append stop hscan.kind_ne_endOfInput
    rw [tokenize_eq_ok_iff.2 ⟨ts, stop, hscan, rfl⟩, ← Feed.ofTokens_extent hrest hstop]
    simp only [Program.ofTokens, Program.ofFeed, bind, Except.bind, hbody]

/-- A program that was read is derived from the tokens of its text, places included. -/
theorem derivesProgram_of_parse {source : Text} {p : Program} (h : Program.parse source = .ok p) :
    ∃ tokens clauses, tokenize source = .ok tokens ∧
      DerivesProgram Token.extent clauses tokens p := by
  obtain ⟨ts, stop, body, hscan, hbody, rfl⟩ := parse_eq_ok_iff.1 h
  obtain ⟨clauses, hderived, htok, rfl⟩ := parseStatements_derived _ hbody
  rw [(Feed.ofTokens_append stop hscan.kind_ne_endOfInput).1] at htok
  refine ⟨_, clauses, tokenize_eq_ok_iff.2 ⟨ts, stop, hscan, rfl⟩, hderived, ?_, rfl⟩
  exact ⟨.atEnd stop, rfl, by rw [htok]⟩

/-- A separated derivation of the tokens of a text is read, up to places. -/
theorem DerivesProgram.parse {mark : List Token → Span} {g : Span → Span}
    (hg : ∀ ts, g (Token.extent ts) = g (mark ts)) {source : Text} {tokens : List Token}
    {clauses : List Clause} {q : Program} (htokens : tokenize source = .ok tokens)
    (h : DerivesProgram mark clauses tokens q) (hsep : Clause.Separated clauses) :
    ∃ p, Program.parse source = .ok p ∧ p.mapSpan g = q.mapSpan g := by
  obtain ⟨ts, stop, hscan, rfl⟩ := tokenize_eq_ok_iff.1 htokens
  obtain ⟨hrest, _⟩ := Feed.ofTokens_append stop hscan.kind_ne_endOfInput
  obtain ⟨last, _, htok⟩ := h.tokens_eq
  obtain ⟨hts, _⟩ := List.append_inj' htok rfl
  obtain ⟨body, hbody, hbb⟩ := h.derived.read hg hsep (hrest.trans hts)
  refine ⟨_, parse_eq_ok_iff.2 ⟨ts, stop, body, hscan, hbody, rfl⟩, ?_⟩
  rw [h.program_eq]
  unfold Program.mapSpan
  rw [hbb, hg]

/-- **The parser accepts its grammar and builds the grammar's tree.**  Whatever it reads,
    the grammar derives from all the tokens of the text, in their order, with the same
    tree; and every derivation in which expressions are kept apart by semicolons is read,
    with the tree of the derivation.  Places are ignored on both sides. -/
theorem parse_follows_grammar (source : Text) :
    (∀ p, Program.parse source = .ok p → ∃ tokens clauses, tokenize source = .ok tokens ∧
      DerivesProgram unmarked clauses tokens p.clearSpans) ∧
    (∀ tokens clauses q, tokenize source = .ok tokens →
      DerivesProgram unmarked clauses tokens q → Clause.Separated clauses →
      ∃ p, Program.parse source = .ok p ∧ p.clearSpans = q.clearSpans) := by
  constructor
  · intro p hp
    obtain ⟨tokens, clauses, htokens, hd⟩ := derivesProgram_of_parse hp
    exact ⟨tokens, _, htokens, hd.mapSpan fun _ => .unknown⟩
  · intro tokens clauses q htokens hd hsep
    -- a rewriting that forgets all places cannot tell the parser's from none
    let forget : Span → Span := fun _ => .unknown
    have hg : ∀ ts, forget (Token.extent ts) = forget (unmarked ts) := fun _ => rfl
    exact hd.parse hg htokens hsep

end Scriptorium
