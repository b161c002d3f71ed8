/-
  Scriptorium.Proofs.Parsing.Trees: the trees that the parser builds.

  A tree that was read has holes only where the grammar allows them, its names, numbers,
  strings and operators are those of its tokens, and each of its parts starts where one
  of the tokens does.  All of this is read off the derivation that belongs to the tree.

  Main results:
    * `wellFormed_of_parse`: a program that was read is well-formed.
    * `placed_of_parse`: every part of it starts where a token starts.
-/

import Scriptorium.Proofs.Parsing.Program
import Scriptorium.Proofs.Printing.Writing

namespace Scriptorium

/-! ## §1. The tokens of a text. -/

/-- Whether the place lies in a text. -/
def Position.InText (p : Position) : Prop := 1 ≤ p.line ∧ 1 ≤ p.column

theorem Position.InText.isKnown {p : Position} (h : p.InText) : p.isKnown = true := by
  have hline : 0 < p.line := h.1
  simpa [Position.isKnown] using hline

theorem Text.placeAfter_inText (t : Text) : t.placeAfter.InText := by
  unfold Position.InText placeAfter
  constructor
  · show (1 : Int) ≤ 1 + _
    omega
  · show (1 : Int) ≤ 1 + _
    omega

/-- Whether the token is what its kind says. -/
def Token.Readable (t : Token) : Prop := ∃ after, t.Proper after

/-- Every token of a text is what its kind says and lies in the text; the end of the
    input lies there too. -/
theorem Cursor.Scans.readable {source : Text} {ts : List Token} {stop : Position}
    (h : (Cursor.ofText source).Scans ts (.finished stop)) :
    (∀ t ∈ ts, t.Readable ∧ t.pos.InText) ∧ stop.InText := by
  obtain ⟨pieces, tail, rfl, rfl, _, _, hall⟩ :=
    h.pieces rfl (List.nil_append source.symbols).symm rfl
  refine ⟨?_, source.placeAfter_inText⟩
  intro t ht
  -- every token belongs to a piece of the text
  obtain ⟨piece, hpiece, rfl⟩ := List.mem_map.1 ht
  obtain ⟨before, after, hsplit⟩ := List.append_of_mem hpiece
  have hstands := hall before piece after hsplit
  refine ⟨⟨_, hstands.proper⟩, ?_⟩
  rw [hstands.place]
  exact Text.placeAfter_inText _

namespace Token.Readable

variable {t : Token}

theorem isName (h : t.Readable) (hk : t.kind = .identifier) : t.lexeme.IsName := by
  obtain ⟨after, hproper⟩ := h
  unfold Token.Proper at hproper
  rw [hk] at hproper
  exact ⟨hproper.1, hproper.2.2⟩

theorem isNumeral (h : t.Readable) (hk : t.kind = .number) : t.lexeme.IsNumeral := by
  obtain ⟨after, hproper⟩ := h
  unfold Token.Proper at hproper
  rw [hk] at hproper
  exact hproper.1

theorem unquoted (h : t.Readable) (hk : t.kind = .string) : 0x22 ∉ t.lexeme := by
  obtain ⟨after, hproper⟩ := h
  unfold Token.Proper at hproper
  rw [hk] at hproper
  exact hproper

end Token.Readable

/-! ## §2. Derived trees are well-formed. -/

/-- Whether the tree of the phrase is well-formed. -/
def Phrase.WellFormed : Phrase → Prop
  | .expression e | .operand e | .additive e | .multiplicative e | .call e | .member e
  | .primary e => e.WellFormed
  | .properties ps => Property.AllWellFormed ps
  | .items es | .arguments es | .argumentList es => Expr.AllWellFormed es

/-- Readable tokens spell well-formed trees. -/
theorem Derives.wellFormed {mark : List Token → Span} {phrase : Phrase} {ts : List Token}
    (h : Derives mark phrase ts) (hts : ∀ t ∈ ts, t.Readable) : phrase.WellFormed := by
  induction h with
  | value _ ih | sum _ ih | term _ ih | factor _ ih | callee _ ih | base _ ih
  | someArguments _ ih => exact ih hts
  | assign _ _ _ ih₁ ih₂ =>
    simp only [List.forall_mem_append, List.forall_mem_cons] at hts
    exact ⟨ih₁ hts.1, ih₂ hts.2.2⟩
  | object _ _ _ ih | list _ _ _ ih | group _ _ _ ih =>
    simp only [List.forall_mem_append, List.forall_mem_cons] at hts
    exact ih hts.2.1
  | plus _ ho _ ih₁ ih₂ =>
    simp only [List.forall_mem_append, List.forall_mem_cons] at hts
    exact ⟨List.mem_append_left _ ho.2, ih₁ hts.1, ih₂ hts.2.2⟩
  | times _ ho _ ih₁ ih₂ =>
    simp only [List.forall_mem_append, List.forall_mem_cons] at hts
    exact ⟨List.mem_append_right _ ho.2, ih₁ hts.1, ih₂ hts.2.2⟩
  | apply _ _ _ _ ih₁ ih₂ =>
    simp only [List.forall_mem_append, List.forall_mem_cons] at hts
    exact ⟨ih₁ hts.1, ih₂ hts.2.2.1⟩
  | dotted _ _ hn ih =>
    simp only [List.forall_mem_append, List.forall_mem_cons] at hts
    exact ⟨ih hts.1, hts.2.2.1.isName hn, fun _ => ⟨_, _, rfl⟩⟩
  | computed _ _ _ _ ih₁ ih₂ =>
    simp only [List.forall_mem_append, List.forall_mem_cons] at hts
    exact ⟨ih₁ hts.1, ih₂ hts.2.2.1, fun h => by cases h⟩
  | name hk => exact (hts _ List.mem_cons_self).isName hk
  | number hk hw =>
    have hnumeral := (hts _ List.mem_cons_self).isNumeral hk
    rw [hnumeral.ofText?] at hw
    exact ⟨_, hnumeral, Option.some.inj hw⟩
  | string hk => exact (hts _ List.mem_cons_self).unquoted hk
  | noProperties | noItems | noArguments => trivial
  | shorthand hk => exact ⟨⟨(hts _ List.mem_cons_self).isName hk, .inl rfl⟩, trivial⟩
  | shorthandMore hk _ _ ih =>
    simp only [List.forall_mem_cons] at hts
    exact ⟨⟨hts.1.isName hk, .inl rfl⟩, ih hts.2.2⟩
  | keyed hk _ _ ih =>
    simp only [List.forall_mem_cons] at hts
    exact ⟨⟨hts.1.isName hk, .inr (ih hts.2.2)⟩, trivial⟩
  | keyedMore hk _ _ _ _ ih₁ ih₂ =>
    simp only [List.forall_mem_append, List.forall_mem_cons] at hts
    exact ⟨⟨hts.1.isName hk, .inr (ih₁ hts.2.2.1)⟩, ih₂ hts.2.2.2.2⟩
  | item _ ih | argument _ ih => exact ⟨ih hts, trivial⟩
  | itemMore _ _ _ ih₁ ih₂ | argumentMore _ _ _ ih₁ ih₂ =>
    simp only [List.forall_mem_append, List.forall_mem_cons] at hts
    exact ⟨ih₁ hts.1, ih₂ hts.2.2⟩

theorem DerivesStatement.wellFormed {mark : List Token → Span} {s : Statement}
    {ts rest : List Token} (h : DerivesStatement mark s ts rest) (hts : ∀ t ∈ ts, t.Readable) :
    s.WellFormed := by
  cases h with
  | uninitialized _ hn _ =>
    simp only [List.forall_mem_cons] at hts
    exact ⟨hts.2.1.isName hn, .inr ⟨rfl, rfl⟩⟩
  | initialized _ _ hn _ hd _ =>
    simp only [List.forall_mem_append, List.forall_mem_cons] at hts
    exact ⟨hts.2.1.isName hn, .inl (hd.wellFormed hts.2.2.2.1)⟩
  | bare hd => exact hd.wellFormed hts
  | ended hd _ => exact hd.wellFormed (List.forall_mem_append.1 hts).1

theorem Clause.Derived.wellFormed {mark : List Token → Span} {clauses : List Clause}
    (h : Derived mark clauses) (hts : ∀ t ∈ tokens clauses, t.Readable) :
    ∀ s ∈ statements clauses, s.WellFormed := by
  induction h with
  | nil => exact List.forall_mem_nil _
  | cons hs _ ih =>
    simp only [tokens, List.flatMap_cons, List.forall_mem_append] at hts
    exact List.forall_mem_cons.2 ⟨hs.wellFormed hts.1, ih hts.2⟩

/-! ## §3. The parts of derived trees start at tokens. -/

/-- All parts of an expression. -/
def Expr.parts (e : Expr) : List Node := e.visits fun _ => true

/-- All parts of a statement. -/
def Statement.parts (s : Statement) : List Node := s.visits fun _ => true

/-- All parts of a program. -/
def Program.parts (p : Program) : List Node := (Node.program p).visits fun _ => true

/-- Whether all the parts start at one of the places, and that is known. -/
def Placed (place : Position → Prop) (parts : List Node) : Prop :=
  ∀ part ∈ parts, place part.span.start ∧ part.span.start.isKnown = true

section Placed

variable {place : Position → Prop} {part : Node} {parts more : List Node}

@[simp]
theorem placed_nil : Placed place [] := fun _ h => absurd h List.not_mem_nil

@[simp]
theorem placed_cons :
    Placed place (part :: parts) ↔
      (place part.span.start ∧ part.span.start.isKnown = true) ∧ Placed place parts :=
  List.forall_mem_cons

@[simp]
theorem placed_append :
    Placed place (parts ++ more) ↔ Placed place parts ∧ Placed place more :=
  List.forall_mem_append

end Placed

/-- All parts of the tree of the phrase. -/
def Phrase.parts : Phrase → List Node
  | .expression e | .operand e | .additive e | .multiplicative e | .call e | .member e
  | .primary e => e.parts
  | .properties ps => Property.visitsAll (fun _ => true) ps
  | .items es | .arguments es | .argumentList es => Expr.visitsAll (fun _ => true) es

/-- Whether the token begins at one of the places, and that is known. -/
def Token.Placed (place : Position → Prop) (t : Token) : Prop :=
  place t.pos ∧ t.pos.isKnown = true

section Tokens

variable {place : Position → Prop} {ts : List Token}

/-- What is spelled with tokens starts at the first of them. -/
theorem Token.extent_placed (hne : ts ≠ []) (h : ∀ t ∈ ts, t.Placed place) :
    place (Token.extent ts).start ∧ (Token.extent ts).start.isKnown = true := by
  cases ts with
  | nil => exact absurd rfl hne
  | cons t ts => exact h t List.mem_cons_self

/-- Every part of a derived tree starts at a token. -/
theorem Derives.placed {phrase : Phrase} (h : Derives Token.extent phrase ts)
    (hts : ∀ t ∈ ts, t.Placed place) : Placed place phrase.parts := by
  induction h with
  | value _ ih | sum _ ih | term _ ih | factor _ ih | callee _ ih | base _ ih
  | someArguments _ ih => exact ih hts
  | assign _ _ _ ih₁ ih₂ | plus _ _ _ ih₁ ih₂ | times _ _ _ ih₁ ih₂ =>
    have hstart := Token.extent_placed (by simp) hts
    simp only [List.forall_mem_append, List.forall_mem_cons] at hts
    simp only [Phrase.parts, Expr.parts, Expr.visits, if_true, placed_cons, placed_append]
    exact ⟨hstart, ih₁ hts.1, ih₂ hts.2.2⟩
  | object _ _ _ ih | list _ _ _ ih =>
    have hstart := Token.extent_placed (by simp) hts
    simp only [List.forall_mem_append, List.forall_mem_cons] at hts
    simp only [Phrase.parts, Expr.parts, Expr.visits, if_true, placed_cons]
    exact ⟨hstart, ih hts.2.1⟩
  | apply _ _ _ _ ih₁ ih₂ | computed _ _ _ _ ih₁ ih₂ =>
    have hstart := Token.extent_placed (by simp) hts
    simp only [List.forall_mem_append, List.forall_mem_cons] at hts
    simp only [Phrase.parts, Expr.parts, Expr.visits, if_true, placed_cons, placed_append]
    exact ⟨hstart, ih₁ hts.1, ih₂ hts.2.2.1⟩
  | dotted _ _ _ ih =>
    have hstart := Token.extent_placed (by simp) hts
    simp only [List.forall_mem_append, List.forall_mem_cons] at hts
    simp only [Phrase.parts, Expr.parts, Expr.visits, if_true, placed_cons, placed_append]
    exact ⟨hstart, ih hts.1, hts.2.2.1, placed_nil⟩
  | name _ | number _ _ | string _ =>
    simp only [Phrase.parts, Expr.parts, Expr.visits, placed_cons]
    exact ⟨hts _ List.mem_cons_self, placed_nil⟩
  | group _ _ _ ih =>
    -- parentheses leave no part behind
    simp only [List.forall_mem_append, List.forall_mem_cons] at hts
    exact ih hts.2.1
  | noProperties | noItems | noArguments => exact placed_nil
  | shorthand _ =>
    simp only [Phrase.parts, Property.visitsAll, Property.visits, Expr.visits, if_true,
      placed_append, placed_cons]
    exact ⟨⟨hts _ List.mem_cons_self, placed_nil⟩, placed_nil⟩
  | shorthandMore _ _ _ ih =>
    simp only [List.forall_mem_cons] at hts
    simp only [Phrase.parts, Property.visitsAll, Property.visits, Expr.visits, if_true,
      placed_append, placed_cons]
    exact ⟨⟨hts.1, placed_nil⟩, ih hts.2.2⟩
  | keyed _ _ _ ih =>
    simp only [List.forall_mem_cons] at hts
    simp only [Phrase.parts, Property.visitsAll, Property.visits, if_true, placed_append,
      placed_cons]
    exact ⟨⟨hts.1, ih hts.2.2⟩, placed_nil⟩
  | keyedMore _ _ _ _ _ ih₁ ih₂ =>
    simp only [List.forall_mem_append, List.forall_mem_cons] at hts
    simp only [Phrase.parts, Property.visitsAll, Property.visits, if_true, placed_append,
      placed_cons]
    exact ⟨⟨hts.1, ih₁ hts.2.2.1⟩, ih₂ hts.2.2.2.2⟩
  | item _ ih | argument _ ih =>
    simp only [Phrase.parts, Expr.visitsAll, placed_append]
    exact ⟨ih hts, placed_nil⟩
  | itemMore _ _ _ ih₁ ih₂ | argumentMore _ _ _ ih₁ ih₂ =>
    simp only [List.forall_mem_append, List.forall_mem_cons] at hts
    simp only [Phrase.parts, Expr.visitsAll, placed_append]
    exact ⟨ih₁ hts.1, ih₂ hts.2.2⟩

theorem DerivesStatement.placed {s : Statement} {rest : List Token}
    (h : DerivesStatement Token.extent s ts rest) (hts : ∀ t ∈ ts, t.Placed place) :
    Placed place s.parts := by
  cases h with
  | uninitialized _ _ _ =>
    simp only [Statement.parts, Statement.visits, Expr.visits, if_true, placed_cons]
    exact ⟨hts _ List.mem_cons_self, placed_nil⟩
  | initialized _ _ _ _ hd _ =>
    simp only [List.forall_mem_append, List.forall_mem_cons] at hts
    simp only [Statement.parts, Statement.visits, if_true, placed_cons]
    exact ⟨hts.1, hd.placed hts.2.2.2.1⟩
  | bare hd => exact hd.placed hts
  | ended hd _ => exact hd.placed (List.forall_mem_append.1 hts).1

theorem Clause.Derived.placed {clauses : List Clause} (h : Derived Token.extent clauses)
    (hts : ∀ t ∈ tokens clauses, t.Placed place) :
    Placed place ((statements clauses).flatMap Statement.parts) := by
  induction h with
  | nil => exact placed_nil
  | cons hs _ ih =>
    simp only [tokens, List.flatMap_cons, List.forall_mem_append] at hts
    simp only [statements, List.map_cons, List.flatMap_cons, placed_append]
    exact ⟨hs.placed hts.1, ih hts.2⟩

end Tokens

/-! ## §4. Programs that were read. -/

theorem inText_of_tokenize {source : Text} {tokens : List Token}
    (h : tokenize source = .ok tokens) : ∀ t ∈ tokens, t.pos.InText := by
  obtain ⟨ts, stop, hscan, rfl⟩ := tokenize_eq_ok_iff.1 h
  obtain ⟨hts, hstop⟩ := hscan.readable
  intro t ht
  rcases List.mem_append.1 ht with ht | ht
  · exact (hts t ht).2
  · rw [List.mem_singleton.1 ht]
    exact hstop

/-- A program that was read is well-formed. -/
theorem wellFormed_of_parse {source : Text} {p : Program} (h : Program.parse source = .ok p) :
    p.WellFormed := by
  obtain ⟨tokens, clauses, htokens, hd⟩ := derivesProgram_of_parse h
  obtain ⟨ts, stop, hscan, rfl⟩ := tokenize_eq_ok_iff.1 htokens
  obtain ⟨last, _, hlast⟩ := hd.tokens_eq
  obtain ⟨rfl, _⟩ := List.append_inj' hlast rfl
  rw [hd.program_eq]
  exact hd.derived.wellFormed fun t ht => (hscan.readable.1 t ht).1

/-- Every part of a program that was read starts where a token of its text starts. -/
theorem placed_of_parse {source : Text} {p : Program} (h : Program.parse source = .ok p) :
    ∃ tokens, tokenize source = .ok tokens ∧
      Placed (fun pos => ∃ t ∈ tokens, t.pos = pos) p.parts := by
  obtain ⟨tokens, clauses, htokens, hd⟩ := derivesProgram_of_parse h
  refine ⟨tokens, htokens, ?_⟩
  -- the end of the input counts: an empty program starts there
  have hplaced : ∀ t ∈ tokens, t.Placed fun pos => ∃ t ∈ tokens, t.pos = pos :=
    fun t ht => ⟨⟨t, ht, rfl⟩, (inText_of_tokenize htokens t ht).isKnown⟩
  obtain ⟨last, _, hlast⟩ := hd.tokens_eq
  have hne : tokens ≠ [] := by
    rw [hlast]
    simp
  rw [hd.program_eq]
  simp only [Program.parts, Node.visits, if_true, placed_cons]
  refine ⟨Token.extent_placed hne hplaced, hd.derived.placed ?_⟩
  intro t ht
  refine hplaced t ?_
  rw [hlast]
  exact List.mem_append_left _ ht

end Scriptorium
