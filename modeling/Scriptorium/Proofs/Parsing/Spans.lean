/-
  Scriptorium.Proofs.Parsing.Spans: what the spans of a tree delimit.

  Every part of a tree that was read belongs to a stretch of consecutive tokens: those that
  spell it, an opening parenthesis that begins it included, and for a bare key the comma
  after it.  Its span starts with the first of them and ends where the last of them would
  end if it stood on one line.  For strings that hold a line feed this is not the place that
  the scanner has just past them, and only there the span fails to delimit the tokens.

  Main results:
    * `Derives.stretches`: the stretch of tokens that a part was read from.
    * `spans_delimit_iff`: when the span of a part delimits its tokens.
    * `span_of_broken_string`: a string over two lines.
-/

import Scriptorium.Proofs.Lexing.Cuts
import Scriptorium.Proofs.Parsing.Trees

namespace Scriptorium

/-! ## §1. The tokens of a part. -/

/-- The expression that the phrase is, if it is one. -/
def Phrase.expr? : Phrase → Option Expr
  | .expression e | .operand e | .additive e | .multiplicative e | .call e | .member e
  | .primary e => some e
  | .properties _ | .items _ | .arguments _ | .argumentList _ => none

/-- Whether the tokens, all of them and in this order, spell the part. -/
def Node.SpelledBy (ts : List Token) : Node → Prop
  | .program _ => False
  | .statement (.expression e) => ∃ phrase : Phrase, phrase.expr? = some e ∧
      Derives Token.extent phrase ts
  | .statement s => ∃ rest, DerivesStatement Token.extent s ts rest
  | .property p => Derives Token.extent (.properties [p]) ts

/-- `part.ReadFrom ts`: the tokens spell the part, and its span is that of the tokens. -/
structure Node.ReadFrom (part : Node) (ts : List Token) : Prop where
  nonempty : ts ≠ []
  spelled : part.SpelledBy ts
  span : part.span = Token.extent ts

/-- Whether every part was read from a stretch of the tokens. -/
def Stretches (ts : List Token) (parts : List Node) : Prop :=
  ∀ part ∈ parts, ∃ left used right, ts = left ++ used ++ right ∧ part.ReadFrom used

section Stretches

variable {ts : List Token} {part : Node} {parts more : List Node}

@[simp]
theorem stretches_nil : Stretches ts [] := fun _ h => absurd h List.not_mem_nil

@[simp]
theorem stretches_append :
    Stretches ts (parts ++ more) ↔ Stretches ts parts ∧ Stretches ts more :=
  List.forall_mem_append

/-- A part that was read from all the tokens, and others. -/
theorem Stretches.cons (h : part.ReadFrom ts) (hparts : Stretches ts parts) :
    Stretches ts (part :: parts) :=
  List.forall_mem_cons.2 ⟨⟨[], ts, [], by simp, h⟩, hparts⟩

/-- A stretch of some of the tokens is one of all of them. -/
theorem Stretches.within (h : Stretches ts parts) (left right : List Token) :
    Stretches (left ++ (ts ++ right)) parts := by
  intro part hpart
  obtain ⟨l, used, r, rfl, hread⟩ := h part hpart
  exact ⟨left ++ l, used, r ++ right, by simp, hread⟩

theorem Stretches.front (h : Stretches ts parts) (right : List Token) :
    Stretches (ts ++ right) parts :=
  h.within [] right

theorem Stretches.back (h : Stretches ts parts) (left : List Token) :
    Stretches (left ++ ts) parts := by
  have hwithin := h.within left []
  rwa [List.append_nil] at hwithin

end Stretches

/-- An expression that has the place of its tokens was read from them. -/
theorem Derives.readFrom {phrase : Phrase} {e : Expr} {ts : List Token}
    (h : Derives Token.extent phrase ts) (he : phrase.expr? = some e)
    (hspan : e.span = Token.extent ts) (hne : ts ≠ []) : (Node.ofExpr e).ReadFrom ts :=
  ⟨hne, ⟨phrase, he, h⟩, hspan⟩

/-- **Every part of a derived tree was read from a stretch of the tokens.** -/
theorem Derives.stretches {phrase : Phrase} {ts : List Token}
    (h : Derives Token.extent phrase ts) : Stretches ts phrase.parts := by
  induction h with
  | value _ ih | sum _ ih | term _ ih | factor _ ih | callee _ ih | base _ ih
  | someArguments _ ih => exact ih
  | assign hl hk hr ih₁ ih₂ =>
    have hread := (Derives.assign hl hk hr).readFrom rfl rfl (by simp)
    simp only [Phrase.parts, Expr.parts, Expr.visits, if_true] at ih₁ ih₂ ⊢
    exact .cons hread (stretches_append.2 ⟨ih₁.front _, (ih₂.back [_]).back _⟩)
  | plus hl ho hr ih₁ ih₂ =>
    have hread := (Derives.plus hl ho hr).readFrom rfl rfl (by simp)
    simp only [Phrase.parts, Expr.parts, Expr.visits, if_true] at ih₁ ih₂ ⊢
    exact .cons hread (stretches_append.2 ⟨ih₁.front _, (ih₂.back [_]).back _⟩)
  | times hl ho hr ih₁ ih₂ =>
    have hread := (Derives.times hl ho hr).readFrom rfl rfl (by simp)
    simp only [Phrase.parts, Expr.parts, Expr.visits, if_true] at ih₁ ih₂ ⊢
    exact .cons hread (stretches_append.2 ⟨ih₁.front _, (ih₂.back [_]).back _⟩)
  | object ho hd hc ih =>
    have hread := (Derives.object ho hd hc).readFrom rfl rfl (by simp)
    simp only [Phrase.parts, Expr.parts, Expr.visits, if_true] at ih ⊢
    exact .cons hread (ih.within [_] _)
  | list ho hd hc ih =>
    have hread := (Derives.list ho hd hc).readFrom rfl rfl (by simp)
    simp only [Phrase.parts, Expr.parts, Expr.visits, if_true] at ih ⊢
    exact .cons hread (ih.within [_] _)
  | apply hl ho hd hc ih₁ ih₂ =>
    have hread := (Derives.apply hl ho hd hc).readFrom rfl rfl (by simp)
    simp only [Phrase.parts, Expr.parts, Expr.visits, if_true] at ih₁ ih₂ ⊢
    exact .cons hread (stretches_append.2 ⟨ih₁.front _, (ih₂.within [_] _).back _⟩)
  | computed hl ho hd hc ih₁ ih₂ =>
    have hread := (Derives.computed hl ho hd hc).readFrom rfl rfl (by simp)
    simp only [Phrase.parts, Expr.parts, Expr.visits, if_true] at ih₁ ih₂ ⊢
    exact .cons hread (stretches_append.2 ⟨ih₁.front _, (ih₂.within [_] _).back _⟩)
  | @dotted object ts dot name hl hdot hname ih =>
    have hread := (Derives.dotted hl hdot hname).readFrom rfl rfl (by simp)
    -- the name after the dot was read from its own token
    have hproperty : Stretches [name] [.ofExpr (.identifier (Token.extent [name]) name.lexeme)] :=
      .cons ((Derives.name hname).readFrom rfl rfl (by simp)) stretches_nil
    simp only [Phrase.parts, Expr.parts, Expr.visits, if_true] at ih ⊢
    exact .cons hread (stretches_append.2 ⟨ih.front _, (hproperty.back [dot]).back _⟩)
  | name hk => exact .cons ((Derives.name hk).readFrom rfl rfl (by simp)) stretches_nil
  | number hk hw => exact .cons ((Derives.number hk hw).readFrom rfl rfl (by simp)) stretches_nil
  | string hk => exact .cons ((Derives.string hk).readFrom rfl rfl (by simp)) stretches_nil
  | group _ _ _ ih => exact ih.within [_] _
  | noProperties | noItems | noArguments => exact stretches_nil
  | @shorthand key hk =>
    exact .cons ⟨by simp, .shorthand hk, rfl⟩ stretches_nil
  | @shorthandMore key comma ps ts hk hc hd ih =>
    -- the comma belongs to the key before it
    have hproperty : Stretches [key, comma]
        [.property (.mk (Token.extent [key, comma]) key.lexeme .absent)] :=
      .cons ⟨by simp, .shorthandMore hk hc .noProperties, rfl⟩ stretches_nil
    exact stretches_append.2 ⟨hproperty.front ts, ih.back [key, comma]⟩
  | @keyed key colon value ts hk hc hd ih =>
    have hproperty : Stretches (key :: colon :: ts)
        (.property (.mk (Token.extent (key :: colon :: ts)) key.lexeme value) :: value.parts) :=
      .cons ⟨by simp, .keyed hk hc hd, rfl⟩ (ih.back [key, colon])
    exact stretches_append.2 ⟨hproperty, stretches_nil⟩
  | @keyedMore key colon value ts comma ps us hk hc hd hm hmore ih₁ ih₂ =>
    have hproperty : Stretches (key :: colon :: ts)
        (.property (.mk (Token.extent (key :: colon :: ts)) key.lexeme value) :: value.parts) :=
      .cons ⟨by simp, .keyed hk hc hd, rfl⟩ (ih₁.back [key, colon])
    have hrest := ih₂.back (key :: colon :: (ts ++ [comma]))
    simp only [List.cons_append, List.append_assoc, List.nil_append] at hrest
    exact stretches_append.2 ⟨hproperty.front (comma :: us), hrest⟩
  | item _ ih | argument _ ih =>
    simp only [Phrase.parts, Expr.visitsAll] at ih ⊢
    exact stretches_append.2 ⟨ih, stretches_nil⟩
  | itemMore _ _ _ ih₁ ih₂ | argumentMore _ _ _ ih₁ ih₂ =>
    simp only [Phrase.parts, Expr.visitsAll] at ih₁ ih₂ ⊢
    exact stretches_append.2 ⟨ih₁.front _, (ih₂.back [_]).back _⟩

theorem DerivesStatement.stretches {s : Statement} {ts rest : List Token}
    (h : DerivesStatement Token.extent s ts rest) : Stretches ts s.parts := by
  cases h with
  | @uninitialized keyword name terminator _ hk hn ht =>
    simp only [Statement.parts, Statement.visits, Expr.visits, if_true]
    exact .cons ⟨by simp, ⟨rest, .uninitialized hk hn ht⟩, rfl⟩ stretches_nil
  | @initialized keyword name equals value us terminator _ constant hk hn he hd ht =>
    simp only [Statement.parts, Statement.visits, if_true]
    refine .cons ⟨by simp, ⟨rest, .initialized constant hk hn he hd ht⟩, rfl⟩ ?_
    exact hd.stretches.within [keyword, name, equals] terminator
  | bare hd => exact hd.stretches
  | ended hd _ => exact hd.stretches.front _

theorem Clause.Derived.stretches {clauses : List Clause} (h : Derived Token.extent clauses) :
    Stretches (tokens clauses) ((statements clauses).flatMap Statement.parts) := by
  induction h with
  | nil => exact stretches_nil
  | cons hs _ ih =>
    simp only [tokens, statements, List.flatMap_cons, List.map_cons]
    exact stretches_append.2 ⟨hs.stretches.front _, ih.back _⟩

/-! ## §2. Spans and the text. -/

/-- `span.Delimits source used`: the span is exact.  It starts at the first of the tokens and
    ends at the place that the scanner has just past the last of them, and what stands
    between in the source has exactly these tokens. -/
structure Span.Delimits (source : Text) (used : List Token) (span : Span) : Prop where
  start : used.head?.map Token.pos = some span.start
  stop : used.getLast?.map Token.past = some span.stop
  cut : ∃ us, tokenize (source.between span) = .ok us ∧
    us.map Token.sign = (used ++ [Token.atEnd .unknown]).map Token.sign

/-- Whether the span of every part delimits tokens that spell the part. -/
def Program.SpansDelimit (p : Program) (source : Text) : Prop :=
  ∃ tokens, tokenize source = .ok tokens ∧ ∀ part ∈ p.body.flatMap Statement.parts,
    ∃ left used right, tokens = left ++ used ++ right ∧ part.SpelledBy used ∧
      part.span.Delimits source used

/-- The end of a stretch of tokens is that of its last token. -/
theorem Token.endFrom_getLast? {ts : List Token} {last : Token} (h : ts.getLast? = some last)
    (pos : Position) : endFrom pos ts = last.stop := by
  obtain ⟨front, rfl⟩ := List.getLast?_eq_some_iff.1 h
  rw [endFrom_append]
  rfl

theorem Token.extent_eq {ts : List Token} {first last : Token} (hfirst : ts.head? = some first)
    (hlast : ts.getLast? = some last) : extent ts = ⟨first.pos, last.stop⟩ := by
  cases ts with
  | nil => cases hfirst
  | cons t ts =>
    cases hfirst
    show (⟨first.pos, endFrom first.pos (first :: ts)⟩ : Span) = _
    rw [endFrom_getLast? hlast]

/-- **Spans delimit the tokens of their parts, except where these end with a string over
    several lines.**  Every part of a program that was read has a stretch of consecutive
    tokens that spell it.  Its span starts at the first of them, and it ends where the last
    of them would end on one line.  The span delimits the tokens, in the source and for the
    scanner, if and only if the last of them has no line feed in it. -/
theorem spans_delimit_iff {source : Text} {p : Program} (h : Program.parse source = .ok p) :
    ∃ tokens, tokenize source = .ok tokens ∧ ∀ part ∈ p.body.flatMap Statement.parts,
      ∃ left used right first last, tokens = left ++ used ++ right ∧ part.SpelledBy used ∧
        used.head? = some first ∧ used.getLast? = some last ∧
        part.span = ⟨first.pos, last.stop⟩ ∧
        (part.span.Delimits source used ↔ 0x0A ∉ last.lexeme) := by
  obtain ⟨tokens, clauses, htokens, hd⟩ := derivesProgram_of_parse h
  refine ⟨tokens, htokens, ?_⟩
  obtain ⟨final, hfinal, htok⟩ := hd.tokens_eq
  rw [hd.program_eq]
  intro part hpart
  obtain ⟨left, used, right, hused, hread⟩ := hd.derived.stretches part hpart
  cases used with
  | nil => exact absurd rfl hread.nonempty
  | cons first used =>
    obtain ⟨last, hlast⟩ : ∃ last, (first :: used).getLast? = some last :=
      ⟨_, List.getLast?_eq_some_getLast (List.cons_ne_nil first used)⟩
    have hsplit : tokens = left ++ first :: used ++ (right ++ [final]) := by
      rw [htok, hused, List.append_assoc (left ++ first :: used)]
    have hspan : part.span = ⟨first.pos, last.stop⟩ := by
      rw [hread.span, Token.extent_eq rfl hlast]
    -- no token of the stretch is the end of the input
    have hkind : last.kind ≠ .endOfInput := by
      obtain ⟨ts, stop, hscan, hts⟩ := tokenize_eq_ok_iff.1 htokens
      obtain ⟨hclauses, _⟩ := List.append_inj' (htok.symm.trans hts) rfl
      refine hscan.kind_ne_endOfInput last ?_
      rw [← hclauses, hused]
      have hmem := List.mem_of_getLast? hlast
      simp only [List.mem_append]
      exact .inl (.inr hmem)
    refine ⟨left, first :: used, right ++ [final], first, last, hsplit, hread.spelled, rfl, hlast,
      hspan, ?_⟩
    rw [← Token.past_eq_stop_iff hkind, hspan]
    constructor
    · intro hdelimits
      have hstop := hdelimits.stop
      rw [hlast] at hstop
      exact Option.some.inj hstop
    · intro hpast
      rw [hsplit] at htokens
      refine ⟨rfl, ?_, ?_⟩
      · rw [hlast, Option.map_some, hpast]
      · rw [← hpast]
        exact tokenize_between htokens hlast (by simp)

/-- A string over two lines, and more behind it. -/
def brokenString : Text := "\"a\nb\" + c"

/-- The spans that the parser gives to the sum, the string and the name. -/
theorem parse_brokenString : ∃ p, Program.parse brokenString = .ok p ∧
    (p.body.flatMap Statement.parts).map Node.span =
      [⟨⟨1, 1⟩, ⟨2, 7⟩⟩, ⟨⟨1, 1⟩, ⟨1, 6⟩⟩, ⟨⟨2, 6⟩, ⟨2, 7⟩⟩] := by
  have hspans : ((Program.parse brokenString).toOption.map fun p =>
      (p.body.flatMap Statement.parts).map Node.span) =
      some [⟨⟨1, 1⟩, ⟨2, 7⟩⟩, ⟨⟨1, 1⟩, ⟨1, 6⟩⟩, ⟨⟨2, 6⟩, ⟨2, 7⟩⟩] := by
    decide +kernel
  cases hp : Program.parse brokenString with
  | error e =>
    rw [hp] at hspans
    cases hspans
  | ok p =>
    rw [hp] at hspans
    exact ⟨p, rfl, Option.some.inj hspans⟩

/-- A sum that begins with a string over two lines. -/
theorem spans_delimit_iff_brokenString : ∃ p, Program.parse brokenString = .ok p ∧
    ∃ tokens, tokenize brokenString = .ok tokens ∧ ∀ part ∈ p.body.flatMap Statement.parts,
      ∃ left used right first last, tokens = left ++ used ++ right ∧ part.SpelledBy used ∧
        used.head? = some first ∧ used.getLast? = some last ∧
        part.span = ⟨first.pos, last.stop⟩ ∧
        (part.span.Delimits brokenString used ↔ 0x0A ∉ last.lexeme) := by
  obtain ⟨p, hp, _⟩ := parse_brokenString
  exact ⟨p, hp, spans_delimit_iff hp⟩

/-- **The span of a string over two lines is wrong.**  It ends in the first line, where the
    scanner is just past no token at all. -/
theorem span_of_broken_string : ∃ p, Program.parse brokenString = .ok p ∧
    (∃ part ∈ p.body.flatMap Statement.parts, part.span = ⟨⟨1, 1⟩, ⟨1, 6⟩⟩) ∧
    ¬ p.SpansDelimit brokenString := by
  have htokens : tokenize brokenString = .ok [⟨.string, "a\nb", ⟨1, 1⟩⟩,
      ⟨.binaryOperator, "+", ⟨2, 4⟩⟩, ⟨.identifier, "c", ⟨2, 6⟩⟩, .atEnd ⟨2, 7⟩] := by
    decide +kernel
  obtain ⟨p, hp, hspans⟩ := parse_brokenString
  obtain ⟨part, hpart, hspan⟩ : ∃ part ∈ p.body.flatMap Statement.parts,
      part.span = ⟨⟨1, 1⟩, ⟨1, 6⟩⟩ := by
    refine List.mem_map.1 ?_
    rw [hspans]
    simp
  refine ⟨p, hp, ⟨part, hpart, hspan⟩, ?_⟩
  rintro ⟨tokens, htokens', hall⟩
  obtain ⟨left, used, right, hused, _, hdelimits⟩ := hall part hpart
  rw [htokens] at htokens'
  cases htokens'
  -- the scanner ends all its tokens in the second line
  have hline : ∀ t ∈ left ++ used ++ right, t.past.line = 2 := by
    rw [← hused]
    decide +kernel
  have hstop := hdelimits.stop
  rw [hspan] at hstop
  obtain ⟨last, hlast, hpast⟩ := Option.map_eq_some_iff.1 hstop
  have hwrong := hline last (by simp [List.mem_of_getLast? hlast])
  rw [hpast] at hwrong
  exact absurd hwrong (by decide)

end Scriptorium
