/-
  Scriptorium.Proofs.Grammar: the grammar of scripts, said without the parser.

  `Derives mark phrase tokens` says that the tokens, all of them and in this order,
  spell the phrase: a nonterminal together with the tree that belongs to it.  There
  is one constructor per production.  A node of the tree has no place of its own in
  the grammar; `mark` gives it one from the tokens it is spelled with.  With
  `unmarked` no node has a place, which is the grammar proper; with `Token.extent`
  the places are those that the parser assigns.

  Main results:
    * `Derives.mapSpan`: the choice of `mark` changes nothing but the places.
    * `Derives.first`: what a phrase can begin with.
-/

import Scriptorium.Tree.Parser
import Scriptorium.Tree.Walk

namespace Scriptorium

/-! ## §1. Phrases and productions. -/

/-- A nonterminal of the grammar and the tree that is built for it. -/
inductive Phrase where
  /-- An assignment, or an operand alone. -/
  | expression (e : Expr)
  /-- An object, a list or a sum. -/
  | operand (e : Expr)
  /-- Summands, to the left. -/
  | additive (e : Expr)
  /-- Factors, to the left. -/
  | multiplicative (e : Expr)
  /-- A member that is called any number of times. -/
  | call (e : Expr)
  /-- A primary expression with any number of members taken. -/
  | member (e : Expr)
  /-- A name, a number, a string or a group. -/
  | primary (e : Expr)
  /-- What stands between the braces of an object. -/
  | properties (properties : List Property)
  /-- What stands between the brackets of a list. -/
  | items (items : List Expr)
  /-- What stands between the parentheses of a call. -/
  | arguments (args : List Expr)
  /-- One argument or more. -/
  | argumentList (args : List Expr)

/-- The operators between summands. -/
def additiveOperators : List Text := ["+", "-"]

/-- The operators between factors. -/
def multiplicativeOperators : List Text := ["*", "/", "%"]

/-- Whether a token is one of the operators. -/
def Token.IsOperator (operators : List Text) (t : Token) : Prop :=
  t.kind = .binaryOperator ∧ t.lexeme ∈ operators

/-- `Derives mark phrase tokens`: the tokens spell the phrase. -/
inductive Derives (mark : List Token → Span) : Phrase → List Token → Prop where
  /-- `expression := operand` -/
  | value {e ts} (operand : Derives mark (.operand e) ts) : Derives mark (.expression e) ts
  /-- `expression := operand '=' expression` -/
  | assign {target value ts equals us}
      (operand : Derives mark (.operand target) ts) (isEquals : equals.kind = .equals)
      (expression : Derives mark (.expression value) us) :
      Derives mark (.expression (.assign (mark (ts ++ equals :: us)) target value))
        (ts ++ equals :: us)
  /-- `operand := '{' properties '}'` -/
  | object {opening properties ts closing}
      (isOpening : opening.kind = .openBrace) (inside : Derives mark (.properties properties) ts)
      (isClosing : closing.kind = .closeBrace) :
      Derives mark (.operand (.object (mark (opening :: (ts ++ [closing]))) properties))
        (opening :: (ts ++ [closing]))
  /-- `operand := '[' items ']'` -/
  | list {opening items ts closing}
      (isOpening : opening.kind = .openBracket) (inside : Derives mark (.items items) ts)
      (isClosing : closing.kind = .closeBracket) :
      Derives mark (.operand (.list (mark (opening :: (ts ++ [closing]))) items))
        (opening :: (ts ++ [closing]))
  /-- `operand := additive` -/
  | sum {e ts} (additive : Derives mark (.additive e) ts) : Derives mark (.operand e) ts
  /-- `additive := multiplicative` -/
  | term {e ts} (multiplicative : Derives mark (.multiplicative e) ts) :
      Derives mark (.additive e) ts
  /-- `additive := additive ('+' | '-') multiplicative` -/
  | plus {left right ts op us}
      (additive : Derives mark (.additive left) ts) (isOp : op.IsOperator additiveOperators)
      (multiplicative : Derives mark (.multiplicative right) us) :
      Derives mark (.additive (.binary (mark (ts ++ op :: us)) op.lexeme left right))
        (ts ++ op :: us)
  /-- `multiplicative := call` -/
  | factor {e ts} (call : Derives mark (.call e) ts) : Derives mark (.multiplicative e) ts
  /-- `multiplicative := multiplicative ('*' | '/' | '%') call` -/
  | times {left right ts op us}
      (multiplicative : Derives mark (.multiplicative left) ts)
      (isOp : op.IsOperator multiplicativeOperators) (call : Derives mark (.call right) us) :
      Derives mark (.multiplicative (.binary (mark (ts ++ op :: us)) op.lexeme left right))
        (ts ++ op :: us)
  /-- `call := member` -/
  | callee {e ts} (member : Derives mark (.member e) ts) : Derives mark (.call e) ts
  /-- `call := call '(' arguments ')'` -/
  | apply {callee args ts opening us closing}
      (call : Derives mark (.call callee) ts) (isOpening : opening.kind = .openParen)
      (inside : Derives mark (.arguments args) us) (isClosing : closing.kind = .closeParen) :
      Derives mark (.call (.call (mark (ts ++ opening :: (us ++ [closing]))) callee args))
        (ts ++ opening :: (us ++ [closing]))
  /-- `member := primary` -/
  | base {e ts} (primary : Derives mark (.primary e) ts) : Derives mark (.member e) ts
  /-- `member := member '.' Identifier` -/
  | dotted {object ts dot name}
      (member : Derives mark (.member object) ts) (isDot : dot.kind = .dot)
      (isName : name.kind = .identifier) :
      Derives mark (.member (.member (mark (ts ++ [dot, name])) object
        (.identifier (mark [name]) name.lexeme) false)) (ts ++ [dot, name])
  /-- `member := member '[' expression ']'` -/
  | computed {object property ts opening us closing}
      (member : Derives mark (.member object) ts) (isOpening : opening.kind = .openBracket)
      (inside : Derives mark (.expression property) us)
      (isClosing : closing.kind = .closeBracket) :
      Derives mark (.member (.member (mark (ts ++ opening :: (us ++ [closing]))) object property
        true)) (ts ++ opening :: (us ++ [closing]))
  /-- `primary := Identifier` -/
  | name {t} (isName : t.kind = .identifier) :
      Derives mark (.primary (.identifier (mark [t]) t.lexeme)) [t]
  /-- `primary := Number` -/
  | number {t value} (isNumber : t.kind = .number)
      (writes : Number.ofText? t.lexeme = some value) :
      Derives mark (.primary (.number (mark [t]) value)) [t]
  /-- `primary := String` -/
  | string {t} (isString : t.kind = .string) :
      Derives mark (.primary (.string (mark [t]) t.lexeme)) [t]
  /-- `primary := '(' expression ')'` -/
  | group {e opening ts closing}
      (isOpening : opening.kind = .openParen) (inside : Derives mark (.expression e) ts)
      (isClosing : closing.kind = .closeParen) :
      Derives mark (.primary e) (opening :: (ts ++ [closing]))
  /-- `properties := ε` -/
  | noProperties : Derives mark (.properties []) []
  /-- `properties := Identifier` -/
  | shorthand {key} (isKey : key.kind = .identifier) :
      Derives mark (.properties [.mk (mark [key]) key.lexeme .absent]) [key]
  /-- `properties := Identifier ',' properties` -/
  | shorthandMore {key comma properties ts}
      (isKey : key.kind = .identifier) (isComma : comma.kind = .comma)
      (more : Derives mark (.properties properties) ts) :
      Derives mark (.properties (.mk (mark [key, comma]) key.lexeme .absent :: properties))
        (key :: comma :: ts)
  /-- `properties := Identifier ':' expression` -/
  | keyed {key colon value ts}
      (isKey : key.kind = .identifier) (isColon : colon.kind = .colon)
      (expression : Derives mark (.expression value) ts) :
      Derives mark (.properties [.mk (mark (key :: colon :: ts)) key.lexeme value])
        (key :: colon :: ts)
  /-- `properties := Identifier ':' expression ',' properties` -/
  | keyedMore {key colon value ts comma properties us}
      (isKey : key.kind = .identifier) (isColon : colon.kind = .colon)
      (expression : Derives mark (.expression value) ts) (isComma : comma.kind = .comma)
      (more : Derives mark (.properties properties) us) :
      Derives mark
        (.properties (.mk (mark (key :: colon :: ts)) key.lexeme value :: properties))
        (key :: colon :: (ts ++ comma :: us))
  /-- `items := ε` -/
  | noItems : Derives mark (.items []) []
  /-- `items := expression` -/
  | item {e ts} (expression : Derives mark (.expression e) ts) : Derives mark (.items [e]) ts
  /-- `items := expression ',' items` -/
  | itemMore {e ts comma items us}
      (expression : Derives mark (.expression e) ts) (isComma : comma.kind = .comma)
      (more : Derives mark (.items items) us) :
      Derives mark (.items (e :: items)) (ts ++ comma :: us)
  /-- `arguments := ε` -/
  | noArguments : Derives mark (.arguments []) []
  /-- `arguments := argumentList` -/
  | someArguments {args ts} (list : Derives mark (.argumentList args) ts) :
      Derives mark (.arguments args) ts
  /-- `argumentList := expression` -/
  | argument {e ts} (expression : Derives mark (.expression e) ts) :
      Derives mark (.argumentList [e]) ts
  /-- `argumentList := expression ',' argumentList` -/
  | argumentMore {e ts comma args us}
      (expression : Derives mark (.expression e) ts) (isComma : comma.kind = .comma)
      (more : Derives mark (.argumentList args) us) :
      Derives mark (.argumentList (e :: args)) (ts ++ comma :: us)

/-! ## §2. Statements and programs. -/

/-- `terminator := ';'`, or nothing where the input ends: `rest` is what comes after. -/
inductive Terminates : (terminator rest : List Token) → Prop where
  | semicolon {t rest} (isSemicolon : t.kind = .semicolon) : Terminates [t] rest
  | endOfInput : Terminates [] []

/-- `DerivesStatement mark statement tokens rest`: the tokens spell the statement where
    `rest` comes after them. -/
inductive DerivesStatement (mark : List Token → Span) :
    Statement → (tokens rest : List Token) → Prop where
  /-- `statement := let Identifier terminator` -/
  | uninitialized {keyword name terminator rest}
      (isKeyword : keyword.kind = .letKeyword) (isName : name.kind = .identifier)
      (ended : Terminates terminator rest) :
      DerivesStatement mark
        (.declaration (mark (keyword :: name :: terminator)) false name.lexeme .absent)
        (keyword :: name :: terminator) rest
  /-- `statement := (let | const) Identifier '=' expression terminator` -/
  | initialized {keyword name equals value ts terminator rest} (constant : Bool)
      (isKeyword : keyword.kind = if constant then .constKeyword else .letKeyword)
      (isName : name.kind = .identifier) (isEquals : equals.kind = .equals)
      (expression : Derives mark (.expression value) ts) (ended : Terminates terminator rest) :
      DerivesStatement mark
        (.declaration (mark (keyword :: name :: equals :: (ts ++ terminator))) constant name.lexeme
          value)
        (keyword :: name :: equals :: (ts ++ terminator)) rest
  /-- `statement := expression` -/
  | bare {e ts rest} (expression : Derives mark (.expression e) ts) :
      DerivesStatement mark (.expression e) ts rest
  /-- `statement := expression ';'` -/
  | ended {e ts semicolon rest} (expression : Derives mark (.expression e) ts)
      (isSemicolon : semicolon.kind = .semicolon) :
      DerivesStatement mark (.expression e) (ts ++ [semicolon]) rest

/-- A statement and the tokens it is spelled with. -/
abbrev Clause := Statement × List Token

namespace Clause

/-- The tokens of clauses, one clause after the other. -/
def tokens (clauses : List Clause) : List Token := clauses.flatMap Prod.snd

/-- The statements of clauses. -/
def statements (clauses : List Clause) : List Statement := clauses.map Prod.fst

/-- Whether every clause derives its statement before the clauses that follow it. -/
inductive Derived (mark : List Token → Span) : List Clause → Prop where
  | nil : Derived mark []
  | cons {statement ts clauses} (derives : DerivesStatement mark statement ts (tokens clauses))
      (more : Derived mark clauses) : Derived mark ((statement, ts) :: clauses)

/-- Whether the clause is an expression. -/
def IsExpression (c : Clause) : Prop := ∃ e, c.1 = .expression e

/-- Whether the clause ends with a semicolon. -/
def EndsWithSemicolon (c : Clause) : Prop :=
  ∃ ts semicolon, c.2 = ts ++ [semicolon] ∧ semicolon.kind = TokenKind.semicolon

/-- Whether every expression except possibly the last one ends with a semicolon: it
    does if another expression comes anywhere after it. -/
def Separated (clauses : List Clause) : Prop :=
  clauses.Pairwise fun c later => c.IsExpression → later.IsExpression → c.EndsWithSemicolon

end Clause

/-- `program := statement* EndOfInput`: the tokens spell the program, clause by clause. -/
structure DerivesProgram (mark : List Token → Span) (clauses : List Clause) (tokens : List Token)
    (program : Program) : Prop where
  derived : Clause.Derived mark clauses
  tokens_eq : ∃ last, last.kind = TokenKind.endOfInput ∧ tokens = Clause.tokens clauses ++ [last]
  program_eq : program = ⟨mark tokens, Clause.statements clauses⟩

/-- No places: the grammar proper. -/
def unmarked (_ : List Token) : Span := .unknown

/-! ## §3. Places are an annotation. -/

mutual

/-- Rewriting places twice is rewriting them once. -/
theorem Expr.mapSpan_mapSpan (f g : Span → Span) (e : Expr) :
    (e.mapSpan f).mapSpan g = e.mapSpan (g ∘ f) := by
  cases e with
  | absent | identifier | number | string => simp only [Expr.mapSpan, Function.comp_apply]
  | binary _ _ left right =>
    simp only [Expr.mapSpan, Function.comp_apply, left.mapSpan_mapSpan, right.mapSpan_mapSpan]
  | assign _ target value =>
    simp only [Expr.mapSpan, Function.comp_apply, target.mapSpan_mapSpan, value.mapSpan_mapSpan]
  | object _ properties =>
    simp only [Expr.mapSpan, Function.comp_apply, Property.mapSpanAll_mapSpanAll f g properties]
  | list _ items =>
    simp only [Expr.mapSpan, Function.comp_apply, Expr.mapSpanAll_mapSpanAll f g items]
  | member _ object property _ =>
    simp only [Expr.mapSpan, Function.comp_apply, object.mapSpan_mapSpan,
      property.mapSpan_mapSpan]
  | call _ callee args =>
    simp only [Expr.mapSpan, Function.comp_apply, callee.mapSpan_mapSpan,
      Expr.mapSpanAll_mapSpanAll f g args]

theorem Expr.mapSpanAll_mapSpanAll (f g : Span → Span) (es : List Expr) :
    Expr.mapSpanAll g (Expr.mapSpanAll f es) = Expr.mapSpanAll (g ∘ f) es := by
  cases es with
  | nil => simp only [Expr.mapSpanAll]
  | cons e rest =>
    simp only [Expr.mapSpanAll, e.mapSpan_mapSpan, Expr.mapSpanAll_mapSpanAll f g rest]

theorem Property.mapSpan_mapSpan (f g : Span → Span) (p : Property) :
    (p.mapSpan f).mapSpan g = p.mapSpan (g ∘ f) := by
  cases p with
  | mk _ _ value => simp only [Property.mapSpan, Function.comp_apply, value.mapSpan_mapSpan]

theorem Property.mapSpanAll_mapSpanAll (f g : Span → Span) (ps : List Property) :
    Property.mapSpanAll g (Property.mapSpanAll f ps) = Property.mapSpanAll (g ∘ f) ps := by
  cases ps with
  | nil => simp only [Property.mapSpanAll]
  | cons p rest =>
    simp only [Property.mapSpanAll, p.mapSpan_mapSpan, Property.mapSpanAll_mapSpanAll f g rest]

end

/-- Clearing places twice is clearing them once. -/
theorem Program.clearSpans_clearSpans (p : Program) : p.clearSpans.clearSpans = p.clearSpans := by
  have hstatement : ∀ s : Statement, (s.mapSpan fun _ => .unknown).mapSpan (fun _ => .unknown) =
      s.mapSpan fun _ => .unknown := by
    intro s
    cases s with
    | declaration _ _ _ value =>
      simp only [Statement.mapSpan, Expr.mapSpan_mapSpan]
      rfl
    | expression e =>
      simp only [Statement.mapSpan, Expr.mapSpan_mapSpan]
      rfl
  unfold Program.clearSpans Program.mapSpan
  simp only [List.map_map, Function.comp_def, hstatement]

/-- The phrase with every span of its tree rewritten. -/
def Phrase.mapSpan (g : Span → Span) : Phrase → Phrase
  | .expression e => .expression (e.mapSpan g)
  | .operand e => .operand (e.mapSpan g)
  | .additive e => .additive (e.mapSpan g)
  | .multiplicative e => .multiplicative (e.mapSpan g)
  | .call e => .call (e.mapSpan g)
  | .member e => .member (e.mapSpan g)
  | .primary e => .primary (e.mapSpan g)
  | .properties ps => .properties (Property.mapSpanAll g ps)
  | .items es => .items (Expr.mapSpanAll g es)
  | .arguments es => .arguments (Expr.mapSpanAll g es)
  | .argumentList es => .argumentList (Expr.mapSpanAll g es)

/-- Rewriting the spans of a tree is deriving it with rewritten places. -/
theorem Derives.mapSpan {mark : List Token → Span} (g : Span → Span) {phrase : Phrase}
    {ts : List Token} (h : Derives mark phrase ts) :
    Derives (g ∘ mark) (phrase.mapSpan g) ts := by
  induction h with
  | value _ ih => exact .value ih
  | assign _ he _ ih₁ ih₂ => exact .assign ih₁ he ih₂
  | object ho _ hc ih => exact .object ho ih hc
  | list ho _ hc ih => exact .list ho ih hc
  | sum _ ih => exact .sum ih
  | term _ ih => exact .term ih
  | plus _ ho _ ih₁ ih₂ => exact .plus ih₁ ho ih₂
  | factor _ ih => exact .factor ih
  | times _ ho _ ih₁ ih₂ => exact .times ih₁ ho ih₂
  | callee _ ih => exact .callee ih
  | apply _ ho _ hc ih₁ ih₂ => exact .apply ih₁ ho ih₂ hc
  | base _ ih => exact .base ih
  | dotted _ hd hn ih => exact .dotted ih hd hn
  | computed _ ho _ hc ih₁ ih₂ => exact .computed ih₁ ho ih₂ hc
  | name ht => exact .name ht
  | number ht hw => exact .number ht hw
  | string ht => exact .string ht
  | group ho _ hc ih => exact .group ho ih hc
  | noProperties => exact .noProperties
  | shorthand hk => exact .shorthand hk
  | shorthandMore hk hc _ ih => exact .shorthandMore hk hc ih
  | keyed hk hc _ ih => exact .keyed hk hc ih
  | keyedMore hk hc _ hm _ ih₁ ih₂ => exact .keyedMore hk hc ih₁ hm ih₂
  | noItems => exact .noItems
  | item _ ih => exact .item ih
  | itemMore _ hc _ ih₁ ih₂ => exact .itemMore ih₁ hc ih₂
  | noArguments => exact .noArguments
  | someArguments _ ih => exact .someArguments ih
  | argument _ ih => exact .argument ih
  | argumentMore _ hc _ ih₁ ih₂ => exact .argumentMore ih₁ hc ih₂

theorem DerivesStatement.mapSpan {mark : List Token → Span} (g : Span → Span)
    {statement : Statement} {ts rest : List Token}
    (h : DerivesStatement mark statement ts rest) :
    DerivesStatement (g ∘ mark) (statement.mapSpan g) ts rest := by
  cases h with
  | uninitialized hk hn ht => exact .uninitialized hk hn ht
  | initialized constant hk hn he hx ht => exact .initialized constant hk hn he (hx.mapSpan g) ht
  | bare hx => exact .bare (hx.mapSpan g)
  | ended hx hs => exact .ended (hx.mapSpan g) hs

/-- The clause with every span of its statement rewritten. -/
def Clause.mapSpan (g : Span → Span) (c : Clause) : Clause := (c.1.mapSpan g, c.2)

@[simp]
theorem Clause.tokens_mapSpan (g : Span → Span) (clauses : List Clause) :
    tokens (clauses.map (mapSpan g)) = tokens clauses := by
  simp [tokens, mapSpan, List.flatMap_map]

@[simp]
theorem Clause.statements_mapSpan (g : Span → Span) (clauses : List Clause) :
    statements (clauses.map (mapSpan g)) = (statements clauses).map (Statement.mapSpan g) := by
  simp [statements, mapSpan]

theorem Clause.Derived.mapSpan {mark : List Token → Span} (g : Span → Span)
    {clauses : List Clause} (h : Derived mark clauses) :
    Derived (g ∘ mark) (clauses.map (Clause.mapSpan g)) := by
  induction h with
  | nil => exact .nil
  | cons hd _ ih =>
    refine .cons ?_ ih
    rw [Clause.tokens_mapSpan]
    exact hd.mapSpan g

/-! ## §4. What a phrase can begin with. -/

/-- Whether there is a first token, and it is of one of the kinds. -/
def Begins (kinds : List TokenKind) (ts : List Token) : Prop :=
  ∃ t rest, ts = t :: rest ∧ t.kind ∈ kinds

theorem Begins.append {kinds : List TokenKind} {ts : List Token} (h : Begins kinds ts)
    (us : List Token) : Begins kinds (ts ++ us) := by
  obtain ⟨t, rest, rfl, ht⟩ := h
  exact ⟨t, rest ++ us, rfl, ht⟩

theorem Begins.ne_nil {kinds : List TokenKind} {ts : List Token} (h : Begins kinds ts) :
    ts ≠ [] := by
  obtain ⟨t, rest, rfl, _⟩ := h
  exact List.cons_ne_nil t rest

/-- The kinds of tokens that begin a primary expression. -/
def primaryKinds : List TokenKind := [.identifier, .number, .string, .openParen]

/-- The kinds of tokens that begin an expression. -/
def expressionKinds : List TokenKind := .openBrace :: .openBracket :: primaryKinds

/-- The first token that a phrase needs.  The phrases between brackets may be empty. -/
def Phrase.First : Phrase → List Token → Prop
  | .expression _, ts | .operand _, ts | .argumentList _, ts => Begins expressionKinds ts
  | .additive _, ts | .multiplicative _, ts | .call _, ts | .member _, ts | .primary _, ts =>
    Begins primaryKinds ts
  | .properties _, _ | .items _, _ | .arguments _, _ => True

/-- The first token of a phrase is one that the phrase can begin with. -/
theorem Derives.first {mark : List Token → Span} {phrase : Phrase} {ts : List Token}
    (h : Derives mark phrase ts) : phrase.First ts := by
  induction h with
  | value _ ih | term _ ih | factor _ ih | callee _ ih | base _ ih | argument _ ih => exact ih
  | sum _ ih =>
    obtain ⟨t, rest, hts, ht⟩ := ih
    exact ⟨t, rest, hts, List.mem_cons_of_mem _ (List.mem_cons_of_mem _ ht)⟩
  | assign _ _ _ ih _ | plus _ _ _ ih _ | times _ _ _ ih _ | apply _ _ _ _ ih _
  | dotted _ _ _ ih | computed _ _ _ _ ih _ | argumentMore _ _ _ ih _ => exact ih.append _
  | object ho _ _ _ | list ho _ _ _ | group ho _ _ _ =>
    exact ⟨_, _, rfl, by simp [ho, expressionKinds, primaryKinds]⟩
  | name ht | number ht _ | string ht => exact ⟨_, _, rfl, by simp [ht, primaryKinds]⟩
  | _ => trivial

end Scriptorium
