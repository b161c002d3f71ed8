/-
  Scriptorium.Tree.Parser: from tokens to trees.

  The grammar, from the loosest binding to the tightest: assignment (to the
  right), object and list literals, sums, products, calls, members, and the
  primary expressions.  Every parse function takes a `Feed`, the tokens that are
  left, and returns what it read together with a smaller feed.  The proof that the
  feed shrinks is part of the result, and it is what makes the recursion end.

  A part's span begins at the first token of its level and ends with the last token
  that was consumed for it.
-/

import Scriptorium.Number.Digits
import Scriptorium.Token.Lexer
import Scriptorium.Tree.Basic

namespace Scriptorium

/-! ## Feeds -/

/-- The tokens a parser has before it. -/
structure Feed where
  /-- The tokens that are left, without the end of the input. -/
  rest : List Token
  /-- Where the input ends. -/
  stop : Position
  /-- The place just past the token consumed last. -/
  lastEnd : Position
deriving Repr

/-- The number of tokens that are left. -/
def Feed.size (f : Feed) : Nat := f.rest.length

/-- What a parse function read, and a feed of fewer than `bound` tokens. -/
structure Parsed (α : Type) (bound : Nat) where
  value : α
  feed : Feed
  size_lt : feed.size < bound

/-- The outcome of a parse function. -/
abbrev Parse (α : Type) (bound : Nat) := Except Error (Parsed α bound)

namespace Feed

/-- The token that comes next; at the end of the input, the token that says so. -/
def peek (f : Feed) : Token :=
  match f.rest with
  | [] => .atEnd f.stop
  | t :: _ => t

/-- Consumes the next token, whatever it is.  The end of the input is seen and stays. -/
def eat (f : Feed) : Parsed Token (f.size + 1) :=
  match h : f.rest with
  | [] => ⟨.atEnd f.stop, f, by omega⟩
  | t :: rest => ⟨t, ⟨rest, f.stop, t.stop⟩, by simp only [size, h, List.length_cons]; omega⟩

/-- Consumes the next token if it is of the given kind. -/
def eat? (f : Feed) (kind : TokenKind) : Option (Parsed Token f.size) :=
  match h : f.rest with
  | [] => none
  | t :: rest =>
    if t.kind = kind then some ⟨t, ⟨rest, f.stop, t.stop⟩, by simp [size, h]⟩ else none

/-- Consumes the next token if it is one of the given operators. -/
def eatOperator? (f : Feed) (operators : List Text) : Option (Parsed Token f.size) :=
  if f.peek.lexeme ∈ operators then f.eat? .binaryOperator else none

/-- Consumes a token of the given kind, or complains about the one that is there. -/
def expect (f : Feed) (kind : TokenKind) (what : Expectation) : Parse Token f.size :=
  match f.eat? kind with
  | some found => .ok found
  | none => .error ⟨.expected what f.peek, f.peek.pos⟩

end Feed

/-! ## Expressions -/

mutual

/-- An assignment, or just its left-hand side. -/
def parseExpression (f : Feed) : Parse Expr f.size := do
  let ⟨left, f₁, h₁⟩ ← parseOperand f
  match f₁.eat? .equals with
  | none => .ok ⟨left, f₁, h₁⟩
  | some ⟨_, f₂, h₂⟩ =>
    -- to the right: the value may be an assignment itself
    let ⟨value, f₃, h₃⟩ ← parseExpression f₂
    .ok ⟨.assign ⟨f.peek.pos, f₃.lastEnd⟩ left value, f₃, by omega⟩
termination_by 10 * f.size + 7

/-- An object, a list or a sum. -/
def parseOperand (f : Feed) : Parse Expr f.size :=
  match f.eat? .openBrace with
  | some ⟨opening, f₁, h₁⟩ => do
    let ⟨properties, f₂, h₂⟩ ← parseProperties f₁
    .ok ⟨.object ⟨opening.pos, f₂.lastEnd⟩ properties, f₂, by omega⟩
  | none =>
    match f.eat? .openBracket with
    | some ⟨opening, f₁, h₁⟩ => do
      let ⟨items, f₂, h₂⟩ ← parseItems f₁
      .ok ⟨.list ⟨opening.pos, f₂.lastEnd⟩ items, f₂, by omega⟩
    | none => parseAdditive f
termination_by 10 * f.size + 6

/-- The properties of an object, up to and with the closing brace.  A comma may
    follow the last one. -/
def parseProperties (f : Feed) : Parse (List Property) f.size :=
  match f.eat? .closeBrace with
  | some ⟨_, f₁, h₁⟩ => .ok ⟨[], f₁, h₁⟩
  | none => do
    if f.rest.isEmpty then throw ⟨.expected .objectEnd f.peek, f.peek.pos⟩
    let ⟨key, f₁, h₁⟩ ← f.expect .identifier .objectKey
    match f₁.eat? .comma with
    | some ⟨_, f₂, h₂⟩ =>
      -- the span of a bare key takes in the comma after it
      let ⟨rest, f₃, h₃⟩ ← parseProperties f₂
      .ok ⟨.mk ⟨key.pos, f₂.lastEnd⟩ key.lexeme .absent :: rest, f₃, by omega⟩
    | none =>
      if f₁.peek.kind = .closeBrace then
        -- the brace is left to the recursive call, which ends there
        let ⟨rest, f₂, h₂⟩ ← parseProperties f₁
        .ok ⟨.mk ⟨key.pos, f₁.lastEnd⟩ key.lexeme .absent :: rest, f₂, by omega⟩
      else
        let ⟨_, f₂, h₂⟩ ← f₁.expect .colon .propertyColon
        let ⟨value, f₃, h₃⟩ ← parseExpression f₂
        let property : Property := .mk ⟨key.pos, f₃.lastEnd⟩ key.lexeme value
        if f₃.peek.kind = .closeBrace then
          let ⟨rest, f₄, h₄⟩ ← parseProperties f₃
          .ok ⟨property :: rest, f₄, by omega⟩
        else
          let ⟨_, f₄, h₄⟩ ← f₃.expect .comma .propertyEnd
          let ⟨rest, f₅, h₅⟩ ← parseProperties f₄
          .ok ⟨property :: rest, f₅, by omega⟩
termination_by 10 * f.size + 8

/-- The items of a list, up to and with the closing bracket.  A comma may follow
    the last one. -/
def parseItems (f : Feed) : Parse (List Expr) f.size :=
  match f.eat? .closeBracket with
  | some ⟨_, f₁, h₁⟩ => .ok ⟨[], f₁, h₁⟩
  | none => do
    if f.rest.isEmpty then throw ⟨.expected .listEnd f.peek, f.peek.pos⟩
    let ⟨item, f₁, h₁⟩ ← parseExpression f
    if f₁.peek.kind = .closeBracket then
      let ⟨rest, f₂, h₂⟩ ← parseItems f₁
      .ok ⟨item :: rest, f₂, by omega⟩
    else
      let ⟨_, f₂, h₂⟩ ← f₁.expect .comma .itemEnd
      let ⟨rest, f₃, h₃⟩ ← parseItems f₂
      .ok ⟨item :: rest, f₃, by omega⟩
termination_by 10 * f.size + 8

/-- A sum or difference, to the left. -/
def parseAdditive (f : Feed) : Parse Expr f.size := do
  let ⟨left, f₁, h₁⟩ ← parseMultiplicative f
  let ⟨e, f₂, h₂⟩ ← parseAdditiveTail f.peek.pos left f₁
  .ok ⟨e, f₂, by omega⟩
termination_by 10 * f.size + 5

/-- Further summands. -/
def parseAdditiveTail (start : Position) (left : Expr) (f : Feed) : Parse Expr (f.size + 1) :=
  match f.eatOperator? ["+", "-"] with
  | none => .ok ⟨left, f, by simp⟩
  | some ⟨op, f₁, h₁⟩ => do
    let ⟨right, f₂, h₂⟩ ← parseMultiplicative f₁
    let sum : Expr := .binary ⟨start, f₂.lastEnd⟩ op.lexeme left right
    let ⟨e, f₃, h₃⟩ ← parseAdditiveTail start sum f₂
    .ok ⟨e, f₃, by omega⟩
termination_by 10 * f.size + 8

/-- A product, quotient or remainder, to the left. -/
def parseMultiplicative (f : Feed) : Parse Expr f.size := do
  let ⟨left, f₁, h₁⟩ ← parseCall f
  let ⟨e, f₂, h₂⟩ ← parseMultiplicativeTail f.peek.pos left f₁
  .ok ⟨e, f₂, by omega⟩
termination_by 10 * f.size + 4

/-- Further factors. -/
def parseMultiplicativeTail (start : Position) (left : Expr) (f : Feed) :
    Parse Expr (f.size + 1) :=
  match f.eatOperator? ["*", "/", "%"] with
  | none => .ok ⟨left, f, by simp⟩
  | some ⟨op, f₁, h₁⟩ => do
    let ⟨right, f₂, h₂⟩ ← parseCall f₁
    let product : Expr := .binary ⟨start, f₂.lastEnd⟩ op.lexeme left right
    let ⟨e, f₃, h₃⟩ ← parseMultiplicativeTail start product f₂
    .ok ⟨e, f₃, by omega⟩
termination_by 10 * f.size + 8

/-- A member expression, called any number of times. -/
def parseCall (f : Feed) : Parse Expr f.size := do
  let ⟨callee, f₁, h₁⟩ ← parseMember f
  let ⟨e, f₂, h₂⟩ ← parseCallTail f.peek.pos callee f₁
  .ok ⟨e, f₂, by omega⟩
termination_by 10 * f.size + 3

/-- Further calls. -/
def parseCallTail (start : Position) (callee : Expr) (f : Feed) : Parse Expr (f.size + 1) :=
  match f.eat? .openParen with
  | none => .ok ⟨callee, f, by simp⟩
  | some ⟨_, f₁, h₁⟩ => do
    let ⟨args, f₂, h₂⟩ ← parseArguments f₁
    let call : Expr := .call ⟨start, f₂.lastEnd⟩ callee args
    let ⟨e, f₃, h₃⟩ ← parseCallTail start call f₂
    .ok ⟨e, f₃, by omega⟩
termination_by 10 * f.size + 8

/-- The arguments of a call, up to and with the closing parenthesis. -/
def parseArguments (f : Feed) : Parse (List Expr) f.size :=
  match f.eat? .closeParen with
  | some ⟨_, f₁, h₁⟩ => .ok ⟨[], f₁, h₁⟩
  | none => parseArgumentList f
termination_by 10 * f.size + 9

/-- One argument or more, up to and with the closing parenthesis.  No comma may
    follow the last one. -/
def parseArgumentList (f : Feed) : Parse (List Expr) f.size := do
  let ⟨arg, f₁, h₁⟩ ← parseExpression f
  match f₁.eat? .comma with
  | some ⟨_, f₂, h₂⟩ =>
    let ⟨rest, f₃, h₃⟩ ← parseArgumentList f₂
    .ok ⟨arg :: rest, f₃, by omega⟩
  | none =>
    let ⟨_, f₂, h₂⟩ ← f₁.expect .closeParen .argumentsEnd
    .ok ⟨[arg], f₂, by omega⟩
termination_by 10 * f.size + 8

/-- A primary expression with any number of members taken. -/
def parseMember (f : Feed) : Parse Expr f.size := do
  let ⟨object, f₁, h₁⟩ ← parsePrimary f
  let ⟨e, f₂, h₂⟩ ← parseMemberTail f.peek.pos object f₁
  .ok ⟨e, f₂, by omega⟩
termination_by 10 * f.size + 2

/-- Further members. -/
def parseMemberTail (start : Position) (object : Expr) (f : Feed) : Parse Expr (f.size + 1) :=
  match f.eat? .dot with
  | some ⟨_, f₁, h₁⟩ =>
    match f₁.eat? .identifier with
    | none => .error ⟨.dotWithoutName f₁.peek, f₁.peek.pos⟩
    | some ⟨name, f₂, h₂⟩ => do
      let property : Expr := .identifier ⟨name.pos, f₂.lastEnd⟩ name.lexeme
      let member : Expr := .member ⟨start, f₂.lastEnd⟩ object property false
      let ⟨e, f₃, h₃⟩ ← parseMemberTail start member f₂
      .ok ⟨e, f₃, by omega⟩
  | none =>
    match f.eat? .openBracket with
    | some ⟨_, f₁, h₁⟩ => do
      let ⟨property, f₂, h₂⟩ ← parseExpression f₁
      let ⟨_, f₃, h₃⟩ ← f₂.expect .closeBracket .computedEnd
      let member : Expr := .member ⟨start, f₃.lastEnd⟩ object property true
      let ⟨e, f₄, h₄⟩ ← parseMemberTail start member f₃
      .ok ⟨e, f₄, by omega⟩
    | none => .ok ⟨object, f, by simp⟩
termination_by 10 * f.size + 8

/-- A name, a number, a string or a parenthesised expression.  Parentheses leave the
    span of what they hold as it is. -/
def parsePrimary (f : Feed) : Parse Expr f.size :=
  match f.eat? .identifier with
  | some ⟨t, f₁, h₁⟩ => .ok ⟨.identifier ⟨t.pos, f₁.lastEnd⟩ t.lexeme, f₁, h₁⟩
  | none =>
    match f.eat? .number with
    | some ⟨t, f₁, h₁⟩ =>
      match Number.ofText? t.lexeme with
      | some value => .ok ⟨.number ⟨t.pos, f₁.lastEnd⟩ value, f₁, h₁⟩
      | none => .error ⟨.invalidNumber t.lexeme, t.pos⟩
    | none =>
      match f.eat? .string with
      | some ⟨t, f₁, h₁⟩ => .ok ⟨.string ⟨t.pos, f₁.lastEnd⟩ t.lexeme, f₁, h₁⟩
      | none =>
        match f.eat? .openParen with
        | some ⟨_, f₁, h₁⟩ => do
          let ⟨inner, f₂, h₂⟩ ← parseExpression f₁
          let ⟨_, f₃, h₃⟩ ← f₂.expect .closeParen .groupEnd
          .ok ⟨inner, f₃, by omega⟩
        | none => .error ⟨.unexpectedToken f.peek, f.peek.pos⟩
termination_by 10 * f.size + 1

end

/-! ## Statements and programs -/

/-- What ends a declaration: a semicolon, or the end of the input. -/
def parseTerminator (f : Feed) : Parse Unit (f.size + 1) :=
  match f.eat? .semicolon with
  | some ⟨_, f₁, h₁⟩ => .ok ⟨(), f₁, by omega⟩
  | none =>
    if f.rest.isEmpty then .ok ⟨(), f, by simp⟩
    else .error ⟨.expected .declarationEnd f.peek, f.peek.pos⟩

/-- What follows the keyword of a declaration. -/
def parseDeclaration (start : Position) (constant : Bool) (f : Feed) : Parse Statement f.size := do
  let ⟨name, f₁, h₁⟩ ← f.expect .identifier .declarationName
  match f₁.eat? .equals with
  | none =>
    -- a constant is refused before its terminator is looked at
    if constant then throw ⟨.constantWithoutValue name.lexeme, f₁.peek.pos⟩
    let ⟨_, f₂, h₂⟩ ← parseTerminator f₁
    .ok ⟨.declaration ⟨start, f₂.lastEnd⟩ false name.lexeme .absent, f₂, by omega⟩
  | some ⟨_, f₂, h₂⟩ =>
    let ⟨value, f₃, h₃⟩ ← parseExpression f₂
    let ⟨_, f₄, h₄⟩ ← parseTerminator f₃
    .ok ⟨.declaration ⟨start, f₄.lastEnd⟩ constant name.lexeme value, f₄, by omega⟩

/-- A declaration, from its keyword on.  What stands there is consumed unseen. -/
def parseVarDeclaration (f : Feed) : Parse Statement f.size := do
  let ⟨keyword, f₁, h₁⟩ := f.eat
  let ⟨s, f₂, h₂⟩ ← parseDeclaration keyword.pos (keyword.kind = .constKeyword) f₁
  .ok ⟨s, f₂, by omega⟩

/-- An expression with an optional semicolon. -/
def parseBare (f : Feed) : Parse Statement f.size := do
  let ⟨e, f₁, h₁⟩ ← parseExpression f
  -- no semicolon is needed here, not even before another statement
  match f₁.eat? .semicolon with
  | some ⟨_, f₂, h₂⟩ => .ok ⟨.expression e, f₂, by omega⟩
  | none => .ok ⟨.expression e, f₁, h₁⟩

/-- A declaration or an expression. -/
def parseStatement (f : Feed) : Parse Statement f.size :=
  if f.peek.kind = .letKeyword ∨ f.peek.kind = .constKeyword then parseVarDeclaration f
  else parseBare f

/-- Statements up to the end of the input. -/
def parseStatements (f : Feed) : Except Error (List Statement) :=
  if f.rest.isEmpty then .ok []
  else do
    let ⟨s, f₁, _⟩ ← parseStatement f
    let rest ← parseStatements f₁
    .ok (s :: rest)
termination_by f.size

/-- The feed of a token list: what stands before the end of the input. -/
def Feed.ofTokens (tokens : List Token) : Feed :=
  let rest := tokens.takeWhile fun t => t.kind ≠ .endOfInput
  let stop := match tokens.dropWhile fun t => t.kind ≠ .endOfInput with
    | [] => .unknown
    | t :: _ => t.pos
  ⟨rest, stop, (rest.head?.map Token.pos).getD stop⟩

/-- Where reading stands after the tokens, if it stood at `pos` before. -/
def Token.endFrom (pos : Position) (ts : List Token) : Position := ts.foldl (fun _ t => t.stop) pos

/-- The feed of a list when the tokens before the index are consumed. -/
def Feed.atIndex (tokens : List Token) (i : Nat) : Feed :=
  ⟨(ofTokens tokens).rest.drop i, (ofTokens tokens).stop,
    Token.endFrom (ofTokens tokens).lastEnd ((ofTokens tokens).rest.take i)⟩

namespace Program

/-- The program that is before a feed. -/
def ofFeed (f : Feed) : Except Error Program := do
  let body ← parseStatements f
  .ok ⟨⟨f.peek.pos, f.stop⟩, body⟩

/-- The program a token list spells. -/
def ofTokens (tokens : List Token) : Except Error Program := ofFeed (Feed.ofTokens tokens)

/-- The program a text spells, or the first error in it. -/
def parse (source : Text) : Except Error Program := do
  let tokens ← tokenize source
  ofTokens tokens

end Program

/-! ## Parsers -/

/-- A parser, which can be used for one text after the other: the tokens that it was given
    and the index of the one that is before it. -/
structure Parser where
  tokens : List Token
  index : Nat
deriving Repr

namespace Parser

/-- A parser that was given nothing yet. -/
def new : Parser := ⟨[], 0⟩

/-- Has the parser read a text.  A text without tokens to read leaves it as it was.  Else it
    is given the tokens and set to the first of them, and in the end they are taken away; it
    stays at the end of the input, or at the token that it complained about. -/
def produce (p : Parser) (source : Text) : Except Error Program × Parser :=
  match tokenize source with
  | .error e => (.error e, p)
  | .ok tokens =>
    let p := { p with tokens }
    let p := { p with index := 0 }
    match Program.ofFeed (Feed.atIndex p.tokens p.index) with
    | .ok program => (.ok program, { p with tokens := [], index := tokens.length - 1 })
    | .error e =>
      (.error e, { p with tokens := [], index := tokens.findIdx fun t => t.pos = e.pos })

end Parser

end Scriptorium
