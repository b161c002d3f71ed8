/-
  Scriptorium.Token.Basic: the tokens of a script.

  A token has a kind, the text it was written with and the place where it begins.
  String tokens hold the text between their quotes.  Every token list ends with
  one token for the end of the input.
-/

import Scriptorium.Position
import Scriptorium.Text.Quoted

namespace Scriptorium

/-- The kinds of tokens. -/
inductive TokenKind where
  | number
  | identifier
  | equals
  | openParen
  | closeParen
  | openBrace
  | closeBrace
  | openBracket
  | closeBracket
  | binaryOperator
  | letKeyword
  | constKeyword
  | semicolon
  | comma
  | colon
  | string
  | dot
  | endOfInput
deriving DecidableEq, Repr

namespace TokenKind

/-- The name a kind is shown under. -/
def name : TokenKind → String
  | .number => "Number"
  | .identifier => "Identifier"
  | .equals => "Equals"
  | .openParen => "OpenParen"
  | .closeParen => "CloseParen"
  | .openBrace => "OpenBrace"
  | .closeBrace => "CloseBrace"
  | .openBracket => "OpenBracket"
  | .closeBracket => "CloseBracket"
  | .binaryOperator => "BinaryOperator"
  | .letKeyword => "Let"
  | .constKeyword => "Const"
  | .semicolon => "Semicolon"
  | .comma => "Comma"
  | .colon => "Colon"
  | .string => "String"
  | .dot => "Dot"
  | .endOfInput => "EndOfInput"

/-- All kinds, in the order in which they are numbered from zero. -/
def all : List TokenKind :=
  [.number, .identifier, .equals, .openParen, .closeParen, .openBrace, .closeBrace,
    .openBracket, .closeBracket, .binaryOperator, .letKeyword, .constKeyword, .semicolon,
    .comma, .colon, .string, .dot, .endOfInput]

/-- The name of the kind with the given number, if there is one. -/
def nameOfIndex (n : Int) : Text :=
  match n with
  | .ofNat i =>
    match all[i]? with
    | some kind => kind.name
    | none => "TokenKind(" ++ Text.ofInt n ++ ")"
  | .negSucc _ => "TokenKind(" ++ Text.ofInt n ++ ")"

end TokenKind

/-- A token of a script. -/
structure Token where
  kind : TokenKind
  /-- What was written, without the quotes of a string. -/
  lexeme : Text
  /-- The place of its first symbol. -/
  pos : Position
deriving DecidableEq, Repr

namespace Token

/-- The token that stands for the end of the input. -/
def atEnd (pos : Position) : Token := ⟨.endOfInput, "EndOfInput", pos⟩

/-- How many columns the token takes. -/
def width (t : Token) : Nat :=
  match t.kind with
  | .endOfInput => 0
  | .string => t.lexeme.symbolCount + 2
  | _ => t.lexeme.symbolCount

/-- The place just past the token, as if it stood on one line. -/
def stop (t : Token) : Position := ⟨t.pos.line, t.pos.column + t.width⟩

/-- Kind and text, as in a token listing. -/
def text (t : Token) : Text := "<" ++ t.kind.name ++ ": " ++ t.lexeme ++ ">"

/-- What a message calls the token. -/
def describe (t : Token) : Text :=
  match t.kind with
  | .endOfInput => "end of input"
  | .string => "string " ++ t.lexeme.quote
  | kind => kind.name ++ " " ++ t.lexeme.quote

end Token

end Scriptorium
