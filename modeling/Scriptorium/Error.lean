/-
  Scriptorium.Error: what can go wrong in a script, and how it is reported.

  An error is a cause together with the place it is blamed on.  The cause fixes
  the kind of error and the wording; all wording is in `Cause.message`.  Errors
  that arise inside a running script may start without a place and receive one
  from the part of the program being evaluated (`Error.locate`).

  Main results: `locate_of_isKnown`, an error that has a place keeps it.
-/

import Scriptorium.Number.Written
import Scriptorium.Token.Basic
import Scriptorium.Tree.Kind
import Scriptorium.Value.Kind

namespace Scriptorium

/-- The five kinds of errors. -/
inductive ErrorKind where
  /-- A character that begins no token, or a string without its end. -/
  | tokenize
  /-- A token that does not fit where it stands. -/
  | parse
  /-- A name declared twice in one scope, or a write to a constant. -/
  | varExists
  /-- A name that is bound nowhere. -/
  | resolution
  /-- Everything else that fails during evaluation. -/
  | interpret
deriving DecidableEq, Repr

/-- The name a kind is shown under. -/
def ErrorKind.name : ErrorKind → String
  | .tokenize => "Tokenize"
  | .parse => "Parse"
  | .varExists => "VarExists"
  | .resolution => "Resolution"
  | .interpret => "Interpret"

/-- Whether errors of this kind arise during evaluation. -/
def ErrorKind.isRuntime : ErrorKind → Bool
  | .tokenize | .parse => false
  | .varExists | .resolution | .interpret => true

/-- What the parser needs at a place where only one kind of token fits. -/
inductive Expectation where
  | declarationName
  | declarationEnd
  | argumentsEnd
  | computedEnd
  | groupEnd
  | objectKey
  | propertyColon
  | propertyEnd
  | objectEnd
  | itemEnd
  | listEnd
deriving DecidableEq, Repr

/-- The complaint when the needed token is not there. -/
def Expectation.message : Expectation → String
  | .declarationName => "expected identifier name following let | const keywords"
  | .declarationEnd => "variable declaration must end with a semicolon"
  | .argumentsEnd => "missing closing parenthesis inside arguments list"
  | .computedEnd => "missing closing bracket in computed member access"
  | .groupEnd => "unexpected token inside parenthesised expression"
  | .objectKey => "object literal key expected"
  | .propertyColon => "missing colon following identifier in object literal"
  | .propertyEnd => "expected comma or closing brace following property"
  | .objectEnd => "object literal missing closing brace"
  | .itemEnd => "expected comma or closing bracket following list item"
  | .listEnd => "list literal missing closing bracket"

/-- Why something failed. -/
inductive Cause where
  /-- A symbol that begins no token. -/
  | unrecognized (symbol : Symbol)
  /-- A string whose closing quote is missing. -/
  | unterminatedString
  /-- Another token than the one that is needed. -/
  | expected (what : Expectation) (found : Token)
  /-- Something other than a name after a dot. -/
  | dotWithoutName (found : Token)
  /-- A token that begins no expression. -/
  | unexpectedToken (found : Token)
  /-- A constant without a value. -/
  | constantWithoutValue (name : Text)
  /-- A token of the kind of numbers that writes no number. -/
  | invalidNumber (lexeme : Text)
  /-- A name declared twice in one scope. -/
  | alreadyDeclared (name : Text)
  /-- A write to a constant. -/
  | constantReassigned (name : Text)
  /-- A name that is bound nowhere. -/
  | undefinedName (name : Text)
  /-- A part of the program that is needed and absent. -/
  | missingNode
  /-- More steps than allowed. -/
  | stepLimit (limit : Int)
  /-- A part of the program that has no value of its own. -/
  | notEvaluable (kind : NodeKind)
  /-- An operator that numbers do not have. -/
  | unsupportedOperator (operator : Text)
  /-- An assignment to something that is no place. -/
  | invalidTarget (kind : NodeKind)
  /-- A call of something that is no function. -/
  | notCallable (kind : Kind)
  /-- A call with the wrong number of arguments. -/
  | wrongArity (name : Text) (arity : Int) (count : Nat)
  /-- A member read from a value without members. -/
  | noMemberToRead (kind : Kind)
  /-- A member written to a value without members. -/
  | noMemberToWrite (kind : Kind)
  /-- A dotted member whose name is no identifier. -/
  | memberName (kind : NodeKind)
  /-- An object key that is neither a string nor a number. -/
  | objectKey (kind : Kind)
  /-- A list index that is no number. -/
  | indexKind (kind : Kind)
  /-- A list index that is no integer. -/
  | indexFraction (index : Float)
  /-- A list index that is negative or too large. -/
  | indexRange (index : Float) (length : Nat)
  /-- Output that cannot be written. -/
  | printFailed (reason : Text)
  /-- An argument of a numeric function that is no number. -/
  | argumentNotNumber (function : Text) (index : Nat) (kind : Kind)
  /-- The length of a value that has none. -/
  | noLength (kind : Kind)
  /-- The keys of a value that is no object. -/
  | noKeys (kind : Kind)
  /-- Number formatting with the wrong number of arguments. -/
  | formatArity (count : Nat)
  /-- Number formatting of something else. -/
  | formatKind (kind : Kind)
  /-- A locale that is no string. -/
  | localeKind (kind : Kind)
  /-- A locale that is not known. -/
  | unknownLocale (locale : Text)
  /-- An error whose wording a host chose, about `name` if its kind has one. -/
  | stated (kind : ErrorKind) (name : Text) (message : Text)
deriving DecidableEq, Repr

namespace Cause

/-- The kind of error a cause leads to. -/
def kind : Cause → ErrorKind
  | .unrecognized _ | .unterminatedString => .tokenize
  | .expected .. | .dotWithoutName _ | .unexpectedToken _ | .constantWithoutValue _
  | .invalidNumber _ => .parse
  | .alreadyDeclared _ | .constantReassigned _ => .varExists
  | .undefinedName _ => .resolution
  | .stated kind _ _ => kind
  | _ => .interpret

/-- The variable an error is about. -/
def name? : Cause → Option Text
  | .alreadyDeclared name | .constantReassigned name | .undefinedName name => some name
  | .stated .varExists name _ | .stated .resolution name _ => some name
  | _ => none

/-- The wording, without kind and place. -/
def message : Cause → Text
  | .unrecognized s =>
    "unrecognized character " ++ Text.quoteChar (Char.ofNat s.code) ++ " in source"
  | .unterminatedString => "unterminated string literal"
  | .expected what found => what.message ++ ", found " ++ found.describe
  | .dotWithoutName found => "dot operator requires an identifier, found " ++ found.describe
  | .unexpectedToken found => "unexpected token found during parsing: " ++ found.describe
  | .constantWithoutValue name => "must assign value to constant expression " ++ name.quote
  | .invalidNumber lexeme => "invalid numeric literal " ++ lexeme.quote
  | .alreadyDeclared name =>
    "cannot declare variable '" ++ name ++ "' as it is already defined"
  | .constantReassigned name => "cannot reassign constant variable '" ++ name ++ "'"
  | .undefinedName name => "cannot resolve '" ++ name ++ "' as it is undefined"
  | .missingNode => "cannot evaluate a missing node"
  | .stepLimit limit => "step limit of " ++ Text.ofInt limit ++ " exceeded"
  | .notEvaluable kind =>
    "this AST node has not yet been set up for interpretation: <" ++ kind.name ++ ">"
  | .unsupportedOperator operator => "unsupported binary operator " ++ operator.quote
  | .invalidTarget kind => "invalid assignment target " ++ kind.name
  | .notCallable kind => "cannot call a value of kind " ++ kind.name
  | .wrongArity name arity count =>
    name ++ " expects " ++ Text.ofInt arity ++ " arguments, got " ++ Text.ofNat count
  | .noMemberToRead kind => "cannot access member of " ++ kind.name
  | .noMemberToWrite kind => "cannot assign member of " ++ kind.name
  | .memberName kind => "member name must be an identifier, found " ++ kind.name
  | .objectKey kind => "object key must be a string or number, found " ++ kind.name
  | .indexKind kind => "list index must be a number, found " ++ kind.name
  | .indexFraction index => "list index must be an integer, found " ++ Number.text index
  | .indexRange index length =>
    "list index " ++ Number.text index ++ " out of range (length " ++ Text.ofNat length ++ ")"
  | .printFailed reason => "print: " ++ reason
  | .argumentNotNumber function index kind =>
    function ++ " expects numbers, argument " ++ Text.ofNat index ++ " is " ++ kind.name
  | .noLength kind => "len is not defined for " ++ kind.name
  | .noKeys kind => "keys expects an object, got " ++ kind.name
  | .formatArity count => "formatNumber expects 1 or 2 arguments, got " ++ Text.ofNat count
  | .formatKind kind => "formatNumber expects a number, got " ++ kind.name
  | .localeKind kind => "formatNumber locale must be a string, got " ++ kind.name
  | .unknownLocale locale => "formatNumber: unknown locale " ++ locale.quote
  | .stated _ _ message => message

end Cause

/-- A cause and the place it is blamed on. -/
structure Error where
  cause : Cause
  pos : Position
deriving DecidableEq, Repr

namespace Error

/-- An error whose place is not known yet. -/
def unplaced (cause : Cause) : Error := ⟨cause, .unknown⟩

/-- Kind, place if known, and wording. -/
def text (e : Error) : Text :=
  let kind : Text := e.cause.kind.name
  if e.pos.isKnown then kind ++ "Error at " ++ e.pos.text ++ ": " ++ e.cause.message
  else kind ++ "Error: " ++ e.cause.message

/-- Gives a place to an error of a running script that has none. -/
def locate (e : Error) (pos : Position) : Error :=
  if pos.isKnown && e.cause.kind.isRuntime && !e.pos.isKnown then { e with pos } else e

/-- An error that has a place keeps it. -/
theorem locate_of_isKnown {e : Error} (h : e.pos.isKnown = true) (pos : Position) :
    e.locate pos = e := by
  simp [locate, h]

/-- Locating an error leaves its cause alone. -/
@[simp]
theorem cause_locate (e : Error) (pos : Position) : (e.locate pos).cause = e.cause := by
  unfold locate; split <;> rfl

end Error

end Scriptorium
