/-
  Scriptorium.Proofs.Printing.Writing: programs written down.

  A program is written as a sequence of signs, tokens that have no place yet, and the
  signs are set next to each other with blanks between them.  Every statement ends with
  a semicolon, and parentheses stand around every operand, callee, member object and
  assignee that is not a name, a number or a string.

  What is left open is up to the `Hand`: which digits stand for a number, and which
  blanks stand between two signs.  A hand knows digits for every number that has some,
  and keeps words and numbers apart.
-/

import Scriptorium.Proofs.Lexing.Layout
import Scriptorium.Proofs.Parsing.Program

namespace Scriptorium

/-! ## §1. Signs and hands. -/

/-- A token without its place. -/
structure Sign where
  kind : TokenKind
  lexeme : Text
deriving DecidableEq

/-- The sign that a token is. -/
def Token.sign (t : Token) : Sign := ⟨t.kind, t.lexeme⟩

namespace Sign

/-- What the sign is written with. -/
def raw (s : Sign) : Text := (⟨s.kind, s.lexeme, .unknown⟩ : Token).raw

/-- Whether the sign would run together with another one like it. -/
def isWordLike (s : Sign) : Bool :=
  s.kind = .number || s.kind = .identifier || s.kind = .letKeyword || s.kind = .constKeyword

/-- The sign of a name. -/
def name (text : Text) : Sign := ⟨.identifier, text⟩

end Sign

/-- How somebody writes programs. -/
structure Hand where
  /-- The digits of a number. -/
  digits : Float → Text
  /-- The blanks between two signs. -/
  gap : Sign → Sign → Text
  /-- A number that has digits is written with digits that stand for it. -/
  digits_numeral : ∀ run, run.IsNumeral → (digits (Number.ofDigits run)).IsNumeral ∧
    Number.ofDigits (digits (Number.ofDigits run)) = Number.ofDigits run
  /-- There is nothing but blanks between signs. -/
  gap_blank : ∀ a b, (gap a b).IsBlank
  /-- There are blanks where signs would run together. -/
  gap_apart : ∀ a b, a.isWordLike = true → b.isWordLike = true → gap a b ≠ []

open Classical in
/-- The hand that leaves blanks only where it must. -/
noncomputable def Hand.tight : Hand where
  digits x := if h : ∃ run, Text.IsNumeral run ∧ Number.ofDigits run = x then h.choose else []
  gap a b := if a.isWordLike && b.isWordLike then [0x20] else []
  digits_numeral := by
    intro run hrun
    have hex : ∃ run', Text.IsNumeral run' ∧ Number.ofDigits run' = Number.ofDigits run :=
      ⟨run, hrun, rfl⟩
    rw [dif_pos hex]
    exact hex.choose_spec
  gap_blank := by
    intro a b x hx
    split at hx
    · exact .inl (List.mem_singleton.1 hx)
    · cases hx
  gap_apart := by
    intro a b ha hb
    simp [ha, hb]

/-- Signs set next to each other. -/
def Hand.render (hand : Hand) : List Sign → Text
  | [] => []
  | [s] => s.raw
  | s :: next :: rest => s.raw ++ (hand.gap s next ++ hand.render (next :: rest))

/-! ## §2. The signs of a program. -/

/-- The sequences of signs with commas between them. -/
def Sign.commas : List (List Sign) → List Sign
  | [] => []
  | [signs] => signs
  | signs :: next :: rest => signs ++ ⟨.comma, ","⟩ :: Sign.commas (next :: rest)

/-- Whether an expression is written without parentheses wherever it stands. -/
def Expr.isAtom : Expr → Bool
  | .identifier .. | .number .. | .string .. => true
  | _ => false

/-- The signs of an expression where it is a part of another one. -/
def Expr.grouped (e : Expr) (signs : List Sign) : List Sign :=
  if e.isAtom then signs else ⟨.openParen, "("⟩ :: (signs ++ [⟨.closeParen, ")"⟩])

mutual

/-- The signs of an expression. -/
def Expr.signs (digits : Float → Text) : Expr → List Sign
  | .absent => []
  | .identifier _ name => [.name name]
  | .number _ value => [⟨.number, digits value⟩]
  | .string _ text => [⟨.string, text⟩]
  | .binary _ operator left right =>
    left.grouped (left.signs digits) ++ ⟨.binaryOperator, operator⟩ ::
      right.grouped (right.signs digits)
  | .assign _ target value =>
    target.grouped (target.signs digits) ++ ⟨.equals, "="⟩ :: value.signs digits
  | .object _ properties =>
    ⟨.openBrace, "\x7b"⟩ :: (Sign.commas (Property.signsEach digits properties) ++
      [⟨.closeBrace, "\x7d"⟩])
  | .list _ items =>
    ⟨.openBracket, "["⟩ :: (Sign.commas (Expr.signsEach digits items) ++ [⟨.closeBracket, "]"⟩])
  | .member _ object property computed =>
    object.grouped (object.signs digits) ++
      if computed then
        ⟨.openBracket, "["⟩ :: (property.signs digits ++ [⟨.closeBracket, "]"⟩])
      else ⟨.dot, "."⟩ :: property.signs digits
  | .call _ callee args =>
    callee.grouped (callee.signs digits) ++ ⟨.openParen, "("⟩ ::
      (Sign.commas (Expr.signsEach digits args) ++ [⟨.closeParen, ")"⟩])

/-- The signs of each of the expressions. -/
def Expr.signsEach (digits : Float → Text) : List Expr → List (List Sign)
  | [] => []
  | e :: rest => e.signs digits :: Expr.signsEach digits rest

/-- The signs of a property. -/
def Property.signs (digits : Float → Text) : Property → List Sign
  | .mk _ key value =>
    if value.isAbsent then [.name key] else .name key :: ⟨.colon, ":"⟩ :: value.signs digits

/-- The signs of each of the properties. -/
def Property.signsEach (digits : Float → Text) : List Property → List (List Sign)
  | [] => []
  | p :: rest => p.signs digits :: Property.signsEach digits rest

end

/-- The signs of a statement. -/
def Statement.signs (digits : Float → Text) : Statement → List Sign
  | .declaration _ constant name value =>
    (if constant then ⟨.constKeyword, "const"⟩ else ⟨.letKeyword, "let"⟩) :: .name name ::
      ((if value.isAbsent then [] else ⟨.equals, "="⟩ :: value.signs digits) ++ [⟨.semicolon, ";"⟩])
  | .expression e => e.signs digits ++ [⟨.semicolon, ";"⟩]

/-- The signs of a program. -/
def Program.signs (digits : Float → Text) (p : Program) : List Sign :=
  p.body.flatMap (Statement.signs digits)

/-- The text of a program. -/
def Program.text (hand : Hand) (p : Program) : Text := hand.render (p.signs hand.digits)

/-! ## §3. Programs that can be written. -/

/-- Whether the text can be a name. -/
def Text.IsName (t : Text) : Prop := t.IsWord ∧ t ≠ "let" ∧ t ≠ "const"

mutual

/-- Whether the expression can be written: nothing is missing, and every name, number,
    string and operator is one that has a spelling. -/
def Expr.WellFormed : Expr → Prop
  | .absent => False
  | .identifier _ name => name.IsName
  | .number _ value => ∃ run : Text, run.IsNumeral ∧ Number.ofDigits run = value
  | .string _ text => 0x22 ∉ text
  | .binary _ operator left right =>
    operator ∈ additiveOperators ++ multiplicativeOperators ∧ left.WellFormed ∧ right.WellFormed
  | .assign _ target value => target.WellFormed ∧ value.WellFormed
  | .object _ properties => Property.AllWellFormed properties
  | .list _ items => Expr.AllWellFormed items
  | .member _ object property computed =>
    object.WellFormed ∧ property.WellFormed ∧
      (computed = false → ∃ span name, property = .identifier span name)
  | .call _ callee args => callee.WellFormed ∧ Expr.AllWellFormed args

/-- Whether all the expressions can be written. -/
def Expr.AllWellFormed : List Expr → Prop
  | [] => True
  | e :: rest => e.WellFormed ∧ Expr.AllWellFormed rest

/-- Whether the property can be written; it may lack its value. -/
def Property.WellFormed : Property → Prop
  | .mk _ key value => key.IsName ∧ (value = .absent ∨ value.WellFormed)

/-- Whether all the properties can be written. -/
def Property.AllWellFormed : List Property → Prop
  | [] => True
  | p :: rest => p.WellFormed ∧ Property.AllWellFormed rest

end

/-- Whether the statement can be written; a variable may lack its value, a constant may
    not. -/
def Statement.WellFormed : Statement → Prop
  | .declaration _ constant name value =>
    name.IsName ∧ (value.WellFormed ∨ value = .absent ∧ constant = false)
  | .expression e => e.WellFormed

/-- Whether the program can be written. -/
def Program.WellFormed (p : Program) : Prop := ∀ s ∈ p.body, s.WellFormed

end Scriptorium
