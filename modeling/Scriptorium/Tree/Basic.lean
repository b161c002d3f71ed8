/-
  Scriptorium.Tree.Basic: programs as trees.

  A program is a list of statements; a statement declares a variable or is an
  expression.  Every part knows the span it was read from.  A tree built by hand
  may have holes: `Expr.absent` stands where an expression could be and is not.
  The parser leaves holes only where a declaration has no value and where an
  object property is a bare name.
-/

import Scriptorium.Position
import Scriptorium.Tree.Kind

namespace Scriptorium

mutual

/-- An expression. -/
inductive Expr where
  /-- No expression at all. -/
  | absent
  /-- A name. -/
  | identifier (span : Span) (name : Text)
  /-- A number. -/
  | number (span : Span) (value : Float)
  /-- A string. -/
  | string (span : Span) (text : Text)
  /-- An operator between two operands. -/
  | binary (span : Span) (operator : Text) (left right : Expr)
  /-- An assignment; whether the target is a place is decided when it runs. -/
  | assign (span : Span) (target value : Expr)
  /-- An object written out. -/
  | object (span : Span) (properties : List Property)
  /-- A list written out. -/
  | list (span : Span) (items : List Expr)
  /-- A member: after a dot, or `computed` between brackets. -/
  | member (span : Span) (object property : Expr) (computed : Bool)
  /-- A call. -/
  | call (span : Span) (callee : Expr) (args : List Expr)

/-- One entry of an object written out.  Without a value it is shorthand for the
    variable named like the key. -/
inductive Property where
  | mk (span : Span) (key : Text) (value : Expr)

end

instance : Inhabited Expr := ⟨.absent⟩

instance : Inhabited Property := ⟨.mk .unknown [] .absent⟩

/-- A statement. -/
inductive Statement where
  /-- A declaration, of a constant or a variable, perhaps without a value. -/
  | declaration (span : Span) (constant : Bool) (name : Text) (value : Expr)
  /-- An expression used as a statement. -/
  | expression (e : Expr)

/-- A whole program. -/
structure Program where
  span : Span
  body : List Statement

/-- Any part of a tree. -/
inductive Node where
  | program (p : Program)
  | statement (s : Statement)
  | property (p : Property)

/-! ## Spans and kinds -/

namespace Property

/-- Where the property was read. -/
def span : Property → Span
  | .mk span _ _ => span

/-- The key under which the value is stored. -/
def key : Property → Text
  | .mk _ key _ => key

/-- The value, absent in shorthand. -/
def value : Property → Expr
  | .mk _ _ value => value

end Property

namespace Expr

/-- Whether there is no expression. -/
def isAbsent : Expr → Bool
  | .absent => true
  | _ => false

/-- Where the expression was read. -/
def span : Expr → Span
  | .absent => .unknown
  | .identifier span _ | .number span _ | .string span _ | .binary span _ _ _
  | .assign span _ _ | .object span _ | .list span _ | .member span _ _ _
  | .call span _ _ => span

/-- The kind of an expression that is present. -/
def kind? : Expr → Option NodeKind
  | .absent => none
  | .identifier .. => some .identifier
  | .number .. => some .numericLiteral
  | .string .. => some .stringLiteral
  | .binary .. => some .binaryExpr
  | .assign .. => some .assignmentExpr
  | .object .. => some .objectLiteral
  | .list .. => some .listLiteral
  | .member .. => some .memberExpr
  | .call .. => some .callExpr

end Expr

namespace Statement

/-- Where the statement was read. -/
def span : Statement → Span
  | .declaration span _ _ _ => span
  | .expression e => e.span

/-- The kind of a statement that is present. -/
def kind? : Statement → Option NodeKind
  | .declaration .. => some .varDeclaration
  | .expression e => e.kind?

end Statement

namespace Node

/-- An expression as a part of a tree. -/
def ofExpr (e : Expr) : Node := .statement (.expression e)

/-- No part at all. -/
def absent : Node := ofExpr .absent

/-- Where the part was read. -/
def span : Node → Span
  | .program p => p.span
  | .statement s => s.span
  | .property p => p.span

/-- The kind of a part that is present. -/
def kind? : Node → Option NodeKind
  | .program _ => some .program
  | .statement s => s.kind?
  | .property _ => some .property

end Node

end Scriptorium
