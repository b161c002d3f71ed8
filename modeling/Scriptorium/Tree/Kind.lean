/-
  Scriptorium.Tree.Kind: the kinds of program parts, and their names in messages.
-/

import Scriptorium.Text.Basic

namespace Scriptorium

/-- The kinds of parts a program tree is made of. -/
inductive NodeKind where
  | program
  | varDeclaration
  | identifier
  | numericLiteral
  | stringLiteral
  | binaryExpr
  | assignmentExpr
  | objectLiteral
  | property
  | listLiteral
  | memberExpr
  | callExpr
deriving DecidableEq, Repr

/-- The name a kind is shown under. -/
def NodeKind.name : NodeKind → String
  | .program => "Program"
  | .varDeclaration => "VarDeclaration"
  | .identifier => "Identifier"
  | .numericLiteral => "NumericLiteral"
  | .stringLiteral => "StringLiteral"
  | .binaryExpr => "BinaryExpr"
  | .assignmentExpr => "AssignmentExpr"
  | .objectLiteral => "ObjectLiteral"
  | .property => "Property"
  | .listLiteral => "ListLiteral"
  | .memberExpr => "MemberExpr"
  | .callExpr => "CallExpr"

end Scriptorium
