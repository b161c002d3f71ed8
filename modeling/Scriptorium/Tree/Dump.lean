/-
  Scriptorium.Tree.Dump: a program tree as a JSON document.

  Each part is an object that names its kind first and then its fields.  Spans are
  left out.  A declaration without a value and a shorthand property have no value
  field; an absent part anywhere else is `null`.
-/

import Scriptorium.Json
import Scriptorium.Tree.Basic

namespace Scriptorium

/-- The object of a part of the given kind. -/
def Json.part (kind : NodeKind) (fields : List (String × Json)) : Json :=
  .object (("kind", .string kind.name) :: fields)

/-- A field for a value that may be absent. -/
def Json.optionalField (key : String) (present : Bool) (j : Json) : List (String × Json) :=
  if present then [(key, j)] else []

mutual

/-- The document of an expression. -/
def Expr.dump : Expr → Json
  | .absent => .null
  | .identifier _ name => .part .identifier [("symbol", .string name)]
  | .number _ value => .part .numericLiteral [("value", .number value)]
  | .string _ text => .part .stringLiteral [("value", .string text)]
  | .binary _ op left right =>
    .part .binaryExpr [("left", left.dump), ("right", right.dump), ("operator", .string op)]
  | .assign _ target value =>
    .part .assignmentExpr [("assignee", target.dump), ("value", value.dump)]
  | .object _ properties =>
    .part .objectLiteral [("properties", .array (Property.dumpAll properties))]
  | .list _ items => .part .listLiteral [("items", .array (Expr.dumpAll items))]
  | .member _ object property computed =>
    .part .memberExpr
      [("object", object.dump), ("property", property.dump), ("computed", .bool computed)]
  | .call _ callee args =>
    .part .callExpr [("caller", callee.dump), ("args", .array (Expr.dumpAll args))]

/-- The documents of a list of expressions. -/
def Expr.dumpAll : List Expr → List Json
  | [] => []
  | e :: rest => e.dump :: Expr.dumpAll rest

/-- The document of a property. -/
def Property.dump : Property → Json
  | .mk _ key value =>
    .part .property
      (("key", .string key) :: Json.optionalField "value" (!value.isAbsent) value.dump)

/-- The documents of a list of properties. -/
def Property.dumpAll : List Property → List Json
  | [] => []
  | p :: rest => p.dump :: Property.dumpAll rest

end

/-- The document of a statement. -/
def Statement.dump : Statement → Json
  | .declaration _ constant name value =>
    .part .varDeclaration
      ([("constant", .bool constant), ("identifier", .string name)] ++
        Json.optionalField "value" (!value.isAbsent) value.dump)
  | .expression e => e.dump

/-- The document of a program. -/
def Program.dump (p : Program) : Json :=
  .part .program [("body", .array (p.body.map Statement.dump))]

/-- The document of any part. -/
def Node.dump : Node → Json
  | .program p => p.dump
  | .statement s => s.dump
  | .property p => p.dump

end Scriptorium
