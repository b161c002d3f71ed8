/-
  Scriptorium.Tree.Walk: visiting a tree, and rewriting its spans.

  A walk meets a part before the parts inside it, and those in the order in which
  they are written: left before right, target before value, object before
  property, callee before arguments.  Where `enter` says no, the inside is left
  out.  Absent parts are not met.
-/

import Scriptorium.Tree.Basic

namespace Scriptorium

/-! ## Visiting -/

mutual

/-- The parts met in an expression. -/
def Expr.visits (enter : Node → Bool) : Expr → List Node
  | .absent => []
  | .identifier span name => [.ofExpr (.identifier span name)]
  | .number span value => [.ofExpr (.number span value)]
  | .string span text => [.ofExpr (.string span text)]
  | .binary span op left right =>
    let here := Node.ofExpr (.binary span op left right)
    here :: if enter here then left.visits enter ++ right.visits enter else []
  | .assign span target value =>
    let here := Node.ofExpr (.assign span target value)
    here :: if enter here then target.visits enter ++ value.visits enter else []
  | .object span properties =>
    let here := Node.ofExpr (.object span properties)
    here :: if enter here then Property.visitsAll enter properties else []
  | .list span items =>
    let here := Node.ofExpr (.list span items)
    here :: if enter here then Expr.visitsAll enter items else []
  | .member span object property computed =>
    let here := Node.ofExpr (.member span object property computed)
    here :: if enter here then object.visits enter ++ property.visits enter else []
  | .call span callee args =>
    let here := Node.ofExpr (.call span callee args)
    here :: if enter here then callee.visits enter ++ Expr.visitsAll enter args else []

/-- The parts met in a list of expressions. -/
def Expr.visitsAll (enter : Node → Bool) : List Expr → List Node
  | [] => []
  | e :: rest => e.visits enter ++ Expr.visitsAll enter rest

/-- The parts met in a property. -/
def Property.visits (enter : Node → Bool) : Property → List Node
  | .mk span key value =>
    let here := Node.property (.mk span key value)
    here :: if enter here then value.visits enter else []

/-- The parts met in a list of properties. -/
def Property.visitsAll (enter : Node → Bool) : List Property → List Node
  | [] => []
  | p :: rest => p.visits enter ++ Property.visitsAll enter rest

end

/-- The parts met in a statement. -/
def Statement.visits (enter : Node → Bool) : Statement → List Node
  | .declaration span constant name value =>
    let here := Node.statement (.declaration span constant name value)
    here :: if enter here then value.visits enter else []
  | .expression e => e.visits enter

/-- The parts met in a tree. -/
def Node.visits (enter : Node → Bool) : Node → List Node
  | .program p =>
    let here := Node.program p
    here :: if enter here then p.body.flatMap (Statement.visits enter) else []
  | .statement s => s.visits enter
  | .property p => p.visits enter

/-! ## Spans -/

mutual

/-- Rewrites every span of an expression. -/
def Expr.mapSpan (f : Span → Span) : Expr → Expr
  | .absent => .absent
  | .identifier span name => .identifier (f span) name
  | .number span value => .number (f span) value
  | .string span text => .string (f span) text
  | .binary span op left right => .binary (f span) op (left.mapSpan f) (right.mapSpan f)
  | .assign span target value => .assign (f span) (target.mapSpan f) (value.mapSpan f)
  | .object span properties => .object (f span) (Property.mapSpanAll f properties)
  | .list span items => .list (f span) (Expr.mapSpanAll f items)
  | .member span object property computed =>
    .member (f span) (object.mapSpan f) (property.mapSpan f) computed
  | .call span callee args => .call (f span) (callee.mapSpan f) (Expr.mapSpanAll f args)

/-- Rewrites every span of a list of expressions. -/
def Expr.mapSpanAll (f : Span → Span) : List Expr → List Expr
  | [] => []
  | e :: rest => e.mapSpan f :: Expr.mapSpanAll f rest

/-- Rewrites every span of a property. -/
def Property.mapSpan (f : Span → Span) : Property → Property
  | .mk span key value => .mk (f span) key (value.mapSpan f)

/-- Rewrites every span of a list of properties. -/
def Property.mapSpanAll (f : Span → Span) : List Property → List Property
  | [] => []
  | p :: rest => p.mapSpan f :: Property.mapSpanAll f rest

end

/-- Rewrites every span of a statement. -/
def Statement.mapSpan (f : Span → Span) : Statement → Statement
  | .declaration span constant name value =>
    .declaration (f span) constant name (value.mapSpan f)
  | .expression e => .expression (e.mapSpan f)

/-- Rewrites every span of a program. -/
def Program.mapSpan (f : Span → Span) (p : Program) : Program :=
  ⟨f p.span, p.body.map (Statement.mapSpan f)⟩

/-- Rewrites every span of a tree. -/
def Node.mapSpan (f : Span → Span) : Node → Node
  | .program p => .program (p.mapSpan f)
  | .statement s => .statement (s.mapSpan f)
  | .property p => .property (p.mapSpan f)

/-- The tree without any spans. -/
def Node.clearSpans : Node → Node := Node.mapSpan fun _ => .unknown

/-- The program without any spans. -/
def Program.clearSpans : Program → Program := Program.mapSpan fun _ => .unknown

end Scriptorium
