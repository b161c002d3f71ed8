/-
  Scriptorium.Eval.Basic: what programs mean.

  Every part of a program is visited before its inner parts, and those from left to
  right.  Arithmetic on anything but two numbers is `null`.  A declaration is
  refused before its value is computed, an assignment after.  A call computes the
  function, then the arguments, and only then checks their number.
-/

import Scriptorium.Eval.Member
import Scriptorium.Eval.Native
import Scriptorium.Tree.Basic

namespace Scriptorium

/-- The result of an operator on two numbers. -/
def arithmetic? (operator : Text) (x y : Float) : Option Float :=
  if operator = Text.ofString "+" then some (x + y)
  else if operator = Text.ofString "-" then some (x - y)
  else if operator = Text.ofString "*" then some (x * y)
  else if operator = Text.ofString "/" then some (x / y)
  else if operator = Text.ofString "%" then some (Number.remainder x y)
  else none

/-- The result of an operator on two values. -/
def applyOperator (span : Span) (operator : Text) : Value → Value → Eval Value
  | .number x, .number y =>
    match arithmetic? operator x y with
    | some z => pure (.number z)
    | none => Eval.fail (.unsupportedOperator operator) span.start
  | _, _ => pure .null

/-- The name after a dot. -/
def dottedName : Expr → Eval Value
  | .identifier _ name => pure (.string name)
  | .absent => Eval.defect .absentName
  | e =>
    match e.kind? with
    | some kind => Eval.fail (.memberName kind) e.span.start
    | none => Eval.defect .absentName

/-- Calls a function with computed arguments. -/
def callNative (settings : Settings) (scope : ScopeId) (span : Span) (fn : Native)
    (args : List Value) : Eval Value := do
  if 0 ≤ fn.arity ∧ (args.length : Int) ≠ fn.arity then
    Eval.fail (.wrongArity fn.name fn.arity args.length) span.start
  match ← Eval.blaming span.start (fn.action.run settings scope args) with
  -- a function of a host may return nothing
  | .nothing => return .null
  | v => return v

/-- The function a value is. -/
def asNative (span : Span) : Value → Eval Native
  | .native fn => pure fn
  | v => do Eval.fail (.notCallable (← Eval.kindOf v)) span.start

mutual

/-- The value of an expression. -/
def evalExpr (settings : Settings) (scope : ScopeId) : Expr → Eval Value
  | .absent => Eval.fail .missingNode .unknown
  | .identifier span name => do
    Eval.visit settings span.start
    Eval.lookup scope name span.start
  | .number span x => do
    Eval.visit settings span.start
    return .number x
  | .string span t => do
    Eval.visit settings span.start
    return .string t
  | .binary span operator left right => do
    Eval.visit settings span.start
    let x ← evalExpr settings scope left
    let y ← evalExpr settings scope right
    applyOperator span operator x y
  | .assign span (.identifier target name) value => do
    -- the target is not visited: it is written, not evaluated
    Eval.visit settings span.start
    let v ← evalExpr settings scope value
    Eval.assign scope name v target.start
  | .assign span (.member target object property computed) value => do
    Eval.visit settings span.start
    let container ← evalExpr settings scope object
    let key ← if computed then evalExpr settings scope property else dottedName property
    -- the key is checked only after the value was computed
    let v ← evalExpr settings scope value
    writeMember target container key v
  | .assign span target _ => do
    -- the value is not computed if there is no place for it
    Eval.visit settings span.start
    match target.kind? with
    | some kind => Eval.fail (.invalidTarget kind) span.start
    | none => Eval.defect .absentTarget
  | .object span properties => do
    Eval.visit settings span.start
    let fields ← evalProperties settings scope properties .empty
    Eval.alloc (.object fields)
  | .list span items => do
    Eval.visit settings span.start
    let values ← evalExprs settings scope items
    Eval.alloc (.list values)
  | .member span object property computed => do
    Eval.visit settings span.start
    let container ← evalExpr settings scope object
    let key ← if computed then evalExpr settings scope property else dottedName property
    readMember span container key
  | .call span callee args => do
    Eval.visit settings span.start
    let fn ← asNative span (← evalExpr settings scope callee)
    -- arguments are computed even if their number is wrong
    let values ← evalExprs settings scope args
    callNative settings scope span fn values

/-- The values of expressions, from the first to the last. -/
def evalExprs (settings : Settings) (scope : ScopeId) : List Expr → Eval (List Value)
  | [] => pure []
  | e :: rest => do
    let v ← evalExpr settings scope e
    let values ← evalExprs settings scope rest
    return v :: values

/-- The fields of an object after its properties were set from the first to the
    last. -/
def evalProperties (settings : Settings) (scope : ScopeId) :
    List Property → OrderedMap Text Value → Eval (OrderedMap Text Value)
  | [], fields => pure fields
  | .mk span key .absent :: rest, fields => do
    let v ← Eval.lookup scope key span.start
    evalProperties settings scope rest (fields.insert key v)
  | .mk _ key value :: rest, fields => do
    let v ← evalExpr settings scope value
    evalProperties settings scope rest (fields.insert key v)

end

/-- The value of a statement. -/
def evalStatement (settings : Settings) (scope : ScopeId) : Statement → Eval Value
  | .expression e => evalExpr settings scope e
  | .declaration span constant name value => do
    Eval.visit settings span.start
    -- only the innermost scope counts: outer names may be declared again
    if (← get).scopes.binds scope name then
      Eval.located span.start (.error (.unplaced (.alreadyDeclared name)))
    let v ← if value.isAbsent then pure .null else evalExpr settings scope value
    Eval.declare scope name v constant span.start

/-- The value of the last statement, or `last` if there is none. -/
def evalBody (settings : Settings) (scope : ScopeId) :
    (index : Nat) → (last : Value) → List Statement → Eval Value
  | _, last, [] => pure last
  | index, _, s :: rest => do
    match s.kind? with
    | none => Eval.defect .absentStatement
    | some kind =>
      modify fun m => { m with log := m.log ++ [⟨index, kind, s.span.start⟩] }
      let v ← evalStatement settings scope s
      evalBody settings scope (index + 1) v rest

/-- The value of a program. -/
def evalProgram (settings : Settings) (scope : ScopeId) (p : Program) : Eval Value := do
  Eval.visit settings p.span.start
  evalBody settings scope 0 .null p.body

/-- The value of any part of a tree. -/
def evalNode (settings : Settings) (scope : ScopeId) : Node → Eval Value
  | .program p => evalProgram settings scope p
  | .statement s => evalStatement settings scope s
  | .property p => do
    Eval.visit settings p.span.start
    Eval.fail (.notEvaluable .property) p.span.start

end Scriptorium
