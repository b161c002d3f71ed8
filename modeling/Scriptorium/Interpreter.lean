/-
  Scriptorium.Interpreter: a script session.

  An interpreter holds the state between evaluations: the heap, the scopes, the
  readings of the clock, what was printed, and the global scope.  Each evaluation
  counts its steps, and collects what it prints and logs, from the beginning.
-/

import Scriptorium.Eval.Basic
import Scriptorium.Tree.Parser

namespace Scriptorium

/-- The state with nothing printed or logged since. -/
def Machine.hushed (m : Machine) : Machine :=
  { m with earlier := m.earlier ++ m.output, output := [], log := [] }

/-- A session in which scripts are evaluated. -/
structure Interpreter where
  settings : Settings
  /-- The native functions that scripts are restricted to, by name; all of them if
      empty. -/
  allowed : List Text
  machine : Machine
  /-- The scope that scripts run in. -/
  global : ScopeId

namespace Interpreter

/-- The names of a global scope with the allowed native functions. -/
def globalNames (allowed : List Text) : Names :=
  match Forest.globalNames (Native.select allowed) with
  | .ok names => names
  | .error _ => .empty

/-- A new session. -/
def new (settings : Settings) (allowed : List Text) : Interpreter :=
  let (global, scopes) := Forest.empty.add (globalNames allowed) none
  ⟨settings, allowed, { (default : Machine) with scopes }, global⟩

/-- Adds another global scope like the session's own. -/
def freshScope (i : Interpreter) : ScopeId × Interpreter :=
  let (scope, scopes) := i.machine.scopes.add (globalNames i.allowed) none
  (scope, { i with machine := { i.machine with scopes } })

/-- The state in which the next evaluation begins.  Heap, scopes and clock go on; counter,
    output and log begin again. -/
def start (i : Interpreter) : Machine := { i.machine.hushed with steps := 0 }

/-- Evaluates a tree in a scope.  Effects stay, also those before a stop. -/
def evaluate (i : Interpreter) (scope : ScopeId) (n : Node) : Except Stop Value × Interpreter :=
  match (evalNode i.settings scope n).run i.start with
  | .ok v m => (.ok v, { i with machine := m })
  | .error stop m => (.error stop, { i with machine := m })

/-- Evaluates a script in a scope. -/
def evaluateSource (i : Interpreter) (scope : ScopeId) (source : Text) :
    Except Stop Value × Interpreter :=
  match Program.parse source with
  | .ok p => i.evaluate scope (.program p)
  | .error e => (.error (.error e), { i with machine := i.machine.hushed })

/-- What the last evaluation printed. -/
def printed (i : Interpreter) : Text := i.machine.output

/-- The text of a value of this session. -/
def text (i : Interpreter) (v : Value) : Text := i.machine.heap.text v

end Interpreter

/-- What is said about a stop. -/
def Stop.text : Stop → Text
  | .error e => e.text
  | .outside message => message
  | .defect _ => "internal defect"

end Scriptorium
