/-
  Scriptorium.Eval.Machine: the state of a running script.

  Evaluation reads and changes one state: the heap, the scopes, a step counter, how
  often the clock was read, what was printed and what was logged.  It ends with a value
  or stops; whatever happened before a stop stays.  What lies outside of the language,
  the clock, the locales and the functions of the host, is given to it.
-/

import Scriptorium.Scope
import Scriptorium.Value.Heap

namespace Scriptorium

/-- A tree or a host value with a hole where a program part or a value is taken for
    granted. -/
inductive Defect where
  /-- An absent statement of a program. -/
  | absentStatement
  /-- An absent target of an assignment. -/
  | absentTarget
  /-- An absent name after a dot. -/
  | absentName
  /-- A missing value whose kind is asked for. -/
  | absentValue
  /-- A native function that misses an argument. -/
  | absentArgument
deriving DecidableEq, Repr

/-- Why evaluation stopped without a value. -/
inductive Stop where
  /-- A script error. -/
  | error (e : Error)
  /-- A failure of a host function that is no script error. -/
  | outside (message : Text)
  /-- A defect that evaluation cannot report as an error. -/
  | defect (d : Defect)
deriving DecidableEq, Repr

/-- A top-level statement that was begun. -/
structure Begun where
  index : Nat
  kind : NodeKind
  pos : Position
deriving DecidableEq, Repr

/-- The state of a running script. -/
structure Machine where
  heap : Heap
  scopes : Forest
  /-- The parts of the program visited so far. -/
  steps : Nat
  /-- How often the clock was read, by earlier evaluations as well. -/
  readings : Nat
  /-- What earlier evaluations printed. -/
  earlier : Text
  /-- What was printed. -/
  output : Text
  /-- The top-level statements begun, in order. -/
  log : List Begun

instance : Inhabited Machine := ⟨⟨.empty, .empty, 0, 0, [], [], []⟩⟩

/-- Where printed text goes: for what was kept before and the text to write, what is
    kept of it and, if the write fails, the reason. -/
structure Sink where
  answer : (before text : Text) → Text × Option Text

namespace Sink

/-- Everything is kept. -/
def collect : Sink := ⟨fun _ t => (t, none)⟩

/-- Everything is dropped. -/
def discard : Sink := ⟨fun _ _ => ([], none)⟩

/-- Every write fails. -/
def refuse (reason : Text) : Sink := ⟨fun _ _ => ([], some reason)⟩

end Sink

/-- A computation on the state that gives a value or stops. -/
abbrev Eval := EStateM Stop Machine

/-- A function of the host, called from a scope with arguments.  It may do anything. -/
abbrev HostFunction := ScopeId → List Value → Eval Value

/-- What lies outside of the language. -/
structure Outside where
  /-- The time, at each reading of the clock. -/
  clock : Nat → Float
  /-- How the readers of a language write numbers; none if the language is unknown. -/
  locale : Text → Option (Float → Text)
  /-- The functions of the host, by their numbers. -/
  functions : Nat → HostFunction

/-- Nothing outside: time stands still, no language is known, and the functions of the
    host fail. -/
def Outside.bare : Outside where
  clock _ := 0
  locale _ := none
  functions _ _ _ := throw (.outside "no such function")

/-- What a run is allowed and given. -/
structure Settings where
  /-- The most parts of a program one evaluation may visit; no limit unless
      positive. -/
  stepLimit : Int
  sink : Sink
  outside : Outside

namespace Eval

/-- Stops with an error at a place. -/
def fail {α : Type} (cause : Cause) (pos : Position) : Eval α := throw (.error ⟨cause, pos⟩)

/-- Stops with a defect. -/
def defect {α : Type} (d : Defect) : Eval α := throw (.defect d)

/-- Goes on with a result; an error without a place receives `pos`. -/
def located {α : Type} (pos : Position) : Except Error α → Eval α
  | .ok a => pure a
  | .error e => throw (.error (e.locate pos))

/-- Gives a place to the error that a computation stops with, if it has none. -/
def blaming {α : Type} (pos : Position) (x : Eval α) : Eval α := fun m =>
  match x m with
  | .ok a m => .ok a m
  | .error (.error e) m => .error (.error (e.locate pos)) m
  | .error stop m => .error stop m

/-- Counts one more visited part and stops if there are too many. -/
def visit (settings : Settings) (pos : Position) : Eval Unit := do
  modify fun m => { m with steps := m.steps + 1 }
  let m ← get
  if 0 < settings.stepLimit ∧ settings.stepLimit < m.steps then
    fail (.stepLimit settings.stepLimit) pos

/-- A new container. -/
def alloc (c : Container) : Eval Value := do
  let m ← get
  let (a, heap) := m.heap.alloc c
  set { m with heap }
  return .ref a

/-- The kind of a value. -/
def kindOf (v : Value) : Eval Kind := do
  match v.kind? (← get).heap with
  | some kind => return kind
  | none => defect .absentValue

/-- Prints a text. -/
def write (sink : Sink) (t : Text) : Eval Unit := do
  let m ← get
  let (kept, failure) := sink.answer (m.earlier ++ m.output) t
  set { m with output := m.output ++ kept }
  match failure with
  | none => pure ()
  | some reason => fail (.printFailed reason) .unknown

/-- The time at this reading of the clock. -/
def readClock (clock : Nat → Float) : Eval Float := do
  let m ← get
  set { m with readings := m.readings + 1 }
  return clock m.readings

/-- The value of a name. -/
def lookup (scope : ScopeId) (name : Text) (pos : Position) : Eval Value := do
  located pos ((← get).scopes.lookup scope name)

/-- Binds a name and gives the value back. -/
def declare (scope : ScopeId) (name : Text) (value : Value) (constant : Bool) (pos : Position) :
    Eval Value := do
  let scopes ← located pos ((← get).scopes.declare scope name value constant)
  modify fun m => { m with scopes }
  return value

/-- Replaces the value of a name and gives it back. -/
def assign (scope : ScopeId) (name : Text) (value : Value) (pos : Position) : Eval Value := do
  let scopes ← located pos ((← get).scopes.assign scope name value)
  modify fun m => { m with scopes }
  return value

end Eval

end Scriptorium
