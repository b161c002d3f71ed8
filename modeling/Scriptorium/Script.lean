/-
  Scriptorium.Script: script files.

  A script is read whole and evaluated in the global scope of a session.  The scripts
  of a prelude run one after the other up to the first that fails, and what they
  printed and logged is kept together.
-/

import Scriptorium.Files
import Scriptorium.Interpreter

namespace Scriptorium

/-- A script that was read from a file. -/
structure Script where
  /-- The last name of its path. -/
  name : Text
  path : Path
  content : Text
deriving DecidableEq, Repr

/-- A script that cannot be read, as it was asked for. -/
structure UnreadableScript where
  asked : Text
  path : Path
  error : FileError
deriving DecidableEq, Repr

/-- What is said about a script that cannot be read. -/
def UnreadableScript.text (u : UnreadableScript) : Text :=
  "source: read " ++ u.asked ++ ": " ++ u.error.reading u.path

namespace Script

variable {m : Type → Type} [Monad m]

/-- Reads a script by a text that is taken from the directory `cwd`. -/
def load (files : Files m) (cwd : Path) (t : Text) : m (Except UnreadableScript Script) := do
  let path := cwd.resolve t
  match ← files.read path with
  | .ok content => return .ok ⟨path.base, path, content⟩
  | .error e => return .error ⟨t, path, e⟩

/-- Evaluates a script in the global scope. -/
def evaluate (s : Script) (i : Interpreter) : Except Stop Value × Interpreter :=
  i.evaluateSource i.global s.content

end Script

/-! ## Preludes -/

/-- Why a prelude stopped. -/
inductive PreludeError where
  | unreadable (u : UnreadableScript)
  /-- A script stopped. -/
  | stopped (script : Text) (stop : Stop)
deriving DecidableEq, Repr

/-- What is said about a prelude that stopped. -/
def PreludeError.text : PreludeError → Text
  | .unreadable u => u.text
  | .stopped script stop => "prelude " ++ script ++ ": " ++ stop.text

/-- What several evaluations printed and logged. -/
structure Trace where
  printed : Text
  log : List Begun

/-- A trace of nothing. -/
def Trace.empty : Trace := ⟨[], []⟩

/-- A trace continued by the last evaluation of a session. -/
def Trace.after (t : Trace) (i : Interpreter) : Trace :=
  ⟨t.printed ++ i.printed, t.log ++ i.machine.log⟩

/-- Runs scripts in order, up to the first that cannot be read or stops. -/
def runPrelude {m : Type → Type} [Monad m] (files : Files m) (cwd : Path) :
    Trace → Interpreter → List Text → m (Except PreludeError Unit × Interpreter × Trace)
  | trace, i, [] => pure (.ok (), i, trace)
  | trace, i, t :: rest => do
    match ← Script.load files cwd t with
    | .error u => return (.error (.unreadable u), i, trace)
    | .ok script =>
      match script.evaluate i with
      | (.ok _, after) => runPrelude files cwd (trace.after after) after rest
      | (.error stop, after) =>
        return (.error (.stopped script.name stop), after, trace.after after)

end Scriptorium
