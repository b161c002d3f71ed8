/-
  Scriptorium.Cli.Prompt: a conversation at the prompt.

  Before each line is read the prompt is shown.  Lines are answered one after the
  other until one asks to leave, the input ends or it cannot be read any more.
-/

import Scriptorium.Cli.History
import Scriptorium.Log
import Scriptorium.Repl

namespace Scriptorium.Cli

/-- The version of the program. -/
def version : Text := "quill 0.1.0"

/-- What a program leaves behind. -/
structure Outcome where
  /-- The exit code. -/
  code : Nat
  out : Text
  err : Text
deriving DecidableEq, Repr

/-- What is written first stands in front. -/
def Outcome.after (o : Outcome) (out err : Text) : Outcome :=
  { o with out := out ++ o.out, err := err ++ o.err }

/-- Log lines, which only a verbose program writes. -/
def logged (verbose : Bool) (t : Text) : Text := if verbose then t else []

namespace Prompt

/-- What stands before each line. -/
def sign : Text := ">>> "

/-- What a conversation begins with. -/
def greeting : Text := version ++ " (type exit or :quit to leave)\n"

/-- How input ends. -/
inductive Ending where
  | endOfInput
  /-- It cannot be read. -/
  | failed (reason : Text)
deriving DecidableEq, Repr

/-- What the program leaves behind when the input ends. -/
def Ending.outcome : Ending → Outcome
  | .endOfInput => ⟨0, "\n", []⟩
  | .failed reason => ⟨1, [], "read: " ++ reason ++ "\n"⟩

/-- The reply to a line, after the log of its evaluation. -/
def answer (verbose : Bool) (s : Repl.Session) (line : Text) : Repl.Reply × Repl.Session :=
  let i := s.interpreter
  let quiet := { i with machine := { i.machine with log := [] } }
  let (reply, after) := Repl.handle { s with interpreter := quiet } line
  let log := Log.statements after.interpreter.machine.log
  ({ reply with err := logged verbose log ++ reply.err }, after)

/-- A conversation: what it leaves behind and the history after it. -/
def converse (verbose : Bool) (ending : Ending) :
    Repl.Session → History → List Text → Outcome × History
  | _, h, [] => (ending.outcome.after sign [], h)
  | s, h, line :: rest =>
    let (reply, after) := answer verbose s line
    if reply.leaves then (⟨0, sign ++ reply.out, reply.err⟩, h.note line)
    else
      let (o, h) := converse verbose ending after (h.note line) rest
      (o.after (sign ++ reply.out) reply.err, h)

end Prompt

end Scriptorium.Cli
