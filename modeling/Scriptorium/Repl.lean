/-
  Scriptorium.Repl: lines typed at the prompt.

  A line is a command, a request to leave or a script that is evaluated in the
  global scope.  White space around it does not matter, and a blank line does
  nothing.  All scripts are read by the one parser of the session.
-/

import Scriptorium.Interpreter
import Scriptorium.Text.Blank

namespace Scriptorium.Repl

/-- A session at the prompt. -/
structure Session where
  interpreter : Interpreter
  /-- Reads one line after the other. -/
  parser : Parser

/-- A session that begins with an interpreter. -/
def Session.begin (i : Interpreter) : Session := ⟨i, .new⟩

/-- What a typed line leads to. -/
structure Reply where
  /-- Whether the session ends. -/
  leaves : Bool
  out : Text
  err : Text
deriving DecidableEq, Repr

/-- A reply that says nothing. -/
def Reply.silent : Reply := ⟨false, [], []⟩

/-- What a line asks for. -/
inductive Request where
  /-- Nothing. -/
  | blank
  /-- The end of the session. -/
  | leave
  /-- A command, beginning with a colon. -/
  | command (code : Text)
  /-- The evaluation of a script. -/
  | script (code : Text)
deriving DecidableEq, Repr

/-- Reads a line. -/
def Request.ofLine (line : Text) : Request :=
  let code := line.trim
  if code.isEmpty then .blank
  else if code = Text.ofString "exit" || code = Text.ofString ":quit" then .leave
  else if code.startsWith ":" then .command code
  else .script code

/-- One line of the listing of a scope. -/
def bindingLine (i : Interpreter) (name : Text) : Text :=
  let scopes := i.machine.scopes
  let value := ((scopes.names i.global).values.get? name).getD default
  (if scopes.isConstant i.global name then Text.ofString "const " else Text.ofString "let ") ++
    name ++ " = " ++ i.text value ++ "\n"

/-- The answer to a command, in which case does not matter. -/
def answer (i : Interpreter) (code : Text) : Text :=
  let lower := code.lowerAscii
  if lower = Text.ofString ":env" then
    (i.machine.scopes.sortedNames i.global).flatMap (bindingLine i)
  else if lower = Text.ofString ":help" then
    "commands: :env lists bindings, :quit or exit leaves\n"
  else "unknown command " ++ code ++ ". Type :help for a list.\n"

/-- What is said about an evaluation: what was printed and the value, or what it stopped
    for. -/
def report (run : Except Stop Value × Interpreter) : Reply :=
  match run.1 with
  | .ok v => ⟨false, run.2.printed ++ run.2.text v ++ "\n", []⟩
  | .error stop => ⟨false, run.2.printed, "<repl>: " ++ stop.text ++ "\n"⟩

/-- The reply to a script, which is evaluated if it can be read. -/
def evaluate (s : Session) (code : Text) : Reply × Session :=
  let (result, parser) := s.parser.produce code
  match result with
  | .error e => (⟨false, [], "<repl>: " ++ e.text ++ "\n"⟩, { s with parser })
  | .ok p =>
    let run := s.interpreter.evaluate s.interpreter.global (.program p)
    (report run, ⟨run.2, parser⟩)

/-- Handles a line. -/
def handle (s : Session) (line : Text) : Reply × Session :=
  match Request.ofLine line with
  | .blank => (.silent, s)
  | .leave => ({ Reply.silent with leaves := true }, s)
  | .command code => (⟨false, answer s.interpreter code, []⟩, s)
  | .script code => evaluate s code

/-- Handles lines one after the other, also past the end of the session. -/
def handleAll : Session → List Text → List Reply
  | _, [] => []
  | s, line :: rest =>
    let (reply, after) := handle s line
    reply :: handleAll after rest

end Scriptorium.Repl
