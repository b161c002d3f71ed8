/-
  Scriptorium.Main: the program on a real machine.

  Everything that is decided is decided in the other modules.  Here their questions
  are passed on to the file system, and what they say is written out.
-/

import Scriptorium.Cli.Command
import Scriptorium.Number.Locale
import Scriptorium.Yaml.Draft
import Std.Time.DateTime.Timestamp

namespace Scriptorium.Main

open Cli

/-! ## Files -/

/-- What a failed system call means. -/
def fileError : IO.Error → FileError
  | .noFileOrDirectory .. => .missing
  | .inappropriateType _ code details =>
    if code = 20 then .notDirectory else if code = 21 then .isDirectory else .other details
  | .invalidArgument _ code details => if code = 36 then .nameTooLong else .other details
  | e => .other (toString e)

/-- Opens the file at a path and does something with it. -/
def withFile {α : Type} (p : Path) (use : IO.FS.Handle → IO α) : IO (Except FileError α) := do
  if p.names.any (·.contains 0) then return .error .invalidName
  match p.text.toString? with
  | none => return .error .missing
  | some name =>
    try return .ok (← IO.FS.withFile name .read use)
    catch e => return .error (fileError e)

/-- The file system of the machine. -/
def files : Files IO where
  stat p := do
    match ← withFile p (·.read 1) with
    | .ok _ => return .ok .file
    | .error .isDirectory => return .ok .directory
    | .error e => return .error e
  read p := withFile p fun h => do return (← h.readBinToEnd).toList

/-! ## Input and output -/

/-- Writes a text. -/
def write (stream : IO.FS.Stream) (t : Text) : IO Unit := do
  stream.write ⟨t.toArray⟩
  stream.flush

/-- The time in milliseconds. -/
def now : IO Float := do
  return Float.ofInt (← Std.Time.Timestamp.now).toMillisecondsSinceUnixEpoch.val

/-- What scripts are given at a time.  There are no functions but those of the language. -/
def outside (time : Float) : Outside :=
  { Outside.bare with
    clock := fun _ => time
    locale := fun name => (Number.Locale.find? name).map Number.Locale.format }

/-- Reads on until a line is complete, the limit is reached or the input ends. -/
def readLine (input : IO.FS.Stream) (pending : Text) : IO Text := do
  let mut bytes := pending.toArray
  while bytes.size < lineLimit && bytes.back? ≠ some 0x0A do
    let chunk ← input.read 1
    if chunk.isEmpty then break
    bytes := bytes ++ chunk.data
  return bytes.toList

/-- The next line of the input and what was read beyond it, or how the input ends. -/
def nextLine (input : IO.FS.Stream) (pending : Text) :
    IO (Except Prompt.Ending (Text × Text)) := do
  try
    match Cli.nextLine? (← readLine input pending) with
    | some (line, rest) => return .ok (line.text, rest)
    | none => return .error .endOfInput
  catch e => return .error (.failed ("read /dev/stdin: " ++ (fileError e).message))

/-- Holds a conversation.  Gives the exit code and the history after it. -/
def converse (verbose : Bool) (first : Interpreter) (before : History) :
    IO (Nat × History) := do
  let input ← IO.getStdin
  let out ← IO.getStdout
  let err ← IO.getStderr
  let mut session := Repl.Session.begin first
  let mut history := before
  let mut pending : Text := []
  repeat
    write out Prompt.sign
    match ← nextLine input pending with
    | .error ending =>
      write out ending.outcome.out
      write err ending.outcome.err
      return (ending.outcome.code, history)
    | .ok (line, rest) =>
      history := history.note line
      let i := session.interpreter
      let timed := { i with settings := { i.settings with outside := outside (← now) } }
      let (reply, after) := Prompt.answer verbose { session with interpreter := timed } line
      write out reply.out
      write err reply.err
      if reply.leaves then return (0, history)
      session := after
      pending := rest
  return (0, history)

/-- The file that keeps the history. -/
def historyName : IO (Option String) := do
  match ← IO.getEnv "HOME" with
  | none => return none
  | some home => return if home.isEmpty then none else some (home ++ "/.quill_history")

/-- Holds a conversation with the history of earlier ones. -/
def converseWithHistory (verbose : Bool) (i : Interpreter) : IO Nat := do
  match ← historyName with
  | none => return (← converse verbose i []).1
  | some name =>
    let before : Text ←
      try pure (← IO.FS.withFile name .read (·.readBinToEnd)).toList
      catch _ => pure []
    let (code, history) ← converse verbose i (History.ofText before)
    try IO.FS.writeBinFile name ⟨history.text.toArray⟩
    catch _ => pure ()
    return code

end Scriptorium.Main

open Scriptorium in
/-- Runs the program on its arguments. -/
def main (arguments : List String) : IO UInt32 := do
  let cwd := Path.resolve ⟨[]⟩ (Text.ofString (← IO.currentDir).toString)
  let debug := ((← IO.getEnv "QUILL_DEBUG").getD "") ≠ ""
  let host : Cli.Host IO :=
    ⟨Main.files, cwd, debug, Yaml.decode, Main.outside (← Main.now)⟩
  let out ← IO.getStdout
  let err ← IO.getStderr
  match ← Cli.start host (arguments.map Text.ofString) with
  | .done o =>
    Main.write out o.out
    Main.write err o.err
    return o.code.toUInt32
  | .prompt written noted verbose i =>
    Main.write out written
    Main.write err noted
    return (← Main.converseWithHistory verbose i).toUInt32
