/-
  Scriptorium.Cli.Command: what the program does with its arguments.

  A command runs a script, lists its tokens or its tree, shows help or the version, or
  starts a conversation at the prompt.  A script and a conversation run under the
  manifest that a flag names, or else under the nearest one.
-/

import Scriptorium.Cli.Flags
import Scriptorium.Cli.Prompt
import Scriptorium.Manifest.Session
import Scriptorium.Script
import Scriptorium.Tree.Dump

namespace Scriptorium.Cli

/-- What the program finds when it starts. -/
structure Host (m : Type → Type) where
  files : Files m
  cwd : Path
  /-- Whether a debug log is asked for from outside. -/
  debug : Bool
  /-- How manifests are read from their files. -/
  decode : Manifest.Decoder
  /-- What scripts are given from outside of the language. -/
  outside : Outside

/-- What the program does before it would read input. -/
inductive Start where
  /-- It is done. -/
  | done (o : Outcome)
  /-- It begins a conversation, after writing to its two outputs. -/
  | prompt (out err : Text) (verbose : Bool) (i : Interpreter)

/-- A failure that is told on the error output. -/
def Outcome.failure (code : Nat) (message : Text) : Outcome := ⟨code, [], message ++ "\n"⟩

section Commands

variable {m : Type → Type} [Monad m]

/-! ## Sessions under a manifest -/

/-- The manifest that a flag names, or else the nearest one, if there is one. -/
def chooseManifest (host : Host m) (named : Text) (dir : Path) :
    m (Except ManifestError (Option Manifest)) := do
  if !named.isEmpty then return (← Manifest.load host.files host.decode host.cwd named).map some
  else
    match ← Manifest.find host.files dir with
    | .error e => return .error e
    | .ok none => return .ok none
    | .ok (some path) => return (← Manifest.loadAt host.files host.decode path).map some

/-- The report about a manifest that cannot be used. -/
def manifestFailure (e : ManifestError) : Outcome :=
  .failure 1 ("failed to load manifest: " ++ e.text)

/-- Opens a session and runs its prelude.  Gives what was written, and the session
    unless the prelude failed. -/
def openSession (host : Host m) (verbose : Bool) (manifest : Option Manifest) :
    m (Outcome × Option Interpreter) := do
  let intro : Text := match manifest with
    | none => []
    | some x => Log.debug "using manifest" [("path", x.path.text), ("name", x.name)]
  let prelude := (manifest.map (·.prelude)).getD []
  let restrictions := (manifest.map (·.restrictions)).getD []
  let fresh := Manifest.sessionUnder .collect host.outside restrictions
  let (result, i, trace) ← runPrelude host.files host.cwd .empty fresh (prelude.map Path.text)
  let err := logged verbose (intro ++ Log.statements trace.log)
  match result with
  | .ok () => return (⟨0, trace.printed, err⟩, some i)
  | .error e => return ((Outcome.failure 1 e.text).after trace.printed err, none)

/-! ## Running scripts -/

/-- Runs a script in a session and shows its value, unless it is null. -/
def runScript (verbose : Bool) (script : Script) (i : Interpreter) : Outcome :=
  let (result, after) := script.evaluate i
  let err := logged verbose
    (Log.debug "running script" [("path", script.path.text)] ++ Log.statements after.machine.log)
  match result with
  | .error stop => (Outcome.failure 1 (script.name ++ ": " ++ stop.text)).after after.printed err
  | .ok v =>
    let shown : Text := if v.kind? after.machine.heap = some .null then [] else after.text v ++ "\n"
    ⟨0, after.printed ++ shown, err⟩

/-- Runs the script that is named, or else the entry of the manifest. -/
def runNamed (host : Host m) (flags : Flags) (verbose : Bool) (file : Option Text) :
    m Outcome := do
  let dir := host.cwd.resolve (Path.directoryPart (file.getD []))
  match ← chooseManifest host flags.manifest dir with
  | .error e => return manifestFailure e
  | .ok manifest =>
    match file.or ((manifest.bind (·.entry)).map Path.text) with
    | none =>
      return .failure 2 "quill run requires a source file or a manifest with an entry"
    | some entry =>
      match ← openSession host verbose manifest with
      | (opened, none) => return opened
      | (opened, some i) =>
        match ← Script.load host.files host.cwd entry with
        | .error u => return (Outcome.failure 1 u.text).after opened.out opened.err
        | .ok script => return (runScript verbose script i).after opened.out opened.err

/-- Runs at most one script. -/
def runEntry (host : Host m) (flags : Flags) (verbose : Bool) : List Text → m Outcome
  | [] => runNamed host flags verbose none
  | [file] => runNamed host flags verbose (some file)
  | _ :: extra => pure (.failure 2 ("unexpected arguments: " ++ Text.join " " extra))

/-! ## Showing scripts -/

/-- The tree of a script as JSON. -/
def showTree (script : Script) : Outcome :=
  match Program.parse script.content with
  | .error e => .failure 1 (script.name ++ ": " ++ e.text)
  | .ok program =>
    match program.dump.encodeIndented with
    | .ok t => ⟨0, t ++ "\n", []⟩
    | .error x => .failure 1 ("encode: " ++ Json.unwritableMessage x)

/-- The tokens of a script, one per line behind their places. -/
def showTokens (script : Script) : Outcome :=
  match tokenize script.content with
  | .error e => .failure 1 (script.name ++ ": " ++ e.text)
  | .ok tokens => ⟨0, tokens.flatMap fun t => t.pos.text ++ "\t" ++ t.text ++ "\n", []⟩

/-- Shows the one script that is named. -/
def showScript (host : Host m) (command : Text) (view : Script → Outcome) :
    List Text → m Outcome
  | [file] => do
    match ← Script.load host.files host.cwd file with
    | .error u => return .failure 1 u.text
    | .ok script => return view script
  | _ => pure (.failure 2 ("quill " ++ command ++ " requires exactly one source file"))

/-! ## The program -/

/-- Begins a conversation at the prompt. -/
def startPrompt (host : Host m) (flags : Flags) (verbose : Bool) : m Start := do
  match ← chooseManifest host flags.manifest host.cwd with
  | .error e => return .done (manifestFailure e)
  | .ok manifest =>
    match ← openSession host verbose manifest with
    | (opened, none) => return .done opened
    | (opened, some i) => return .prompt (opened.out ++ Prompt.greeting) opened.err verbose i

/-- Follows the arguments after the flags. -/
def follow (host : Host m) (flags : Flags) (arguments : List Text) : m Start := do
  let verbose := flags.verbose || host.debug
  match arguments with
  | [] => startPrompt host flags verbose
  | first :: rest =>
    if first = Text.ofString "help" then return .done ⟨0, [], usage⟩
    else if first = Text.ofString "version" then return .done ⟨0, version ++ "\n", []⟩
    else if first = Text.ofString "repl" then startPrompt host flags verbose
    else if first = Text.ofString "run" then return .done (← runEntry host flags verbose rest)
    else if first = Text.ofString "ast" then return .done (← showScript host first showTree rest)
    else if first = Text.ofString "tokens" then
      return .done (← showScript host first showTokens rest)
    else return .done (← runEntry host flags verbose arguments)

/-- Follows the arguments of the program. -/
def start (host : Host m) (arguments : List Text) : m Start :=
  match Flags.none.parse arguments with
  | .error .help => pure (.done ⟨0, [], usage⟩)
  | .error e => pure (.done ⟨2, [], e.text ++ usage⟩)
  | .ok (flags, rest) =>
    if flags.version then pure (.done ⟨0, version ++ "\n", []⟩) else follow host flags rest

/-- A whole run on given input lines and a given history.  The history is given back
    if there was a conversation. -/
def run (host : Host m) (arguments : List Text) (input : List Text) (ending : Prompt.Ending)
    (h : History) : m (Outcome × Option History) := do
  match ← start host arguments with
  | .done o => return (o, none)
  | .prompt out err verbose i =>
    let (o, h) := Prompt.converse verbose ending (.begin i) h input
    return (o.after out err, some h)

end Commands

end Scriptorium.Cli
