/-
  Scriptorium.Manifest.Basic: project files, and what must hold of them.

  A manifest names a project, its entry script, the scripts to run before it, the
  native functions that scripts may use and a limit on their steps.  Paths are taken
  from the directory of the manifest.  Everything that is wrong with a manifest is
  reported together: the name, the entry, the scripts before it in order, the native
  functions in order, the limit.
-/

import Scriptorium.Eval.Native
import Scriptorium.Files
import Scriptorium.Manifest.Draft
import Scriptorium.Text.Blank
import Scriptorium.Text.Quoted

namespace Scriptorium

/-- A project file. -/
structure Manifest where
  path : Path
  name : Text
  entry : Option Path
  /-- Scripts to run before others, in order. -/
  prelude : List Path
  /-- The native functions that scripts are restricted to; all of them if empty. -/
  natives : List Text
  /-- The most steps of one evaluation; no limit unless positive. -/
  steps : Int
deriving DecidableEq, Repr

namespace Manifest

/-- The name of project files. -/
def fileName : Text := "quill.yml"

/-- The directory of a manifest. -/
def dir (m : Manifest) : Path := m.path.parent

/-- The texts that are not blank, without white space around them. -/
def trimmed (l : List Text) : List Text := (l.map Text.trim).filter fun t => !t.isEmpty

/-- The manifest that a draft found at `path` stands for. -/
def ofDraft (path : Path) (d : Draft) : Manifest where
  path := path
  name := d.name.trim
  entry := if d.entry.trim.isEmpty then none else some (path.parent.resolve d.entry.trim)
  prelude := (trimmed d.prelude).map path.parent.resolve
  natives := trimmed d.natives
  steps := d.steps

/-! ## Issues -/

/-- The field that names a script. -/
inductive ScriptField where
  | entry
  | prelude (index : Nat)
deriving DecidableEq, Repr

/-- The name of a field in an issue. -/
def ScriptField.text : ScriptField → Text
  | .entry => "entry"
  | .prelude index => "prelude[" ++ Text.ofNat index ++ "]"

/-- Something that is wrong with a manifest. -/
inductive Issue where
  | nameMissing
  | nameMalformed (name : Text)
  | scriptMissing (field : ScriptField) (path : Path)
  | scriptDirectory (field : ScriptField) (path : Path)
  | scriptUnreachable (field : ScriptField) (path : Path) (e : FileError)
  | nativeUnknown (name : Text)
  | nativeRepeated (name : Text)
  | stepsNegative (steps : Int)
deriving DecidableEq, Repr

/-- The wording of an issue. -/
def Issue.text : Issue → Text
  | .nameMissing => "name must be provided"
  | .nameMalformed name =>
    "name " ++ name.quote ++
      " must start with a letter or underscore and contain only letters, digits, '_' or '-'"
  | .scriptMissing field path => field.text ++ ": " ++ path.text ++ " does not exist"
  | .scriptDirectory field path => field.text ++ ": " ++ path.text ++ " is a directory"
  | .scriptUnreachable field path e => field.text ++ ": " ++ e.asking path
  | .nativeUnknown name => "natives: unknown native function " ++ name.quote
  | .nativeRepeated name => "natives: " ++ name.quote ++ " listed twice"
  | .stepsNegative steps => "limits.steps must not be negative (got " ++ Text.ofInt steps ++ ")"

/-- Whether a byte is an ASCII letter or an underscore. -/
def isNameStart (b : UInt8) : Bool :=
  (0x41 ≤ b && b ≤ 0x5A) || (0x61 ≤ b && b ≤ 0x7A) || b = 0x5F

/-- Whether a byte may continue a name. -/
def isNamePart (b : UInt8) : Bool := isNameStart b || (0x30 ≤ b && b ≤ 0x39) || b = 0x2D

/-- Whether a project may have this name. -/
def isName : Text → Bool
  | [] => false
  | b :: rest => isNameStart b && rest.all isNamePart

/-- What is wrong with the name. -/
def nameIssues (name : Text) : List Issue :=
  if name.isEmpty then [.nameMissing]
  else if isName name then []
  else [.nameMalformed name]

/-- What is wrong with a script, given what was found at its path. -/
def scriptIssues (field : ScriptField) (path : Path) : Except FileError Presence → List Issue
  | .ok .file => []
  | .ok .directory => [.scriptDirectory field path]
  | .error .missing => [.scriptMissing field path]
  | .error e => [.scriptUnreachable field path e]

/-- What is wrong with the native functions after those in `seen`. -/
def nativeIssues (seen : List Text) : List Text → List Issue
  | [] => []
  | name :: rest =>
    (if Native.isKnown name then [] else [.nativeUnknown name]) ++
      (if seen.contains name then [.nativeRepeated name] else []) ++
      nativeIssues (name :: seen) rest

/-- What is wrong with the limit. -/
def stepsIssues (steps : Int) : List Issue := if steps < 0 then [.stepsNegative steps] else []

section Questions

variable {m : Type → Type} [Monad m]

/-- What is wrong with a script. -/
def checkScript (files : Files m) (field : ScriptField) (path : Path) : m (List Issue) := do
  return scriptIssues field path (← files.stat path)

/-- What is wrong with the scripts from number `index` on. -/
def checkPrelude (files : Files m) : (index : Nat) → List Path → m (List Issue)
  | _, [] => pure []
  | index, path :: rest => do
    let here ← checkScript files (.prelude index) path
    return here ++ (← checkPrelude files (index + 1) rest)

/-- Everything that is wrong with a manifest, in order. -/
def issues (files : Files m) (manifest : Manifest) : m (List Issue) := do
  let entry ← match manifest.entry with
    | some path => checkScript files .entry path
    | none => pure []
  let prelude ← checkPrelude files 0 manifest.prelude
  return nameIssues manifest.name ++ entry ++ prelude ++ nativeIssues [] manifest.natives ++
    stepsIssues manifest.steps

end Questions

end Manifest

/-- Why there is no manifest to use. -/
inductive ManifestError where
  /-- No path was given. -/
  | emptyPath
  /-- The file cannot be read. -/
  | unreadable (path : Path) (e : FileError)
  /-- Nothing is stated in the file. -/
  | empty (path : Path)
  /-- The file gives no draft. -/
  | unfit (path : Path) (message : Text)
  /-- The manifest is not valid. -/
  | invalid (issues : List Manifest.Issue)
  /-- A place where a manifest may be cannot be asked about. -/
  | unsearchable (path : Path) (e : FileError)
deriving DecidableEq, Repr

namespace ManifestError

/-- The report about a manifest that is not valid. -/
def invalidText (issues : List Text) : Text :=
  if issues.isEmpty then "manifest: invalid configuration"
  else "manifest validation failed:\n- " ++ Text.join "\n- " issues

/-- What is said about a failure. -/
def text : ManifestError → Text
  | .emptyPath => "manifest: empty path"
  | .unreadable path .isDirectory =>
    "manifest: parse " ++ path.text ++ ": yaml: input error: " ++
      FileError.reading path .isDirectory
  | .unreadable path e => "manifest: open " ++ path.text ++ ": " ++ e.reading path
  | .empty path => "manifest: " ++ path.text ++ " is empty"
  | .unfit path message => "manifest: parse " ++ path.text ++ ": " ++ message
  | .invalid issues => invalidText (issues.map Manifest.Issue.text)
  | .unsearchable path e => "manifest: stat " ++ path.text ++ ": " ++ e.asking path

end ManifestError

namespace Manifest

variable {m : Type → Type} [Monad m]

/-! ## Loading and finding -/

/-- The manifest of a draft, unless something is wrong with it. -/
def check (files : Files m) (path : Path) (d : Draft) : m (Except ManifestError Manifest) := do
  let manifest := ofDraft path d
  let found ← manifest.issues files
  return if found.isEmpty then .ok manifest else .error (.invalid found)

/-- Loads the manifest at a path. -/
def loadAt (files : Files m) (decode : Decoder) (path : Path) :
    m (Except ManifestError Manifest) := do
  match ← files.read path with
  | .error e => return .error (.unreadable path e)
  | .ok content =>
    match decode content with
    | .error message => return .error (.unfit path message)
    | .ok none => return .error (.empty path)
    | .ok (some d) => check files path d

/-- Loads a manifest by a text that is taken from the directory `cwd`. -/
def load (files : Files m) (decode : Decoder) (cwd : Path) (t : Text) :
    m (Except ManifestError Manifest) :=
  if t.isEmpty then pure (.error .emptyPath) else loadAt files decode (cwd.resolve t)

/-- The nearest manifest in a directory or above it.  A directory of that name is passed
    over. -/
def find (files : Files m) (dir : Path) : m (Except ManifestError (Option Path)) := do
  let candidate := dir.child fileName
  match ← files.stat candidate with
  | .ok .file => return .ok (some candidate)
  | .ok .directory | .error .missing =>
    -- the search ends where a directory is its own parent
    if _h : dir.parent = dir then return .ok none else find files dir.parent
  | .error e => return .error (.unsearchable candidate e)
termination_by dir.names.length
decreasing_by all_goals exact Path.length_names_parent_lt _h

end Manifest

end Scriptorium
