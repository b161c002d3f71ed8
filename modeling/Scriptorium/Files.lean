/-
  Scriptorium.Files: what the program asks of a file system.

  Two questions are enough: what is at a path, and what a file holds.  Both may fail.
  The questions are asked in some monad, so that the same program runs on a real file
  system and on a tree of files in memory.
-/

import Scriptorium.Path

namespace Scriptorium

/-- Why a path cannot be used. -/
inductive FileError where
  | missing
  /-- A file stands where a directory is needed. -/
  | notDirectory
  /-- A directory stands where a file is needed. -/
  | isDirectory
  /-- A name that no file can have. -/
  | invalidName
  /-- A name or a path that is too long. -/
  | nameTooLong
  /-- Anything else. -/
  | other (message : String)
deriving DecidableEq, Repr

namespace FileError

/-- What is said about a failure. -/
def message : FileError → String
  | .missing => "no such file or directory"
  | .notDirectory => "not a directory"
  | .isDirectory => "is a directory"
  | .invalidName => "invalid argument"
  | .nameTooLong => "file name too long"
  | .other message => message

/-- A failed question about a path. -/
def asking (p : Path) (e : FileError) : Text := "stat " ++ p.text ++ ": " ++ e.message

/-- A failed reading of a path.  A directory can be opened and then not read. -/
def reading (p : Path) (e : FileError) : Text :=
  (if e = .isDirectory then Text.ofString "read " else Text.ofString "open ") ++
    p.text ++ ": " ++ e.message

end FileError

/-- What is at a path. -/
inductive Presence where
  | file
  | directory
deriving DecidableEq, Repr

/-- A file system. -/
structure Files (m : Type → Type) where
  stat : Path → m (Except FileError Presence)
  read : Path → m (Except FileError Text)

/-! ## Files in memory -/

/-- A file or a directory with its entries. -/
inductive FileTree where
  | file (content : Text)
  | directory (entries : List (Text × FileTree))

namespace FileTree

/-- A directory without entries. -/
def empty : FileTree := .directory []

/-- What is reached by following names. -/
def find : List Text → FileTree → Except FileError FileTree
  | [], t => .ok t
  | _ :: _, .file _ => .error .notDirectory
  | name :: rest, .directory entries =>
    if 255 < name.length then .error .nameTooLong
    else
      match entries.lookup name with
      | some t => find rest t
      | none => .error .missing

/-- What is at a path.  A path with a zero byte is refused, and so is one of 4096
    bytes or more. -/
def get (t : FileTree) (p : Path) : Except FileError FileTree :=
  if p.names.any (·.contains 0) then .error .invalidName
  else if 4096 ≤ p.text.length then .error .nameTooLong
  else t.find p.names

/-- The entries of a directory after one of them was set. -/
def setEntry (name : Text) (t : FileTree) : List (Text × FileTree) → List (Text × FileTree)
  | [] => [(name, t)]
  | entry :: rest => if entry.1 = name then (name, t) :: rest else entry :: setEntry name t rest

/-- Puts something where names lead, with the directories on the way.  A file stays
    where a directory is needed, and a directory where a file is put. -/
def put : FileTree → List Text → (new : FileTree) → FileTree
  | .file _, [], .file new => .file new
  | .directory entries, name :: rest, new =>
    let t := match entries.lookup name, rest with
      | some t, rest => put t rest new
      | none, [] => new
      | none, rest => put empty rest new
    .directory (setEntry name t entries)
  | t, _, _ => t

/-- What kind of thing a tree is. -/
def presence : FileTree → Presence
  | .file _ => .file
  | .directory _ => .directory

/-- The content of a file. -/
def content : FileTree → Except FileError Text
  | .file content => .ok content
  | .directory _ => .error .isDirectory

/-- The file system of a tree. -/
def files (t : FileTree) : Files Id where
  stat p := (t.get p).map presence
  read p := (t.get p).bind content

end FileTree

end Scriptorium
