/-
  Scriptorium.Manifest.Draft: a manifest as its file states it.

  A draft is what a file says about a project, before anything is checked against the
  file system.  How it is read from the content of the file is left to a decoder.
-/

import Scriptorium.Text.Basic

namespace Scriptorium.Manifest

/-- What a file states. -/
structure Draft where
  name : Text
  entry : Text
  prelude : List Text
  natives : List Text
  steps : Int
deriving DecidableEq, Repr

/-- Reads a draft from the content of a file: none if nothing is stated, or what is said
    about content that gives none. -/
abbrev Decoder := Text → Except Text (Option Draft)

end Scriptorium.Manifest
