/-
  Scriptorium.Cli.Flags: flags of the command line.

  Flags come before all other arguments, behind one hyphen or two.  Two hyphens alone
  end them, and so does the first argument that is no flag.  A truth value may follow
  behind an equals sign; a text follows there or as the next argument.
-/

import Scriptorium.Text.Quoted

namespace Scriptorium.Cli

/-- What flags say. -/
structure Flags where
  /-- The manifest to use; empty to search for one. -/
  manifest : Text
  /-- Whether to write a debug log. -/
  verbose : Bool
  /-- Whether to print the version and leave. -/
  version : Bool
deriving DecidableEq, Repr

/-- Flags that say nothing. -/
def Flags.none : Flags := ⟨[], false, false⟩

/-- Why flags cannot be followed. -/
inductive FlagError where
  /-- Help was asked for. -/
  | help
  /-- An argument with hyphens that is no flag. -/
  | badSyntax (argument : Text)
  /-- A flag that does not exist. -/
  | undefined (name : Text)
  /-- A flag whose text is missing. -/
  | missingText (name : Text)
  /-- A flag with something else than a truth value. -/
  | badTruth (name : Text) (value : Text)
deriving DecidableEq, Repr

/-- What is said about flags that cannot be followed. -/
def FlagError.text : FlagError → Text
  | .help => []
  | .badSyntax argument => "bad flag syntax: " ++ argument ++ "\n"
  | .undefined name => "flag provided but not defined: -" ++ name ++ "\n"
  | .missingText name => "flag needs an argument: -" ++ name ++ "\n"
  | .badTruth name value =>
    "invalid boolean value " ++ value.quote ++ " for -" ++ name ++ ": parse error\n"

/-- How the program is used, line by line. -/
def usageLines : List Text := [
  "usage: quill [flags] [command] [file]",
  "",
  "commands:",
  "  run [file]     evaluate a script (defaults to the manifest entry)",
  "  <file>         shorthand for run <file>",
  "  repl           start the interactive prompt (default with no arguments)",
  "  ast <file>     print the parsed program as JSON",
  "  tokens <file>  print the token stream",
  "  version        print the version",
  "",
  "flags:",
  "  -manifest string",
  "    \tpath to quill.yml (default: search upward from the script)",
  "  -verbose",
  "    \tenable debug logging",
  "  -version",
  "    \tprint the version and exit"]

/-- How the program is used. -/
def usage : Text := usageLines.flatMap (· ++ [0x0A])

namespace Flags

/-- The truth value that a text spells. -/
def truth? (t : Text) : Option Bool :=
  if ["1", "t", "T", "TRUE", "true", "True"].any fun s => Text.ofString s = t then some true
  else if ["0", "f", "F", "FALSE", "false", "False"].any fun s => Text.ofString s = t then
    some false
  else Option.none

/-- An argument that is a flag: its name and the text behind an equals sign.  Other
    arguments are none. -/
def split? (argument : Text) : Option (Except FlagError (Text × Option Text)) :=
  if argument.length < 2 || !argument.startsWith "-" then Option.none
  else
    let body : Text := if argument.startsWith "--" then argument.drop 2 else argument.drop 1
    match body with
    | [] => some (.error (.badSyntax argument))
    | b :: rest =>
      if b = 0x2D || b = 0x3D then some (.error (.badSyntax argument))
      else
        let name : Text := b :: rest.takeWhile (· ≠ 0x3D)
        match rest.dropWhile (· ≠ 0x3D) with
        | [] => some (.ok (name, Option.none))
        | _ :: value => some (.ok (name, some value))

/-- A truth value given to a flag; none given means true. -/
def truthOf (name : Text) : Option Text → Except FlagError Bool
  | Option.none => .ok true
  | some value =>
    match truth? value with
    | some b => .ok b
    | Option.none => .error (.badTruth name value)

/-- Reads the flags before the other arguments. -/
def parse (flags : Flags) : List Text → Except FlagError (Flags × List Text)
  | [] => .ok (flags, [])
  | argument :: rest =>
    if argument = Text.ofString "--" then .ok (flags, rest)
    else
      match split? argument with
      | Option.none => .ok (flags, argument :: rest)
      | some (.error e) => .error e
      | some (.ok (name, value)) =>
        if name = Text.ofString "manifest" then
          match value, rest with
          | some value, rest => parse { flags with manifest := value } rest
          | Option.none, next :: rest => parse { flags with manifest := next } rest
          | Option.none, [] => .error (.missingText name)
        else if name = Text.ofString "verbose" then
          match truthOf name value with
          | .ok verbose => parse { flags with verbose } rest
          | .error e => .error e
        else if name = Text.ofString "version" then
          match truthOf name value with
          | .ok version => parse { flags with version } rest
          | .error e => .error e
        else if name = Text.ofString "help" || name = Text.ofString "h" then .error .help
        else .error (.undefined name)

end Flags

end Scriptorium.Cli
