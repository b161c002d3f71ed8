/-
  Scriptorium.Eval.Native: the functions scripts can call.

  The table lists the functions every script has unless it is restricted to some
  of them.  An error that a function of the language raises has no place; the call
  supplies it.  A function of the host does what was given for it.
-/

import Scriptorium.Eval.Machine
import Scriptorium.Value.Printer

namespace Scriptorium

namespace Native

/-- The functions of the language, in order. -/
def table : List Native := [
  ⟨"print", -1, .print⟩,
  ⟨"max", -1, .greatest⟩,
  ⟨"min", -1, .least⟩,
  ⟨"len", 1, .length⟩,
  ⟨"keys", 1, .keys⟩,
  ⟨"time", 0, .clock⟩,
  ⟨"formatNumber", -1, .formatNumber⟩]

/-- The names of the functions of the language. -/
def names : List Text := table.map Native.name

/-- Whether the language has a function of this name. -/
def isKnown (name : Text) : Bool := names.contains name

/-- The functions with the allowed names, in the order of the table; all of them if
    no name is given.  Unknown names are ignored. -/
def select (allowed : List Text) : List Native :=
  if allowed.isEmpty then table else table.filter fun fn => allowed.contains fn.name

end Native

namespace Action

/-- The number among the arguments of a function that wants numbers. -/
def numberArgument (function : Text) (index : Nat) (v : Value) : Eval Float := do
  match v with
  | .number x => return x
  | v => Eval.fail (.argumentNotNumber function index (← Eval.kindOf v)) .unknown

/-- The best of the numbers `best` and `rest`, where the later of two wins only if it
    is `better`. -/
def extremum (function : Text) (better : Float → Float → Bool) :
    (index : Nat) → (best : Float) → (rest : List Value) → Eval Float
  | _, best, [] => pure best
  | index, best, v :: rest => do
    let x ← numberArgument function index v
    extremum function better (index + 1) (if better x best then x else best) rest

/-- The best argument, or `null` if there is none. -/
def extremumOf (function : Text) (better : Float → Float → Bool) : List Value → Eval Value
  | [] => pure .null
  | v :: rest => do
    let x ← numberArgument function 1 v
    return .number (← extremum function better 2 x rest)

/-- Whether one number is greater than another. -/
def greater (x y : Float) : Bool := y < x

/-- Whether one number is less than another. -/
def less (x y : Float) : Bool := x < y

/-- The length of a value. -/
def lengthOf (v : Value) : Eval Value := do
  match v with
  | .string t => return .number (Float.ofNat t.symbolCount)
  | .ref a =>
    match (← get).heap.get? a with
    | some (.list items) => return .number (Float.ofNat items.length)
    | some (.object fields) => return .number (Float.ofNat fields.size)
    | none => Eval.defect .absentValue
  | v => Eval.fail (.noLength (← Eval.kindOf v)) .unknown

/-- The keys of an object, as a new list. -/
def keysOf (v : Value) : Eval Value := do
  let heap := (← get).heap
  match v with
  | .ref a =>
    match heap.get? a with
    | some (.object fields) => Eval.alloc (.list (fields.keys.map .string))
    | _ => Eval.fail (.noKeys (← Eval.kindOf v)) .unknown
  | v => Eval.fail (.noKeys (← Eval.kindOf v)) .unknown

/-- The locale that formatting is to use: English unless one is named. -/
def localeOf : Option Value → Eval Text
  | none => pure (Text.ofString "en")
  | some (.string name) => pure name
  | some v => do Eval.fail (.localeKind (← Eval.kindOf v)) .unknown

/-- A number as a locale writes it. -/
def formatted (find : Text → Option (Float → Text)) (v : Value) (locale : Option Value) :
    Eval Value := do
  match v with
  | .number x =>
    let name ← localeOf locale
    match find name with
    | some format => return .string (format x)
    | none => Eval.fail (.unknownLocale name) .unknown
  | v => Eval.fail (.formatKind (← Eval.kindOf v)) .unknown

/-- Performs an action for a caller in the given scope. -/
def run (settings : Settings) (scope : ScopeId) (action : Action) (args : List Value) :
    Eval Value := do
  match action, args with
  | .print, args =>
    -- one write for the whole line
    let heap := (← get).heap
    Eval.write settings.sink (Text.join " " (args.map heap.text) ++ "\n")
    return .null
  | .greatest, args => extremumOf "max" greater args
  | .least, args => extremumOf "min" less args
  | .length, v :: _ => lengthOf v
  | .length, [] => Eval.defect .absentArgument
  | .keys, v :: _ => keysOf v
  | .keys, [] => Eval.defect .absentArgument
  | .clock, _ => return .number (← Eval.readClock settings.outside.clock)
  | .formatNumber, [v] => formatted settings.outside.locale v none
  | .formatNumber, [v, locale] => formatted settings.outside.locale v (some locale)
  | .formatNumber, args => Eval.fail (.formatArity args.length) .unknown
  | .host handle, args => settings.outside.functions handle scope args

end Action

end Scriptorium
