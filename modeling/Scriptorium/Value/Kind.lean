/-
  Scriptorium.Value.Kind: the kinds of values, and their names in messages.
-/

import Scriptorium.Text.Basic

namespace Scriptorium

/-- The kinds of values a script can meet. -/
inductive Kind where
  | null
  | number
  | string
  | boolean
  | object
  | list
  | nativeFunction
  /-- A kind that a host gives to values of its own. -/
  | other (index : Int)
deriving DecidableEq, Repr

namespace Kind

/-- The name a kind is shown under. -/
def name : Kind → Text
  | .null => "null"
  | .number => "number"
  | .string => "string"
  | .boolean => "boolean"
  | .object => "object"
  | .list => "list"
  | .nativeFunction => "native_function"
  | .other index => "unknown_kind_" ++ Text.ofInt index

/-- The kind with the given number. -/
def ofIndex (n : Int) : Kind :=
  match n with
  | 0 => .null
  | 1 => .number
  | 2 => .string
  | 3 => .boolean
  | 4 => .object
  | 5 => .list
  | 6 => .nativeFunction
  | n => .other n

end Kind

end Scriptorium
