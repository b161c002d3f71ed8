/-
  Scriptorium.Value.Basic: the values scripts compute with.

  Numbers, strings, booleans and `null` are values in themselves.  Objects and
  lists live in a heap and are passed by reference, so two variables can hold the
  same one.  A native function is one of the language, or one of the host's, which a
  value names by a number: what the host does is given to a run from outside.
-/

import Scriptorium.OrderedMap
import Scriptorium.Position
import Scriptorium.Value.Kind

namespace Scriptorium

/-- The place of a container in the heap. -/
abbrev Address := Nat

/-- What a native function does when it is called. -/
inductive Action where
  /-- Writes its arguments on one line. -/
  | print
  /-- The greatest of its arguments. -/
  | greatest
  /-- The least of its arguments. -/
  | least
  /-- The length of a list or string, or the number of an object's keys. -/
  | length
  /-- The keys of an object, as a list. -/
  | keys
  /-- The time. -/
  | clock
  /-- A number as readers of some language write it. -/
  | formatNumber
  /-- What a function of the host does, by its number. -/
  | host (handle : Nat)
deriving DecidableEq, Repr

/-- A native function.  A negative arity takes any number of arguments. -/
structure Native where
  name : Text
  arity : Int
  action : Action
deriving DecidableEq, Repr

/-- A value. -/
inductive Value where
  | null
  | number (x : Float)
  | string (t : Text)
  | boolean (b : Bool)
  /-- An object or a list. -/
  | ref (a : Address)
  | native (fn : Native)
  /-- A value of a host's own kind. -/
  | foreign (kind : Int)
  /-- The lack of a value; only hosts can bring it in. -/
  | nothing
deriving DecidableEq, Repr

instance : Inhabited Value := ⟨.nothing⟩

/-- What a reference refers to. -/
inductive Container where
  | object (fields : OrderedMap Text Value)
  | list (items : List Value)

end Scriptorium
