/-
  Scriptorium.Scope: variables and where they are visible.

  A scope binds names to values, marks some of them as constants, and may lie inside
  another scope.  The values and the marks are kept in two tables.  A name means what
  the nearest scope that binds it says.  Scopes are kept in a forest in which every
  scope comes after the one it lies in; that is why looking a name up ends.

  Main results: `owner?_eq`, the nearest binding is here or where the surrounding
  scope finds it.
-/

import Scriptorium.Error
import Scriptorium.Value.Basic

namespace Scriptorium

/-- The place of a scope in the forest. -/
abbrev ScopeId := Nat

/-- What a name is bound to. -/
structure Binding where
  value : Value
  /-- Whether the value may never be replaced. -/
  constant : Bool
deriving DecidableEq, Repr

/-- The names of a scope: their values, and beside them the marks of the constants. -/
structure Names where
  values : Table Text Value
  constants : Table Text Unit

namespace Names

/-- No names. -/
def empty : Names := ⟨.empty, .empty⟩

/-- The names with their values and marks seen together. -/
def bindings (n : Names) : Table Text Binding :=
  n.values.mapKeyed fun name value => ⟨value, n.constants.contains name⟩

/-- The names with a value set, and marked if it is to be a constant. -/
def bind (n : Names) (name : Text) (b : Binding) : Names :=
  ⟨n.values.insert name b.value,
    if b.constant then n.constants.insert name () else n.constants⟩

@[simp]
theorem keys_bindings (n : Names) : n.bindings.keys = n.values.keys :=
  Table.keys_mapKeyed _ n.values

theorem get?_bindings (n : Names) (name : Text) :
    n.bindings.get? name =
      (n.values.get? name).map fun value => ⟨value, n.constants.contains name⟩ :=
  Table.get?_mapKeyed _ n.values name

/-- A mark is set for a constant, and none is ever taken away. -/
theorem contains_constants_bind (n : Names) (name other : Text) (b : Binding) :
    (n.bind name b).constants.contains other =
      (b.constant && decide (name = other) || n.constants.contains other) := by
  unfold bind
  cases b.constant with
  | true => exact n.constants.contains_insert name other ()
  | false => rfl

/-- A name that is bound is seen under that name, with the mark that it has already. -/
theorem get?_bindings_bind (n : Names) (name other : Text) (b : Binding) :
    (n.bind name b).bindings.get? other =
      if name = other then some ⟨b.value, b.constant || n.constants.contains name⟩
      else n.bindings.get? other := by
  have hvalue : (n.bind name b).values.get? other =
      if name = other then some b.value else n.values.get? other :=
    n.values.get?_insert name other b.value
  rw [get?_bindings, get?_bindings, hvalue, contains_constants_bind]
  by_cases h : name = other
  · simp [h]
  · simp [h]

end Names

/-- A scope. -/
structure Scope where
  names : Names
  /-- The scope that this one lies in. -/
  parent : Option ScopeId

instance : Inhabited Scope := ⟨⟨.empty, none⟩⟩

/-- All scopes, each after the one it lies in. -/
structure Forest where
  scopes : Array Scope
  parent_lt : ∀ (i : ScopeId) (s : Scope) (p : ScopeId),
    scopes[i]? = some s → s.parent = some p → p < i

namespace Forest

/-- No scopes. -/
def empty : Forest := ⟨#[], by simp⟩

instance : Inhabited Forest := ⟨empty⟩

/-- The number of scopes. -/
def size (f : Forest) : Nat := f.scopes.size

/-- The scope at a place. -/
def get? (f : Forest) (e : ScopeId) : Option Scope := f.scopes[e]?

/-- The names a scope binds itself. -/
def names (f : Forest) (e : ScopeId) : Names :=
  match f.get? e with
  | some s => s.names
  | none => .empty

/-- These names with what they are bound to. -/
def bindings (f : Forest) (e : ScopeId) : Table Text Binding := (f.names e).bindings

/-- The scope that a scope lies in. -/
def parent (f : Forest) (e : ScopeId) : Option ScopeId :=
  match f.get? e with
  | some s => s.parent
  | none => none

/-! ## Growing and changing the forest -/

/-- A forest with one more scope, inside `parent` if that is a scope of the forest. -/
def add (f : Forest) (names : Names) (parent : Option ScopeId) :
    ScopeId × Forest :=
  -- a parent that does not exist is dropped, so the order of the forest is kept
  let parent := parent.filter fun p => p < f.size
  (f.size, ⟨f.scopes.push ⟨names, parent⟩, by
    intro i s p hs hp
    rw [Array.getElem?_push] at hs
    split at hs
    · next hi =>
      cases hs
      have hlt : p < f.size := by simpa using (Option.filter_eq_some_iff.1 hp).2
      exact hi ▸ hlt
    · exact f.parent_lt i s p hs hp⟩)

/-- The forest with the names of one scope replaced. -/
def setNames (f : Forest) (e : ScopeId) (names : Names) : Forest :=
  ⟨f.scopes.modify e fun s => { s with names }, by
    intro i s p hs hp
    rw [Array.getElem?_modify] at hs
    split at hs
    · obtain ⟨s', hs', rfl⟩ := Option.map_eq_some_iff.1 hs
      exact f.parent_lt i s' p hs' hp
    · exact f.parent_lt i s p hs hp⟩

/-- The forest with a name bound in a scope, for the first time or again. -/
def bind (f : Forest) (e : ScopeId) (name : Text) (b : Binding) : Forest :=
  f.setNames e ((f.names e).bind name b)

/-! ## Names -/

/-- Whether the scope itself binds the name. -/
def binds (f : Forest) (e : ScopeId) (name : Text) : Bool := (f.names e).values.contains name

/-- Whether the scope itself marks the name as a constant. -/
def isConstant (f : Forest) (e : ScopeId) (name : Text) : Bool :=
  (f.names e).constants.contains name

/-- The surrounding scope comes earlier. -/
theorem parent_lt_of_eq {f : Forest} {e p : ScopeId} (h : f.parent e = some p) : p < e := by
  unfold parent at h
  split at h
  · next s hs => exact f.parent_lt e s p hs h
  · cases h

/-- The nearest scope that binds the name, from `e` outward. -/
def owner? (f : Forest) (e : ScopeId) (name : Text) : Option ScopeId :=
  if f.binds e name then some e
  else
    match h : f.parent e with
    | none => none
    | some p =>
      have := parent_lt_of_eq h
      f.owner? p name
termination_by e

/-- The nearest binding is here or where the surrounding scope finds it. -/
theorem owner?_eq (f : Forest) (e : ScopeId) (name : Text) :
    f.owner? e name =
      if f.binds e name then some e else (f.parent e).bind fun p => f.owner? p name := by
  rw [owner?]
  split
  · rfl
  · split
    · next h => simp [h]
    · next h => simp [h]

/-- The nearest scope that binds the name, or the error that there is none. -/
def resolve (f : Forest) (e : ScopeId) (name : Text) : Except Error ScopeId :=
  match f.owner? e name with
  | some owner => .ok owner
  | none => .error (.unplaced (.undefinedName name))

/-- The value of a name. -/
def lookup (f : Forest) (e : ScopeId) (name : Text) : Except Error Value :=
  match f.resolve e name with
  | .error err => .error err
  | .ok owner => .ok (((f.names owner).values.get? name).getD default)

/-- Binds a name that the scope does not bind yet. -/
def declare (f : Forest) (e : ScopeId) (name : Text) (value : Value) (constant : Bool) :
    Except Error Forest :=
  if f.binds e name then .error (.unplaced (.alreadyDeclared name))
  else .ok (f.bind e name ⟨value, constant⟩)

/-- Replaces the value of a name where it is bound. -/
def assign (f : Forest) (e : ScopeId) (name : Text) (value : Value) : Except Error Forest :=
  match f.resolve e name with
  | .error err => .error err
  | .ok owner =>
    -- the nearest binding decides, even if an outer one could be written
    if f.isConstant owner name then .error (.unplaced (.constantReassigned name))
    else .ok (f.bind owner name ⟨value, false⟩)

/-- The names a scope binds itself, in byte order. -/
def sortedNames (f : Forest) (e : ScopeId) : List Text :=
  (f.names e).values.keys.mergeSort Text.le

/-! ## Global scopes -/

/-- Declares constants one after the other. -/
def declareConstants : Names → List (Text × Value) → Except Error Names
  | names, [] => .ok names
  | names, (name, value) :: rest =>
    if names.values.contains name then .error (.unplaced (.alreadyDeclared name))
    else declareConstants (names.bind name ⟨value, true⟩) rest

/-- The names of a global scope: the constants `true`, `false` and `null`, and each
    native function under its name. -/
def globalNames (natives : List Native) : Except Error Names :=
  let constants : List (Text × Value) :=
    [("true", .boolean true), ("false", .boolean false), ("null", .null)]
  declareConstants .empty (constants ++ natives.map fun fn => (fn.name, .native fn))

end Forest

end Scriptorium
