/-
  Scriptorium.OrderedMap: maps that remember the order of insertion.

  The values and the order of the keys are kept apart: a table has the values, and a
  list the keys in the order in which they were first inserted.  A key keeps its place
  when it is inserted again; only its value is replaced.  Objects of scripts are such
  maps.

  Main results:
    * `get?_insert`: an insertion is seen under its key and nowhere else.
    * `Agrees.empty`, `Agrees.insert`: insertions keep the order and the table in step.
-/

import Scriptorium.Table

namespace Scriptorium

/-- A table beside an order of its keys. -/
structure OrderedMap (κ ν : Type) where
  fields : Table κ ν
  /-- The keys, in order of first insertion. -/
  order : List κ

namespace OrderedMap

variable {κ ν : Type}

/-- The map without keys. -/
def empty : OrderedMap κ ν := ⟨.empty, []⟩

instance : Inhabited (OrderedMap κ ν) := ⟨empty⟩

/-- The keys, in order of first insertion. -/
def keys (m : OrderedMap κ ν) : List κ := m.order

/-- The number of keys. -/
def size (m : OrderedMap κ ν) : Nat := m.order.length

@[simp]
theorem keys_empty : (empty : OrderedMap κ ν).keys = [] := rfl

@[simp]
theorem length_keys (m : OrderedMap κ ν) : m.keys.length = m.size := rfl

variable [DecidableEq κ]

/-- The value stored under a key. -/
def get? (m : OrderedMap κ ν) (key : κ) : Option ν := m.fields.get? key

/-- Whether there is a value under the key. -/
def contains (m : OrderedMap κ ν) (key : κ) : Bool := m.fields.contains key

/-- The keys in order, each with its value. -/
def entries [Inhabited ν] (m : OrderedMap κ ν) : List (κ × ν) :=
  m.order.map fun key => (key, (m.get? key).getD default)

/-- The map with `key` set to `value`.  A new key goes to the end. -/
def insert (m : OrderedMap κ ν) (key : κ) (value : ν) : OrderedMap κ ν :=
  let order := if m.contains key then m.order else m.order ++ [key]
  ⟨m.fields.insert key value, order⟩

@[simp]
theorem get?_empty (key : κ) : (empty : OrderedMap κ ν).get? key = none := rfl

theorem keys_insert (m : OrderedMap κ ν) (key : κ) (value : ν) :
    (m.insert key value).keys = if m.contains key then m.keys else m.keys ++ [key] := rfl

/-- An insertion is seen under its key and nowhere else. -/
theorem get?_insert (m : OrderedMap κ ν) (key other : κ) (value : ν) :
    (m.insert key value).get? other = if key = other then some value else m.get? other :=
  m.fields.get?_insert key other value

/-- There is a value under a key exactly if one is found. -/
theorem contains_eq_isSome (m : OrderedMap κ ν) (key : κ) :
    m.contains key = (m.get? key).isSome :=
  m.fields.contains_eq_isSome key

theorem contains_insert (m : OrderedMap κ ν) (key other : κ) (value : ν) :
    (m.insert key value).contains other = (decide (key = other) || m.contains other) :=
  m.fields.contains_insert key other value

/-! ## Order and table in step -/

/-- Whether the order lists each key that has a value, once, and no other. -/
structure Agrees (m : OrderedMap κ ν) : Prop where
  nodup : m.keys.Nodup
  mem_keys : ∀ key, key ∈ m.keys ↔ m.contains key = true

/-- A map without keys is in step. -/
theorem Agrees.empty : (empty : OrderedMap κ ν).Agrees :=
  ⟨List.nodup_nil, fun key => by simp [contains_eq_isSome]⟩

/-- An insertion keeps a map in step. -/
theorem Agrees.insert {m : OrderedMap κ ν} (h : m.Agrees) (key : κ) (value : ν) :
    (m.insert key value).Agrees := by
  by_cases hknown : m.contains key = true
  · constructor
    · rw [keys_insert, if_pos hknown]
      exact h.nodup
    · intro other
      rw [keys_insert, if_pos hknown, contains_insert, h.mem_keys]
      by_cases hkey : key = other
      · subst hkey
        simp [hknown]
      · simp [hkey]
  · have hnew : key ∉ m.keys := fun hmem => hknown ((h.mem_keys key).1 hmem)
    constructor
    · rw [keys_insert, if_neg hknown]
      rw [List.nodup_append]
      refine ⟨h.nodup, by simp, fun a ha b hb => ?_⟩
      rw [List.mem_singleton.1 hb]
      exact fun heq => hnew (heq ▸ ha)
    · intro other
      rw [keys_insert, if_neg hknown, contains_insert, List.mem_append, h.mem_keys,
        List.mem_singleton]
      by_cases hkey : key = other
      · simp [hkey]
      · simp [hkey, Ne.symm hkey]

end OrderedMap

end Scriptorium
