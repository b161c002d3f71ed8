/-
  Scriptorium.Value.Heap: where objects and lists live.

  A heap is a growing sequence of containers.  A new container goes to the end, so
  its address differs from all earlier ones; containers are changed in place and
  never removed.
-/

import Scriptorium.Value.Basic

namespace Scriptorium

/-- The containers allocated so far. -/
structure Heap where
  cells : Array Container

namespace Heap

/-- The heap without containers. -/
def empty : Heap := ⟨#[]⟩

instance : Inhabited Heap := ⟨empty⟩

/-- The number of containers. -/
def size (h : Heap) : Nat := h.cells.size

/-- The container at an address. -/
def get? (h : Heap) (a : Address) : Option Container := h.cells[a]?

/-- A heap with one more container, and its address. -/
def alloc (h : Heap) (c : Container) : Address × Heap := (h.size, ⟨h.cells.push c⟩)

/-- The heap with the container at an address replaced. -/
def set (h : Heap) (a : Address) (c : Container) : Heap := ⟨h.cells.setIfInBounds a c⟩

/-- An address with a container is below the size. -/
theorem lt_size_of_get? {h : Heap} {a : Address} {c : Container} (hc : h.get? a = some c) :
    a < h.size :=
  (Array.getElem?_eq_some_iff.1 hc).1

/-- A new container is found at its address, and every other one where it was. -/
theorem get?_alloc (h : Heap) (c : Container) (a : Address) :
    (h.alloc c).2.get? a = if a = h.size then some c else h.get? a := by
  simp only [alloc, get?, size, Array.getElem?_push]
  rfl

/-- A replaced container is found at its address, and every other one is as it was. -/
theorem get?_set (h : Heap) (a b : Address) (c : Container) :
    (h.set a c).get? b = if a = b then (h.get? b).map (fun _ => c) else h.get? b := by
  simp only [set, get?, Array.getElem?_setIfInBounds]
  split
  · next e =>
    subst e
    split
    · next hlt => simp [hlt]
    · next hlt => simp [Array.getElem?_eq_none (Nat.le_of_not_lt hlt)]
  · rfl

end Heap

/-- The kind of a value, read from the heap for a reference.  The lack of a value
    has none. -/
def Value.kind? (h : Heap) : Value → Option Kind
  | .null => some .null
  | .number _ => some .number
  | .string _ => some .string
  | .boolean _ => some .boolean
  | .ref a =>
    match h.get? a with
    | some (.object _) => some .object
    | some (.list _) => some .list
    | none => none
  | .native _ => some .nativeFunction
  | .foreign kind => some (.ofIndex kind)
  | .nothing => none

end Scriptorium
