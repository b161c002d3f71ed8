/-
  Scriptorium.Proofs.Evaluation.Confined: evaluation touches only what its scope can reach.

  From a scope one sees the containers that lead on from the names of this scope and of the
  scopes around it.  Evaluation there gets hold of these containers and of new ones, and of
  nothing else: whatever it links together, a container that was not seen before never comes
  up.  So names are bound in the scope, values of names replaced in the scopes around it, and
  contents replaced of containers that were seen; all else is as it was.

  Main results:
    * `Confined.refl`, `Confined.bind`: the state at the beginning is confined, and binding a
      name keeps it so.
    * `evaluation_stays_within_reach`: what an evaluation leaves alone, however it ends.
-/

import Scriptorium.Proofs.Evaluation.Allowance

namespace Scriptorium

namespace Machine

/-! ## §1. What is seen from a scope. -/

/-- Whether a name of the scope, or of one around it, leads to the container, at once or
    through fields and elements. -/
inductive Sees (m : Machine) (e : ScopeId) : Address → Prop where
  | name {s name a} (around : m.scopes.Encloses s e)
      (bound : (m.scopes.names s).values.get? name = some (.ref a)) : Sees m e a
  | member {a c b} (seen : Sees m e a) (there : m.heap.get? a = some c) (held : c.Holds (.ref b)) :
      Sees m e b

/-- Whether an evaluation that starts here can get hold of the container: one that is seen
    from the scope, or a new one. -/
def MayTouch (m : Machine) (e : ScopeId) (a : Address) : Prop := m.Sees e a ∨ m.heap.size ≤ a

variable {m₀ m : Machine} {e s : ScopeId} {a : Address} {name : Text} {v : Value} {b : Binding}
  {c : Container}

/-! ## §2. States that an evaluation is confined to. -/

/-- Whether the second state differs from the first, in which evaluation in the scope began,
    only where the evaluation may change something, and leads no further than it could. -/
structure Confined (m₀ : Machine) (e : ScopeId) (m : Machine) : Prop where
  parents : ∀ s, m.scopes.parent s = m₀.scopes.parent s
  apart : ∀ s, ¬ m₀.scopes.Encloses s e → m.scopes.names s = m₀.scopes.names s
  above : ∀ s, m₀.scopes.Surrounds s e →
    (m.scopes.names s).values.keys = (m₀.scopes.names s).values.keys ∧
      (m.scopes.names s).constants = (m₀.scopes.names s).constants
  bound : ∀ s, m₀.scopes.Encloses s e →
    (m.scopes.names s).values.All (Value.Within (m₀.MayTouch e))
  grown : m₀.heap.size ≤ m.heap.size
  contents : ∀ a c, m₀.MayTouch e a → m.heap.get? a = some c → c.Within (m₀.MayTouch e)
  untouched : ∀ a, ¬ m₀.MayTouch e a → m.heap.get? a = m₀.heap.get? a

namespace Confined

/-- Nothing has changed at the beginning. -/
theorem refl (m : Machine) (e : ScopeId) : m.Confined e m where
  parents := fun _ => rfl
  apart := fun _ _ => rfl
  above := fun _ _ => ⟨rfl, rfl⟩
  bound := by
    intro s hs name v hv a ha
    exact .inl (.name hs (ha ▸ hv))
  grown := Nat.le_refl _
  contents := by
    -- a container that is there was seen, and its members lead on from it
    intro a c ha hc v hv b hb
    have hseen : m.Sees e a :=
      ha.resolve_right (Nat.not_le_of_lt (Heap.lt_size_of_get? hc))
    exact .inl (.member hseen hc (hb ▸ hv))
  untouched := fun _ _ => rfl

/-- A name may be bound in the scope, and again where it is bound in a scope around it, there
    not as a constant. -/
theorem bind (h : m₀.Confined e m) (hs : m₀.scopes.Encloses s e)
    (hname : s = e ∨ name ∈ (m.scopes.names s).values.keys ∧ b.constant = false)
    (hb : b.value.Within (m₀.MayTouch e)) :
    m₀.Confined e { m with scopes := m.scopes.bind s name b } where
  parents := by
    intro t
    rw [← h.parents t]
    exact Forest.parent_bind m.scopes s t name b
  apart := by
    intro t ht
    have hother : s ≠ t := fun hst => ht (hst ▸ hs)
    show (m.scopes.setNames s _).names t = _
    rw [Forest.names_setNames, if_neg (fun hst => hother hst.1), h.apart t ht]
  above := by
    intro t ht
    show ((m.scopes.setNames s _).names t).values.keys = _ ∧
      ((m.scopes.setNames s _).names t).constants = _
    rw [Forest.names_setNames, ← (h.above t ht).1, ← (h.above t ht).2]
    by_cases hst : s = t ∧ s < m.scopes.size
    · -- the scope lies around the other, so the name was bound before
      obtain ⟨hbefore, hvariable⟩ := hname.resolve_left (Nat.ne_of_lt (hst.1 ▸ ht.lt))
      rw [if_pos hst, ← hst.1]
      unfold Names.bind
      rw [hvariable]
      refine ⟨?_, rfl⟩
      show ((m.scopes.names s).values.insert name b.value).keys = _
      rw [Table.keys_insert, if_pos hbefore]
    · rw [if_neg hst]
      exact ⟨rfl, rfl⟩
  bound := by
    intro t ht
    show ((m.scopes.setNames s _).names t).values.All _
    rw [Forest.names_setNames]
    split
    · exact (h.bound s hs).insert name b.value hb
    · exact h.bound t ht
  grown := h.grown
  contents := h.contents
  untouched := h.untouched

theorem declare {constant : Bool} {f : Forest} (h : m₀.Confined e m)
    (hv : v.Within (m₀.MayTouch e)) (hf : m.scopes.declare e name v constant = .ok f) :
    m₀.Confined e { m with scopes := f } := by
  obtain ⟨_, rfl⟩ := Forest.declare_eq_ok hf
  exact h.bind (Forest.Encloses.self _ e) (.inl rfl) hv

theorem assign {f : Forest} (h : m₀.Confined e m) (hv : v.Within (m₀.MayTouch e))
    (hf : m.scopes.assign e name v = .ok f) : m₀.Confined e { m with scopes := f } := by
  obtain ⟨s, old, hs, hold, _, rfl⟩ := Forest.assign_eq_ok hf
  have hbound : name ∈ (m.scopes.names s).values.keys := by
    rw [← Table.contains_iff_mem_keys, Table.contains_eq_isSome,
      (Forest.get?_bindings_iff.1 hold).1]
    rfl
  exact h.bind ((Forest.encloses_congr h.parents).1 hs) (.inr ⟨hbound, rfl⟩) hv

theorem lookup (h : m₀.Confined e m) (hv : m.scopes.lookup e name = .ok v) :
    v.Within (m₀.MayTouch e) := by
  obtain ⟨s, b, hs, hb, rfl⟩ := Forest.lookup_eq_ok hv
  have hin : m₀.scopes.Encloses s e := (Forest.encloses_congr h.parents).1 hs
  exact h.bound s hin name b.value (Forest.get?_bindings_iff.1 hb).1

/-- A new container may be touched, as its address is beyond the old ones. -/
theorem alloc (h : m₀.Confined e m) (hc : c.Within (m₀.MayTouch e)) :
    m₀.Confined e { m with heap := (m.heap.alloc c).2 } where
  parents := h.parents
  apart := h.apart
  above := h.above
  bound := h.bound
  grown := by
    show m₀.heap.size ≤ (m.heap.alloc c).2.size
    rw [Heap.size_alloc]
    exact Nat.le_succ_of_le h.grown
  contents := by
    intro a c' ha hc'
    replace hc' : (m.heap.alloc c).2.get? a = some c' := hc'
    rw [Heap.get?_alloc] at hc'
    split at hc'
    · cases hc'
      exact hc
    · exact h.contents a c' ha hc'
  untouched := by
    intro a ha
    have hold : a ≠ m.heap.size := fun hnew => ha (.inr (hnew ▸ h.grown))
    show (m.heap.alloc c).2.get? a = _
    rw [Heap.get?_alloc, if_neg hold, h.untouched a ha]

theorem write (h : m₀.Confined e m) (ha : m₀.MayTouch e a) (hc : c.Within (m₀.MayTouch e)) :
    m₀.Confined e { m with heap := m.heap.set a c } where
  parents := h.parents
  apart := h.apart
  above := h.above
  bound := h.bound
  grown := by
    show m₀.heap.size ≤ (m.heap.set a c).size
    rw [Heap.size_set]
    exact h.grown
  contents := by
    intro a' c' ha' hc'
    replace hc' : (m.heap.set a c).get? a' = some c' := hc'
    rw [Heap.get?_set] at hc'
    split at hc'
    · obtain ⟨_, _, rfl⟩ := Option.map_eq_some_iff.1 hc'
      exact hc
    · exact h.contents a' c' ha' hc'
  untouched := by
    intro a' ha'
    have hother : a ≠ a' := fun hsame => ha' (hsame ▸ ha)
    show (m.heap.set a c).get? a' = _
    rw [Heap.get?_set, if_neg hother, h.untouched a' ha']

end Confined

/-- Evaluation in a scope has to stay confined. -/
def confinement (m₀ : Machine) (e : ScopeId) : Upkeep e where
  holds := m₀.Confined e
  known := m₀.MayTouch e
  noted := fun _ _ _ _ _ _ h =>
    ⟨h.parents, h.apart, h.above, h.bound, h.grown, h.contents, h.untouched⟩
  lookup := fun _ _ _ h hv => h.lookup hv
  declare := fun _ _ _ _ _ h hv hf => h.declare hv hf
  assign := fun _ _ _ _ h hv hf => h.assign hv hf
  alloc := fun _ _ h hc => ⟨h.alloc hc, .inr h.grown⟩
  read := fun _ a c h ha hc => h.contents a c ha hc
  write := fun _ _ _ h ha hc => h.write ha hc

end Machine

/-! ## §3. Evaluation stays within reach. -/

/-- **Evaluation touches only what its scope can reach.**  Whatever is evaluated in a scope,
    in a session in which all functions are the language's own, under any limit and with
    success or without: no scope moves; every scope but this one and those around it has the
    names that it had, with the values and the marks that they had; those around it bind the
    same names, with the same marks, and their constants to the same values; and a container
    that no name of the scope or of one around it led to has the contents that it had. -/
theorem evaluation_stays_within_reach (i : Interpreter)
    (hown : ∀ fn, i.machine.Stores (.native fn) → fn ∈ Native.table) (e : ScopeId)
    (node : Node) :
    let before := i.machine
    let after := (i.evaluate e node).2.machine
    (∀ s, after.scopes.parent s = before.scopes.parent s) ∧
    (∀ s, ¬ before.scopes.Encloses s e → after.scopes.names s = before.scopes.names s) ∧
    (∀ s, before.scopes.Surrounds s e →
      (after.scopes.names s).values.keys = (before.scopes.names s).values.keys ∧
      (after.scopes.names s).constants = (before.scopes.names s).constants ∧
      ∀ name b, (before.scopes.bindings s).get? name = some b →
        ∃ v, (after.scopes.bindings s).get? name = some ⟨v, b.constant⟩ ∧
          (b.constant = true → v = b.value)) ∧
    ∀ a c, before.heap.get? a = some c → ¬ before.Sees e a → after.heap.get? a = some c := by
  intro before after
  have hstart : before.Confined e i.start :=
    (before.confinement e).noted before 0 _ (before.earlier ++ before.output) [] [] (.refl before e)
  have hconfined : before.Confined e after :=
    Interpreter.holds_evaluate_own (before.confinement e).custody hown node hstart
  have hdevelops : before.scopes.Develops after.scopes :=
    Interpreter.holds_evaluate_own (before.scopes.development e).custody hown node
      (Forest.Develops.refl _)
  refine ⟨hconfined.parents, hconfined.apart, ?_, ?_⟩
  · intro s hs
    obtain ⟨hkeys, hconstants⟩ := hconfined.above s hs
    exact ⟨hkeys, hconstants, hdevelops.retained.names s⟩
  · intro a c hc hunseen
    have hold : ¬ before.heap.size ≤ a := Nat.not_le_of_lt (Heap.lt_size_of_get? hc)
    have huntouched : ¬ before.MayTouch e a := fun ha => ha.elim hunseen hold
    rw [hconfined.untouched a huntouched, hc]

/-- A session with an object and a list.  The global scope holds the object, a scope inside
    it holds nothing, and a scope apart holds the list. -/
def keptApart : Interpreter :=
  let held (a : Address) : Names := Names.empty.bind "x" ⟨.ref a, false⟩
  let scopes := (((Forest.empty.add (held 0) none).2.add .empty (some 0)).2.add (held 1) none).2
  let machine := { (default : Machine) with heap := ⟨#[.object .empty, .list []]⟩, scopes }
  ⟨⟨0, .collect, .bare⟩, [], machine, 0⟩

/-- Names of this session lead to containers and to nothing else. -/
theorem bound_keptApart {s : ScopeId} {name : Text} {v : Value}
    (hv : (keptApart.machine.scopes.names s).values.get? name = some v) :
    s = 0 ∧ v = .ref 0 ∨ s = 2 ∧ v = .ref 1 := by
  have hheld : ∀ a : Address, ((Names.empty.bind "x" ⟨.ref a, false⟩).values.get? name = some v) →
      v = .ref a := by
    intro a ha
    replace ha : (Table.empty.insert (Text.ofString "x") (Value.ref a)).get? name = some v := ha
    rw [Table.get?_insert] at ha
    split at ha
    · cases ha
      rfl
    · cases ha
  obtain _ | _ | _ | s := s
  · exact .inl ⟨rfl, hheld 0 hv⟩
  · cases hv
  · exact .inr ⟨rfl, hheld 1 hv⟩
  · cases hv

/-- There are no functions in this session. -/
theorem stores_keptApart (fn : Native) : ¬ keptApart.machine.Stores (.native fn) := by
  have hcells : ∀ a c, keptApart.machine.heap.get? a = some c →
      c = .object .empty ∨ c = .list [] := by
    intro a c hc
    obtain _ | _ | a := a
    · cases hc
      exact .inl rfl
    · cases hc
      exact .inr rfl
    · cases hc
  intro h
  cases h with
  | binding hbound =>
    rcases bound_keptApart hbound with ⟨_, hv⟩ | ⟨_, hv⟩
    · cases hv
    · cases hv
  | field hobject hmember =>
    rcases hcells _ _ hobject with hc | hc
    · cases hc
      cases hmember
    · cases hc
  | item hlist hmember =>
    rcases hcells _ _ hlist with hc | hc
    · cases hc
    · cases hc
      cases hmember

/-- The list is not seen from the inner scope: it sees the object only, which is empty. -/
theorem sees_keptApart {a : Address} (h : keptApart.machine.Sees 1 a) : a = 0 := by
  induction h with
  | name hs hbound =>
    rcases bound_keptApart hbound with ⟨_, hv⟩ | ⟨rfl, _⟩
    · cases hv
      rfl
    · exact absurd hs.le (by decide)
  | member _ hc hheld ih =>
    subst ih
    cases hc
    obtain ⟨key, hkey⟩ := hheld
    cases hkey

/-- The inner scope writes to the object; the scope apart and its list are as they were. -/
theorem evaluation_stays_within_reach_keptApart :
    let write := Node.ofExpr (.assign .unknown
      (.member .unknown (.identifier .unknown "x") (.identifier .unknown "k") false)
      (.string .unknown "new"))
    let after := (keptApart.evaluate 1 write).2.machine
    (∀ fn, keptApart.machine.Stores (.native fn) → fn ∈ Native.table) ∧
      (keptApart.evaluate 1 write).1 = .ok (.string "new") ∧
      ¬ keptApart.machine.scopes.Encloses 2 1 ∧
      after.scopes.names 2 = keptApart.machine.scopes.names 2 ∧
      ¬ keptApart.machine.Sees 1 1 ∧ after.heap.get? 1 = some (.list []) := by
  intro write after
  have hown : ∀ fn, keptApart.machine.Stores (.native fn) → fn ∈ Native.table :=
    fun fn h => absurd h (stores_keptApart fn)
  obtain ⟨_, hapart, _, hunseen⟩ := evaluation_stays_within_reach keptApart hown 1 write
  have hwritten : (keptApart.evaluate 1 write).1 = .ok (.string "new") := by cbv
  have hoff : ¬ keptApart.machine.scopes.Encloses 2 1 := fun h => absurd h.le (by decide)
  have hlist : ¬ keptApart.machine.Sees 1 1 := fun h => absurd (sees_keptApart h) (by decide)
  exact ⟨hown, hwritten, hoff, hapart 2 hoff, hlist, hunseen 1 (.list []) rfl hlist⟩

end Scriptorium
