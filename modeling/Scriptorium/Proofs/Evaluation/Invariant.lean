/-
  Scriptorium.Proofs.Evaluation.Invariant: what every state of a running script keeps.

  A value is sound if it is there, refers to a container that exists and, as a function,
  is one of the language's own.  Since containers are never removed, soundness depends
  on the state only through the size of its heap, and a value that is sound once stays
  so.  A state is sound if everything stored in it is: the members of its containers and
  the values of its bindings.

  Main results:
    * `Heap.Sound.alloc`, `Heap.Sound.set`: the two ways in which a heap changes.
    * `Forest.Sound.declare`, `Forest.Sound.assign`, `Forest.Sound.lookup`: names hold
      sound values and give them back.
    * `Interpreter.new_sound`: a new session starts from a sound state.
-/

import Scriptorium.Interpreter

namespace Scriptorium

/-! ## §1. Tables whose values have a property. -/

namespace Table

variable {κ ν : Type} [DecidableEq κ] {P : ν → Prop} {m : Table κ ν}

/-- Whether every value of the table has the property. -/
def All (P : ν → Prop) (m : Table κ ν) : Prop := ∀ key value, m.get? key = some value → P value

theorem all_empty : (empty : Table κ ν).All P := by
  intro key value h
  cases h

theorem All.insert (h : m.All P) (key : κ) (value : ν) (hv : P value) :
    (m.insert key value).All P := by
  intro other value' hget
  rw [get?_insert] at hget
  split at hget
  · cases hget
    exact hv
  · exact h other value' hget

theorem All.imp {Q : ν → Prop} (h : m.All P) (himp : ∀ v, P v → Q v) : m.All Q :=
  fun key value hget => himp value (h key value hget)

end Table

namespace OrderedMap

variable {κ ν : Type} [DecidableEq κ] {P : ν → Prop} {m : OrderedMap κ ν}

/-- Whether every value of the map has the property. -/
def All (P : ν → Prop) (m : OrderedMap κ ν) : Prop := m.fields.All P

theorem all_empty : (empty : OrderedMap κ ν).All P := Table.all_empty

theorem All.insert (h : m.All P) (key : κ) (value : ν) (hv : P value) :
    (m.insert key value).All P :=
  Table.All.insert h key value hv

theorem All.get? (h : m.All P) {key : κ} {value : ν} (hv : m.get? key = some value) :
    P value :=
  h key value hv

theorem All.imp {Q : ν → Prop} (h : m.All P) (himp : ∀ v, P v → Q v) : m.All Q :=
  Table.All.imp h himp

end OrderedMap

/-! ## §2. Values and containers. -/

/-- Whether the value is sound in a heap of `n` containers. -/
def Value.Sound (n : Nat) : Value → Prop
  | .nothing => False
  | .ref a => a < n
  | .native fn => fn ∈ Native.table
  | _ => True

/-- A sound value stays sound while the heap grows. -/
theorem Value.Sound.mono {n k : Nat} (hle : n ≤ k) {v : Value} (h : v.Sound n) : v.Sound k := by
  cases v with
  | ref a => exact Nat.lt_of_lt_of_le h hle
  | nothing => exact h
  | native fn => exact h
  | _ => trivial

theorem Value.Sound.ne_nothing {n : Nat} {v : Value} (h : v.Sound n) : v ≠ .nothing := by
  rintro rfl
  exact h

/-- Whether everything in the container is sound. -/
def Container.Sound (n : Nat) : Container → Prop
  | .object fields => fields.All (Value.Sound n)
  | .list items => ∀ v ∈ items, v.Sound n

theorem Container.Sound.mono {n k : Nat} (hle : n ≤ k) {c : Container} (h : c.Sound n) :
    c.Sound k := by
  cases c with
  | object fields => exact h.imp fun _ hv => hv.mono hle
  | list items => exact fun v hv => (h v hv).mono hle

/-! ## §3. The heap. -/

namespace Heap

variable {h : Heap} {a : Address} {c : Container}

/-- Whether everything in the heap is sound. -/
def Sound (h : Heap) : Prop := ∀ a c, h.get? a = some c → c.Sound h.size

@[simp]
theorem size_alloc (h : Heap) (c : Container) : (h.alloc c).2.size = h.size + 1 := by
  simp [alloc, size]

@[simp]
theorem size_set (h : Heap) (a : Address) (c : Container) : (h.set a c).size = h.size := by
  simp [set, size]

theorem exists_get?_of_lt (hlt : a < h.size) : ∃ c, h.get? a = some c :=
  ⟨h.cells[a], Array.getElem?_eq_getElem hlt⟩

theorem Sound.alloc (hh : h.Sound) (hc : c.Sound h.size) : (h.alloc c).2.Sound := by
  intro a c' hget
  rw [size_alloc]
  rw [get?_alloc] at hget
  split at hget
  · -- the new container may refer to what was there before, but not to itself
    cases hget
    exact hc.mono (Nat.le_succ _)
  · exact (hh a c' hget).mono (Nat.le_succ _)

theorem Sound.set (hh : h.Sound) (hc : c.Sound h.size) (a : Address) : (h.set a c).Sound := by
  intro b c' hget
  rw [size_set]
  rw [get?_set] at hget
  split at hget
  · obtain ⟨_, _, rfl⟩ := Option.map_eq_some_iff.1 hget
    exact hc
  · exact hh b c' hget

end Heap

/-- A sound value has a kind. -/
theorem Value.Sound.exists_kind? {h : Heap} {v : Value} (hv : v.Sound h.size) :
    ∃ kind, v.kind? h = some kind := by
  cases v with
  | nothing => exact hv.elim
  | ref a =>
    obtain ⟨c, hc⟩ := Heap.exists_get?_of_lt hv
    cases c with
    | object fields => exact ⟨.object, by simp [kind?, hc]⟩
    | list items => exact ⟨.list, by simp [kind?, hc]⟩
  | _ => exact ⟨_, rfl⟩

/-! ## §4. The scopes. -/

namespace Forest

variable {f : Forest} {n : Nat} {e : ScopeId} {name : Text} {v : Value}

/-- The names after one scope received others. -/
theorem names_setNames (f : Forest) (e e' : ScopeId) (names : Names) :
    (f.setNames e names).names e' = if e = e' ∧ e < f.size then names else f.names e' := by
  unfold Forest.names get? setNames size
  simp only [Array.getElem?_modify]
  by_cases he : e = e'
  · subst he
    by_cases hlt : e < f.scopes.size
    · simp [hlt]
    · simp [hlt]
  · simp [he]

/-- The names after one more scope was added. -/
theorem names_add (f : Forest) (names : Names) (parent : Option ScopeId) (e : ScopeId) :
    (f.add names parent).2.names e = if e = f.size then names else f.names e := by
  unfold Forest.names get? add size
  simp only [Array.getElem?_push]
  by_cases he : e = f.scopes.size
  · simp [he]
  · simp [he]

theorem get?_bindings (f : Forest) (e : ScopeId) (name : Text) :
    (f.bindings e).get? name =
      ((f.names e).values.get? name).map fun value => ⟨value, f.isConstant e name⟩ :=
  (f.names e).get?_bindings name

/-- Whether every name is bound to a value with the property. -/
def AllBound (P : Value → Prop) (f : Forest) : Prop := ∀ e, (f.names e).values.All P

section AllBound

variable {P : Value → Prop}

theorem AllBound.empty : Forest.empty.AllBound P := fun _ => Table.all_empty

theorem AllBound.bind (h : f.AllBound P) (hv : P v) (e : ScopeId) (name : Text)
    (constant : Bool) : (f.bind e name ⟨v, constant⟩).AllBound P := by
  intro e'
  unfold Forest.bind
  rw [names_setNames]
  split
  · exact (h e).insert name v hv
  · exact h e'

theorem AllBound.add (h : f.AllBound P) {names : Names} (hnames : names.values.All P)
    (parent : Option ScopeId) : (f.add names parent).2.AllBound P := by
  intro e
  rw [names_add]
  split
  · exact hnames
  · exact h e

/-- A name has a value in the scope in which it is found. -/
theorem exists_value_of_owner? {s : ScopeId} (h : f.owner? e name = some s) :
    ∃ value, (f.names s).values.get? name = some value := by
  -- outward, to scopes that were opened earlier and earlier
  induction e using Nat.strongRecOn with
  | ind e ih =>
    rw [owner?_eq] at h
    by_cases hbinds : f.binds e name = true
    · rw [if_pos hbinds] at h
      cases h
      unfold Forest.binds at hbinds
      rw [Table.contains_eq_isSome] at hbinds
      exact Option.isSome_iff_exists.1 hbinds
    · rw [if_neg hbinds] at h
      obtain ⟨p, hp, howner⟩ := Option.bind_eq_some_iff.1 h
      exact ih p (parent_lt_of_eq hp) howner

theorem AllBound.lookup (h : f.AllBound P) (hv : f.lookup e name = .ok v) : P v := by
  unfold Forest.lookup resolve at hv
  cases howner : f.owner? e name with
  | none =>
    rw [howner] at hv
    cases hv
  | some s =>
    rw [howner] at hv
    obtain ⟨value, hvalue⟩ := exists_value_of_owner? howner
    simp only [hvalue, Option.getD_some] at hv
    cases hv
    exact h s name _ hvalue

theorem AllBound.declare (h : f.AllBound P) (hv : P v) {constant : Bool} {f' : Forest}
    (hf : f.declare e name v constant = .ok f') : f'.AllBound P := by
  unfold Forest.declare at hf
  split at hf
  · cases hf
  · cases hf
    exact h.bind hv e name constant

theorem AllBound.assign (h : f.AllBound P) (hv : P v) {f' : Forest}
    (hf : f.assign e name v = .ok f') : f'.AllBound P := by
  unfold Forest.assign at hf
  split at hf
  · cases hf
  · next owner _ =>
    split at hf
    · cases hf
    · cases hf
      exact h.bind hv owner name false

/-- Constants that are declared one after the other leave no other values behind. -/
theorem declareConstants_all {names : Names} {constants : List (Text × Value)}
    (hnames : names.values.All P) (hconstants : ∀ c ∈ constants, P c.2)
    {names' : Names} (h : declareConstants names constants = .ok names') :
    names'.values.All P := by
  induction constants generalizing names with
  | nil =>
    cases h
    exact hnames
  | cons c rest ih =>
    obtain ⟨name, value⟩ := c
    have hvalue : P value := hconstants _ List.mem_cons_self
    unfold declareConstants at h
    split at h
    · cases h
    · exact ih (hnames.insert name value hvalue)
        (fun c hc => hconstants c (List.mem_cons_of_mem _ hc)) h

/-- The names of a global scope hold constants that are no functions, and the functions. -/
theorem globalNames_all {natives : List Native} {names : Names}
    (hplain : ∀ v ∈ [Value.boolean true, .boolean false, .null], P v)
    (hnatives : ∀ fn ∈ natives, P (.native fn)) (h : globalNames natives = .ok names) :
    names.values.All P := by
  refine declareConstants_all Table.all_empty ?_ h
  intro c hc
  rcases List.mem_append.1 hc with hc | hc
  · apply hplain
    simp only [List.mem_cons, List.not_mem_nil, or_false] at hc ⊢
    rcases hc with rfl | rfl | rfl <;> simp
  · obtain ⟨fn, hfn, rfl⟩ := List.mem_map.1 hc
    exact hnatives fn hfn

end AllBound

/-- Whether every name is bound to a sound value. -/
def Sound (n : Nat) (f : Forest) : Prop := f.AllBound (Value.Sound n)

theorem Sound.mono {k : Nat} (hle : n ≤ k) (h : f.Sound n) : f.Sound k :=
  fun e => (h e).imp fun _ hb => hb.mono hle

theorem Sound.empty : Forest.empty.Sound n := AllBound.empty

theorem Sound.add (h : f.Sound n) {names : Names} (hnames : names.values.All (Value.Sound n))
    (parent : Option ScopeId) : (f.add names parent).2.Sound n :=
  AllBound.add h hnames parent

theorem Sound.lookup (h : f.Sound n) (hv : f.lookup e name = .ok v) : v.Sound n :=
  AllBound.lookup h hv

theorem Sound.declare (h : f.Sound n) (hv : v.Sound n) {constant : Bool} {f' : Forest}
    (hf : f.declare e name v constant = .ok f') : f'.Sound n :=
  AllBound.declare h hv hf

theorem Sound.assign (h : f.Sound n) (hv : v.Sound n) {f' : Forest}
    (hf : f.assign e name v = .ok f') : f'.Sound n :=
  AllBound.assign h hv hf

end Forest

/-! ## §5. States and sessions. -/

/-- Whether everything that is stored in the state is sound. -/
structure Machine.Sound (m : Machine) : Prop where
  heap : m.heap.Sound
  scopes : m.scopes.Sound m.heap.size

/-- The functions of a session are some of the language's own. -/
theorem Native.mem_select {allowed : List Text} {fn : Native} :
    fn ∈ select allowed ↔ fn ∈ table ∧ (allowed = [] ∨ fn.name ∈ allowed) := by
  unfold select
  cases allowed with
  | nil => simp
  | cons name rest => simp [List.mem_filter]

/-- The names of a global scope are sound, whatever functions are allowed. -/
theorem Interpreter.globalNames_sound (n : Nat) (allowed : List Text) :
    (globalNames allowed).values.All (Value.Sound n) := by
  unfold globalNames
  split
  · next names h =>
    refine Forest.globalNames_all (P := Value.Sound n) ?_ ?_ h
    · simp [Value.Sound]
    · exact fun fn hfn => (Native.mem_select.1 hfn).1
  · exact Table.all_empty

/-- A new session starts from a sound state. -/
theorem Interpreter.new_sound (settings : Settings) (allowed : List Text) :
    (Interpreter.new settings allowed).machine.Sound := by
  refine ⟨?_, ?_⟩
  · -- there are no containers yet
    intro a c hc
    exact absurd (Heap.lt_size_of_get? hc) (Nat.not_lt_zero a)
  · exact Forest.Sound.empty.add (globalNames_sound _ allowed) none

end Scriptorium
