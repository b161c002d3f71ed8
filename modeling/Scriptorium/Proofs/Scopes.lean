/-
  Scriptorium.Proofs.Scopes: what scopes see and how they change.

  A scope sees itself and the scopes that it lies in, from the inside out.  A name is found
  in one of these, the first that binds it.  A declaration changes the scope it is made in
  and an assignment the scope in which the name is found; nothing else changes, and no
  scope moves.

  Main results:
    * `encloses_of_owner?`: a name is found in a scope that encloses.
    * `lookup_eq_ok`, `declare_eq_ok`, `assign_eq_ok`: what it takes to succeed, and all that
      has changed then.
-/

import Mathlib.Logic.Relation
import Scriptorium.Proofs.Evaluation.Invariant

namespace Scriptorium.Forest

variable {f f' : Forest} {e s p : ScopeId} {name : Text} {v : Value}

/-! ## §1. Scopes around a scope. -/

/-- Whether the second scope is the one that the first lies in. -/
def LiesIn (f : Forest) (e p : ScopeId) : Prop := f.parent e = some p

/-- Whether `s` is the scope `e` or one around it. -/
def Encloses (f : Forest) (s e : ScopeId) : Prop := Relation.ReflTransGen f.LiesIn e s

/-- Whether `s` is a scope around `e`, and not `e` itself. -/
def Surrounds (f : Forest) (s e : ScopeId) : Prop := Relation.TransGen f.LiesIn e s

theorem Encloses.self (f : Forest) (e : ScopeId) : f.Encloses e e := .refl

/-- The scopes around a scope were opened before it. -/
theorem Surrounds.lt (h : f.Surrounds s e) : s < e := by
  induction h with
  | single hp => exact parent_lt_of_eq hp
  | tail _ hp ih => exact Nat.lt_trans (parent_lt_of_eq hp) ih

theorem Encloses.le (h : f.Encloses s e) : s ≤ e := by
  rcases Relation.reflTransGen_iff_eq_or_transGen.1 h with rfl | hs
  · exact Nat.le_refl _
  · exact Nat.le_of_lt (Surrounds.lt hs)

theorem liesIn_congr (h : ∀ e, f'.parent e = f.parent e) : f'.LiesIn = f.LiesIn := by
  funext e p
  unfold LiesIn
  rw [h]

/-- Scopes that lie in the same ones are enclosed by the same ones. -/
theorem encloses_congr (h : ∀ e, f'.parent e = f.parent e) : f'.Encloses s e ↔ f.Encloses s e := by
  unfold Encloses
  rw [liesIn_congr h]

theorem surrounds_congr (h : ∀ e, f'.parent e = f.parent e) :
    f'.Surrounds s e ↔ f.Surrounds s e := by
  unfold Surrounds
  rw [liesIn_congr h]

/-! ## §2. Where a name is found. -/

theorem binds_eq_isSome (f : Forest) (e : ScopeId) (name : Text) :
    f.binds e name = ((f.bindings e).get? name).isSome := by
  rw [get?_bindings, Option.isSome_map]
  exact (f.names e).values.contains_eq_isSome name

/-- A binding has the value and the mark of its name. -/
theorem get?_bindings_iff {b : Binding} :
    (f.bindings e).get? name = some b ↔
      (f.names e).values.get? name = some b.value ∧ b.constant = f.isConstant e name := by
  rw [get?_bindings]
  constructor
  · intro h
    obtain ⟨value, hvalue, rfl⟩ := Option.map_eq_some_iff.1 h
    exact ⟨hvalue, rfl⟩
  · rintro ⟨hvalue, hconstant⟩
    rw [hvalue, ← hconstant]
    rfl

theorem exists_binding_of_binds (h : f.binds e name = true) :
    ∃ b, (f.bindings e).get? name = some b := by
  rw [binds_eq_isSome] at h
  exact Option.isSome_iff_exists.1 h

/-- A name is found in a scope that encloses and binds it. -/
theorem encloses_of_owner? (h : f.owner? e name = some s) :
    f.Encloses s e ∧ ∃ b, (f.bindings s).get? name = some b := by
  -- outward, to scopes that were opened earlier and earlier
  induction e using Nat.strongRecOn with
  | ind e ih =>
    rw [owner?_eq] at h
    by_cases hbinds : f.binds e name = true
    · rw [if_pos hbinds] at h
      cases h
      exact ⟨Encloses.self f _, exists_binding_of_binds hbinds⟩
    · rw [if_neg hbinds] at h
      obtain ⟨p, hp, howner⟩ := Option.bind_eq_some_iff.1 h
      obtain ⟨hencloses, hbound⟩ := ih p (parent_lt_of_eq hp) howner
      exact ⟨.head hp hencloses, hbound⟩

/-- A scope that is not there binds nothing. -/
theorem names_of_size_le (h : f.size ≤ e) : f.names e = .empty := by
  unfold Forest.names get?
  rw [Array.getElem?_eq_none h]

theorem lt_size_of_get? {b : Binding} (h : (f.bindings e).get? name = some b) : e < f.size := by
  by_cases hlt : e < f.size
  · exact hlt
  · unfold bindings at h
    rw [names_of_size_le (Nat.le_of_not_lt hlt)] at h
    cases h

/-! ## §3. What looking up, declaring and assigning come to. -/

theorem lookup_eq_ok (h : f.lookup e name = .ok v) :
    ∃ s b, f.Encloses s e ∧ (f.bindings s).get? name = some b ∧ v = b.value := by
  unfold lookup resolve at h
  cases howner : f.owner? e name with
  | none =>
    rw [howner] at h
    cases h
  | some s =>
    rw [howner] at h
    obtain ⟨hencloses, b, hb⟩ := encloses_of_owner? howner
    simp only [(get?_bindings_iff.1 hb).1, Option.getD_some, Except.ok.injEq] at h
    exact ⟨s, b, hencloses, hb, h.symm⟩

theorem declare_eq_ok {constant : Bool} (h : f.declare e name v constant = .ok f') :
    (f.bindings e).get? name = none ∧ f' = f.bind e name ⟨v, constant⟩ := by
  unfold declare at h
  split at h
  · cases h
  · next hbinds =>
    rw [binds_eq_isSome, Option.not_isSome_iff_eq_none] at hbinds
    cases h
    exact ⟨hbinds, rfl⟩

theorem assign_eq_ok (h : f.assign e name v = .ok f') :
    ∃ s b, f.Encloses s e ∧ (f.bindings s).get? name = some b ∧ b.constant = false ∧
      f' = f.bind s name ⟨v, false⟩ := by
  unfold assign resolve at h
  cases howner : f.owner? e name with
  | none =>
    rw [howner] at h
    cases h
  | some s =>
    rw [howner] at h
    obtain ⟨hencloses, b, hb⟩ := encloses_of_owner? howner
    dsimp only at h
    rw [← (get?_bindings_iff.1 hb).2] at h
    by_cases hconstant : b.constant = true
    · rw [if_pos hconstant] at h
      cases h
    · rw [if_neg hconstant] at h
      cases h
      exact ⟨s, b, hencloses, hb, Bool.not_eq_true _ ▸ hconstant, rfl⟩

/-! ## §4. The forest after a change. -/

@[simp]
theorem size_bind (f : Forest) (e : ScopeId) (name : Text) (b : Binding) :
    (f.bind e name b).size = f.size := by
  simp [bind, setNames, size]

/-- No scope moves. -/
@[simp]
theorem parent_bind (f : Forest) (e s : ScopeId) (name : Text) (b : Binding) :
    (f.bind e name b).parent s = f.parent s := by
  unfold parent get? bind setNames
  simp only [Array.getElem?_modify]
  by_cases he : e = s
  · subst he
    cases f.scopes[e]? <;> simp
  · simp [he]

/-- A name that is bound in one scope is seen under that name in that scope only, with the
    mark that it has there already. -/
theorem get?_bind (f : Forest) {e : ScopeId} (he : e < f.size) (s : ScopeId) (name other : Text)
    (b : Binding) : ((f.bind e name b).bindings s).get? other =
      if e = s ∧ name = other then some ⟨b.value, b.constant || f.isConstant e name⟩
      else (f.bindings s).get? other := by
  unfold bind bindings
  rw [names_setNames]
  by_cases hs : e = s
  · subst hs
    rw [if_pos ⟨rfl, he⟩, Names.get?_bindings_bind]
    simp [isConstant]
  · simp [hs]

end Scriptorium.Forest
