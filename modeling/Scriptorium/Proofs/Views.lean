/-
  Scriptorium.Proofs.Views: how one write looks from every scope.

  Every scope of a forest is a point of view: a name means there what the nearest scope that
  binds it says.  A declaration or an assignment changes one binding of one scope.  From
  which points of view the change can be seen depends on the scopes in between, whatever the
  shape of the forest: it is seen where the changed scope is the nearest that binds the name,
  and nowhere else.

  Main results:
    * `owner?_eq_some_iff`, `owner?_eq_none_iff`: a name is found in the nearest scope that
      binds it, or nowhere.
    * `lookup_rebind`: the view after a name was bound again where it was bound.
    * `lookup_bind`: the view after a name was bound in a scope that did not bind it.
    * `scope_chain_laws`: when declarations and assignments fail, and what they change.
-/

import Mathlib
import Scriptorium.Proofs.Scopes

namespace Scriptorium

namespace Forest

variable {f f' : Forest} {e s t : ScopeId} {name other : Text} {v : Value}

/-! ## §1. The nearest scope that binds a name. -/

/-- Whether no scope from `e` outward binds the name before `s` is reached. -/
def FreeUpTo (f : Forest) (e s : ScopeId) (name : Text) : Prop :=
  ∀ t, f.Encloses t e → f.Surrounds s t → f.binds t name = false

/-- Whether `s` is the nearest scope, from `e` outward, that binds the name. -/
structure Nearest (f : Forest) (e s : ScopeId) (name : Text) : Prop where
  encloses : f.Encloses s e
  binds : f.binds s name = true
  free : f.FreeUpTo e s name

/-- No scope lies between a scope and itself. -/
theorem freeUpTo_self (f : Forest) (e : ScopeId) (name : Text) : f.FreeUpTo e e name := by
  intro t ht hsurrounds
  exact absurd (Nat.lt_of_lt_of_le hsurrounds.lt ht.le) (Nat.lt_irrefl e)

/-- A scope that binds the name is the nearest one from itself. -/
theorem Nearest.self (h : f.binds e name = true) : f.Nearest e e name :=
  ⟨.self f e, h, f.freeUpTo_self e name⟩

/-- If the scope itself does not bind the name, the nearest one is that of the scope around. -/
theorem nearest_outward (hfree : f.binds e name = false) (hp : f.parent e = some t) :
    f.Nearest e s name ↔ f.Nearest t s name := by
  constructor
  · rintro ⟨hencloses, hbinds, hup⟩
    refine ⟨?_, hbinds, fun r hr => hup r (.head hp hr)⟩
    rcases hencloses.cases_head with rfl | ⟨p, hp', hrest⟩
    · rw [hfree] at hbinds
      cases hbinds
    · have hsame : t = p := Option.some.inj (hp.symm.trans hp')
      exact hsame ▸ hrest
  · rintro ⟨hencloses, hbinds, hup⟩
    refine ⟨.head hp hencloses, hbinds, ?_⟩
    intro r hr hsurrounds
    rcases hr.cases_head with rfl | ⟨p, hp', hrest⟩
    · exact hfree
    · have hsame : t = p := Option.some.inj (hp.symm.trans hp')
      exact hup r (hsame ▸ hrest) hsurrounds

/-- **A name is found in the nearest scope that binds it.** -/
theorem owner?_eq_some_iff : f.owner? e name = some s ↔ f.Nearest e s name := by
  -- outward, to scopes that were opened earlier and earlier
  induction e using Nat.strongRecOn with
  | ind e ih =>
    rw [owner?_eq]
    cases hbinds : f.binds e name with
    | true =>
      rw [if_pos rfl]
      constructor
      · intro h
        cases h
        exact .self hbinds
      · intro h
        rcases Relation.reflTransGen_iff_eq_or_transGen.1 h.encloses with rfl | hsurrounds
        · rfl
        · have hfree := h.free e (.self f e) hsurrounds
          rw [hbinds] at hfree
          cases hfree
    | false =>
      rw [if_neg (by decide)]
      cases hp : f.parent e with
      | none =>
        constructor
        · intro h
          cases h
        · rintro ⟨hencloses, hbound, _⟩
          rcases hencloses.cases_head with rfl | ⟨p, hp', _⟩
          · rw [hbinds] at hbound
            cases hbound
          · rw [LiesIn, hp] at hp'
            cases hp'
      | some p =>
        show f.owner? p name = some s ↔ _
        rw [ih p (parent_lt_of_eq hp), nearest_outward hbinds hp]

/-- A name is found nowhere if no scope from here outward binds it. -/
theorem owner?_eq_none_iff :
    f.owner? e name = none ↔ ∀ t, f.Encloses t e → f.binds t name = false := by
  induction e using Nat.strongRecOn with
  | ind e ih =>
    have hhere : (∀ t, f.Encloses t e → f.binds t name = false) → f.binds e name = false :=
      fun h => h e (.self f e)
    rw [owner?_eq]
    cases hbinds : f.binds e name with
    | true =>
      rw [hbinds] at hhere
      exact ⟨fun h => (nomatch h), fun h => absurd (hhere h) (by decide)⟩
    | false =>
      rw [if_neg (by decide)]
      cases hp : f.parent e with
      | none =>
        refine ⟨fun _ t ht => ?_, fun _ => rfl⟩
        rcases ht.cases_head with rfl | ⟨p, hp', _⟩
        · exact hbinds
        · rw [LiesIn, hp] at hp'
          cases hp'
      | some p =>
        show f.owner? p name = none ↔ _
        rw [ih p (parent_lt_of_eq hp)]
        refine ⟨fun h t ht => ?_, fun h t ht => h t (.head hp ht)⟩
        rcases ht.cases_head with rfl | ⟨p', hp', hrest⟩
        · exact hbinds
        · have hsame : p = p' := Option.some.inj (hp.symm.trans hp')
          exact h t (hsame ▸ hrest)

/-- There is one nearest scope at most. -/
theorem Nearest.unique (hs : f.Nearest e s name) (ht : f.Nearest e t name) : s = t :=
  Option.some.inj ((owner?_eq_some_iff.2 hs).symm.trans (owner?_eq_some_iff.2 ht))

/-! ## §2. What a name means. -/

/-- A name means what the scope says in which it is found. -/
theorem lookup_of_owner? {b : Binding} (hs : f.owner? e name = some s)
    (hb : (f.bindings s).get? name = some b) : f.lookup e name = .ok b.value := by
  unfold lookup resolve
  rw [hs]
  simp only [(get?_bindings_iff.1 hb).1, Option.getD_some]

/-- A name that is found nowhere means nothing. -/
theorem lookup_of_unowned (h : f.owner? e name = none) :
    f.lookup e name = .error (.unplaced (.undefinedName name)) := by
  unfold lookup resolve
  rw [h]

/-- A name means the same in two forests if it is found in the same scope and bound there to
    the same value. -/
theorem lookup_congr (howner : f'.owner? e name = f.owner? e name)
    (hget : ∀ s, f.owner? e name = some s →
      (f'.bindings s).get? name = (f.bindings s).get? name) :
    f'.lookup e name = f.lookup e name := by
  cases hs : f.owner? e name with
  | none =>
    rw [lookup_of_unowned hs, lookup_of_unowned (howner.trans hs)]
  | some s =>
    obtain ⟨_, b, hb⟩ := encloses_of_owner? hs
    rw [lookup_of_owner? hs hb, lookup_of_owner? (howner.trans hs) ((hget s hs).trans hb)]

/-- A name is found in the same scope if no scope moved and the same ones bind it. -/
theorem owner?_congr (hparent : ∀ s, f'.parent s = f.parent s)
    (hbinds : ∀ s, f'.binds s name = f.binds s name) : f'.owner? e name = f.owner? e name := by
  induction e using Nat.strongRecOn with
  | ind e ih =>
    rw [owner?_eq, owner?_eq, hparent, hbinds]
    cases hp : f.parent e with
    | none => rfl
    | some p =>
      show (if _ then _ else f'.owner? p name) = if _ then _ else f.owner? p name
      rw [ih p (parent_lt_of_eq hp)]

/-! ## §3. The views after a name was bound. -/

theorem binds_bind (f : Forest) {s : ScopeId} (hs : s < f.size) (t : ScopeId) (name other : Text)
    (b : Binding) : (f.bind s name b).binds t other =
      if s = t ∧ name = other then true else f.binds t other := by
  rw [binds_eq_isSome, binds_eq_isSome, get?_bind f hs]
  split <;> rfl

/-- Another name means what it meant. -/
theorem lookup_bind_other (b : Binding) (hs : s < f.size) (hother : other ≠ name) :
    (f.bind s name b).lookup e other = f.lookup e other := by
  have hget : ∀ t, ((f.bind s name b).bindings t).get? other = (f.bindings t).get? other := by
    intro t
    rw [get?_bind f hs, if_neg fun h => hother h.2.symm]
  apply lookup_congr
  · apply owner?_congr (parent_bind f s · name b)
    intro t
    rw [binds_eq_isSome, binds_eq_isSome, hget]
  · exact fun t _ => hget t

/-- **A name that is bound again where it was bound** is found where it was found, and means
    the new value in the views that find it there. -/
theorem lookup_rebind (b : Binding) (hbound : f.binds s name = true) :
    (f.bind s name b).lookup e name =
      if f.owner? e name = some s then .ok b.value else f.lookup e name := by
  obtain ⟨old, hold⟩ := exists_binding_of_binds hbound
  have hs := lt_size_of_get? hold
  have howner : (f.bind s name b).owner? e name = f.owner? e name := by
    apply owner?_congr (parent_bind f s · name b)
    intro t
    rw [binds_bind f hs]
    split
    · next h => rw [← h.1, hbound]
    · rfl
  by_cases hhere : f.owner? e name = some s
  · rw [if_pos hhere]
    have hget := get?_bind f hs s name name b
    rw [if_pos ⟨rfl, rfl⟩] at hget
    rw [lookup_of_owner? (howner.trans hhere) hget]
  · rw [if_neg hhere]
    apply lookup_congr howner
    intro t ht
    rw [get?_bind f hs, if_neg]
    rintro ⟨rfl, _⟩
    exact hhere ht

theorem encloses_bind {b : Binding} :
    (f.bind s name b).Encloses t e ↔ f.Encloses t e :=
  encloses_congr (parent_bind f s · name b)

theorem surrounds_bind {b : Binding} :
    (f.bind s name b).Surrounds t e ↔ f.Surrounds t e :=
  surrounds_congr (parent_bind f s · name b)

/-- **A name that is bound in a scope that did not bind it** means the new value in the views
    from which the scope is reached before any that binds the name, and what it meant in all
    others. -/
theorem lookup_bind (b : Binding) (hs : s < f.size) (hfree : f.binds s name = false) :
    (f.Encloses s e ∧ f.FreeUpTo e s name → (f.bind s name b).lookup e name = .ok b.value) ∧
    (¬ (f.Encloses s e ∧ f.FreeUpTo e s name) →
      (f.bind s name b).lookup e name = f.lookup e name) := by
  have hbinds := fun t => binds_bind f hs t name name b
  -- the scope itself is the only one that binds the name and did not before
  have hnew : (f.bind s name b).binds s name = true := by rw [hbinds, if_pos ⟨rfl, rfl⟩]
  have hold : ∀ {t}, s ≠ t → (f.bind s name b).binds t name = f.binds t name := by
    intro t ht
    rw [hbinds, if_neg fun h => ht h.1]
  have hfreeUpTo : ∀ {r}, (¬ (f.Encloses s e ∧ f.Surrounds r s)) → f.FreeUpTo e r name →
      (f.bind s name b).FreeUpTo e r name := by
    intro r hnot hup t ht hsurrounds
    rw [encloses_bind] at ht
    rw [surrounds_bind] at hsurrounds
    rw [hold, hup t ht hsurrounds]
    rintro rfl
    exact hnot ⟨ht, hsurrounds⟩
  constructor
  · rintro ⟨hencloses, hup⟩
    have hnearest : (f.bind s name b).Nearest e s name := by
      refine ⟨encloses_bind.2 hencloses, hnew, hfreeUpTo ?_ hup⟩
      rintro ⟨_, hself⟩
      exact absurd hself.lt (Nat.lt_irrefl s)
    have hget := get?_bind f hs s name name b
    rw [if_pos ⟨rfl, rfl⟩] at hget
    rw [lookup_of_owner? (owner?_eq_some_iff.2 hnearest) hget]
  · intro hhidden
    apply lookup_congr
    · cases howner : f.owner? e name with
      | none =>
        have hunbound := owner?_eq_none_iff.1 howner
        rw [owner?_eq_none_iff]
        intro t ht
        rw [encloses_bind] at ht
        rw [hold, hunbound t ht]
        rintro rfl
        exact hhidden ⟨ht, fun r hr _ => hunbound r hr⟩
      | some r =>
        have hr := owner?_eq_some_iff.1 howner
        have hne : s ≠ r := by
          rintro rfl
          rw [hr.binds] at hfree
          cases hfree
        rw [owner?_eq_some_iff]
        refine ⟨encloses_bind.2 hr.encloses, (hold hne).trans hr.binds, hfreeUpTo ?_ hr.free⟩
        -- the new binding would lie nearer, and what hides it nearer still
        rintro ⟨hencloses, hsurrounds⟩
        refine hhidden ⟨hencloses, fun t ht hst => hr.free t ht (hst.trans hsurrounds)⟩
    · intro r hr
      rw [get?_bind f hs, if_neg]
      rintro ⟨rfl, _⟩
      obtain ⟨_, old, hget⟩ := encloses_of_owner? hr
      rw [binds_eq_isSome, hget] at hfree
      cases hfree

/-! ## §4. What declarations and assignments do. -/

theorem declare_eq (f : Forest) (e : ScopeId) (name : Text) (v : Value) (constant : Bool) :
    f.declare e name v constant =
      if f.binds e name then .error (.unplaced (.alreadyDeclared name))
      else .ok (f.bind e name ⟨v, constant⟩) :=
  rfl

theorem assign_of_unowned (h : f.owner? e name = none) :
    f.assign e name v = .error (.unplaced (.undefinedName name)) := by
  unfold assign resolve
  rw [h]

theorem assign_of_owner? (h : f.owner? e name = some s) :
    f.assign e name v =
      if f.isConstant s name then .error (.unplaced (.constantReassigned name))
      else .ok (f.bind s name ⟨v, false⟩) := by
  unfold assign resolve
  rw [h]

/-- A name that is bound again is no new name. -/
theorem keys_rebind (b : Binding) (hbound : f.binds s name = true) (t : ScopeId) :
    ((f.bind s name b).bindings t).keys = (f.bindings t).keys := by
  unfold bind bindings
  rw [names_setNames, Names.keys_bindings, Names.keys_bindings]
  split
  · next h =>
    show ((f.names s).values.insert name b.value).keys = (f.names t).values.keys
    rw [Table.keys_insert, if_pos ((Table.contains_iff_mem_keys _ _).1 hbound), h.1]
  · rfl

end Forest

/-- A change of the scopes that is refused leaves the state as it was. -/
theorem Eval.eq_of_refused {pos : Position} {v : Value} {stop : Stop} {m m' : Machine}
    (change : Forest → Except Error Forest)
    (h : (do
      let scopes ← located pos (change (← get).scopes)
      modify fun m => { m with scopes }
      return v : Eval Value) m = .error stop m') : m' = m := by
  replace h : (located pos (change m.scopes) >>= fun scopes => (do
      modify fun m => { m with scopes }
      return v : Eval Value)) m = .error stop m' := h
  cases hchange : change m.scopes with
  | ok scopes =>
    rw [hchange] at h
    cases h
  | error err =>
    rw [hchange] at h
    cases h
    rfl

/-! ## §5. The laws of scopes. -/

/-- Whether the result is an error of this kind about the name. -/
def Refused {α : Type} (kind : ErrorKind) (name : Text) (result : Except Error α) : Prop :=
  ∃ err, result = .error err ∧ err.cause.kind = kind ∧ err.cause.name? = some name

@[simp]
theorem refused_error {α : Type} {kind : ErrorKind} {name : Text} {err : Error} :
    Refused kind name (.error err : Except Error α) ↔
      err.cause.kind = kind ∧ err.cause.name? = some name := by
  constructor
  · rintro ⟨_, heq, h⟩
    cases heq
    exact h
  · exact fun h => ⟨err, rfl, h⟩

@[simp]
theorem not_refused_ok {α : Type} {kind : ErrorKind} {name : Text} {a : α} :
    ¬ Refused kind name (.ok a : Except Error α) := by
  rintro ⟨_, heq, _⟩
  cases heq

namespace Forest

variable {f f' : Forest} {e e' : ScopeId} {x y : Text} {v : Value} {c : Bool}

/-- When a declaration is refused, and that it succeeds otherwise. -/
theorem declare_fails_iff (f : Forest) (e : ScopeId) (x : Text) (v : Value) (c : Bool) :
    (Refused .varExists x (f.declare e x v c) ↔ f.binds e x = true) ∧
    ((∃ f', f.declare e x v c = .ok f') ↔ f.binds e x = false) := by
  rw [declare_eq]
  cases f.binds e x with
  | true => simp [Error.unplaced, Cause.kind, Cause.name?]
  | false => simp

/-- When an assignment is refused and why, and that it succeeds otherwise. -/
theorem assign_fails_iff (f : Forest) (e : ScopeId) (x : Text) (v : Value) :
    (Refused .resolution x (f.assign e x v) ↔ ∀ s, f.Encloses s e → f.binds s x = false) ∧
    (Refused .varExists x (f.assign e x v) ↔ ∃ s, f.Nearest e s x ∧ f.isConstant s x = true) ∧
    ((∃ f', f.assign e x v = .ok f') ↔ ∃ s, f.Nearest e s x ∧ f.isConstant s x = false) := by
  simp only [← owner?_eq_none_iff, ← owner?_eq_some_iff]
  cases howner : f.owner? e x with
  | none =>
    rw [assign_of_unowned howner]
    simp [Error.unplaced, Cause.kind, Cause.name?]
  | some s =>
    rw [assign_of_owner? howner]
    cases hconstant : f.isConstant s x with
    | true => simp [Error.unplaced, Cause.kind, Cause.name?, hconstant]
    | false => simp [hconstant]

/-- The views after an assignment. -/
theorem lookup_assign (h : f.assign e x v = .ok f') (e' : ScopeId) (y : Text) :
    (y = x ∧ (∃ s, f.Nearest e s x ∧ f.Nearest e' s x) → f'.lookup e' y = .ok v) ∧
    (¬ (y = x ∧ ∃ s, f.Nearest e s x ∧ f.Nearest e' s x) →
      f'.lookup e' y = f.lookup e' y) := by
  obtain ⟨s, hs, hvariable⟩ := (assign_fails_iff f e x v).2.2.1 ⟨f', h⟩
  have howner := owner?_eq_some_iff.2 hs
  rw [assign_of_owner? howner, hvariable] at h
  obtain rfl : f.bind s x ⟨v, false⟩ = f' := Except.ok.inj h
  -- both resolve the name to this scope exactly if the other view finds it here
  have hsame : (∃ s, f.Nearest e s x ∧ f.Nearest e' s x) ↔ f.owner? e' x = some s := by
    simp only [← owner?_eq_some_iff, howner, Option.some.injEq, exists_eq_left']
  rw [hsame]
  by_cases hy : y = x
  · subst hy
    rw [lookup_rebind _ hs.binds]
    constructor
    · exact fun hhere => if_pos hhere.2
    · exact fun helse => if_neg fun hhere => helse ⟨rfl, hhere⟩
  · obtain ⟨_, hb⟩ := exists_binding_of_binds hs.binds
    refine ⟨fun hx => absurd hx.1 hy, fun _ => ?_⟩
    exact lookup_bind_other _ (lt_size_of_get? hb) hy

/-- No scope has another name after an assignment. -/
theorem keys_assign (h : f.assign e x v = .ok f') (s : ScopeId) :
    (f'.bindings s).keys = (f.bindings s).keys := by
  obtain ⟨t, b, _, hb, _, rfl⟩ := assign_eq_ok h
  have hbound : f.binds t x = true := by
    rw [binds_eq_isSome, hb]
    rfl
  exact keys_rebind ⟨v, false⟩ hbound s

/-- The views after a declaration. -/
theorem lookup_declare (he : e < f.size) (h : f.declare e x v c = .ok f') (e' : ScopeId)
    (y : Text) :
    (y = x ∧ f.Encloses e e' ∧ f.FreeUpTo e' e x → f'.lookup e' y = .ok v) ∧
    (¬ (y = x ∧ f.Encloses e e' ∧ f.FreeUpTo e' e x) → f'.lookup e' y = f.lookup e' y) := by
  have hfree := (declare_fails_iff f e x v c).2.1 ⟨f', h⟩
  rw [declare_eq, hfree] at h
  obtain rfl : f.bind e x ⟨v, c⟩ = f' := Except.ok.inj h
  by_cases hy : y = x
  · subst hy
    obtain ⟨hseen, hhidden⟩ := lookup_bind (e := e') ⟨v, c⟩ he hfree
    exact ⟨fun hview => hseen hview.2, fun hnot => hhidden fun hview => hnot ⟨rfl, hview⟩⟩
  · refine ⟨fun hx => absurd hx.1 hy, fun _ => ?_⟩
    exact lookup_bind_other _ he hy

end Forest

/-- **The laws of scopes.**  A declaration is refused exactly if the scope itself binds the
    name.  An assignment is refused as unresolved exactly if no scope from here outward binds
    the name, as a second definition exactly if the nearest one that does holds a constant,
    and for no other reason.  A refused call changes nothing.  After an assignment the name
    means the new value in every view that finds it in the same scope as this one, every other
    view is as it was, and no scope has another name.  After a declaration the name means the
    new value in every view that reaches this scope before another that binds the name, and
    every other view is as it was. -/
theorem scope_chain_laws (f : Forest) (e : ScopeId) (he : e < f.size) (x : Text) (v : Value)
    (c : Bool) :
    (Refused .varExists x (f.declare e x v c) ↔ f.binds e x = true) ∧
    ((∃ f', f.declare e x v c = .ok f') ↔ f.binds e x = false) ∧
    (Refused .resolution x (f.assign e x v) ↔ ∀ s, f.Encloses s e → f.binds s x = false) ∧
    (Refused .varExists x (f.assign e x v) ↔
      ∃ s, f.Nearest e s x ∧ f.isConstant s x = true) ∧
    ((∃ f', f.assign e x v = .ok f') ↔ ∃ s, f.Nearest e s x ∧ f.isConstant s x = false) ∧
    (∀ (m m' : Machine) (pos : Position) (stop : Stop),
      Eval.declare e x v c pos m = .error stop m' ∨ Eval.assign e x v pos m = .error stop m' →
      m' = m) ∧
    (∀ f', f.assign e x v = .ok f' →
      (∀ s, (f'.bindings s).keys = (f.bindings s).keys) ∧
      ∀ e' y, (y = x ∧ (∃ s, f.Nearest e s x ∧ f.Nearest e' s x) → f'.lookup e' y = .ok v) ∧
        (¬ (y = x ∧ ∃ s, f.Nearest e s x ∧ f.Nearest e' s x) →
          f'.lookup e' y = f.lookup e' y)) ∧
    ∀ f', f.declare e x v c = .ok f' →
      ∀ e' y, (y = x ∧ f.Encloses e e' ∧ f.FreeUpTo e' e x → f'.lookup e' y = .ok v) ∧
        (¬ (y = x ∧ f.Encloses e e' ∧ f.FreeUpTo e' e x) → f'.lookup e' y = f.lookup e' y) := by
  obtain ⟨hdeclared, hdeclares⟩ := f.declare_fails_iff e x v c
  obtain ⟨hunresolved, hconstant, hassigns⟩ := f.assign_fails_iff e x v
  refine ⟨hdeclared, hdeclares, hunresolved, hconstant, hassigns, ?_, ?_, ?_⟩
  · rintro m m' pos stop (h | h)
    · exact Eval.eq_of_refused (fun f => f.declare e x v c) h
    · exact Eval.eq_of_refused (fun f => f.assign e x v) h
  · intro f' h
    exact ⟨Forest.keys_assign h, Forest.lookup_assign h⟩
  · intro f' h
    exact Forest.lookup_declare he h

/-- Three scopes, each inside the one before: the outer one has a variable, the inner one a
    constant of the same name, and the one in between has none. -/
def nestedScopes : Forest :=
  let holds (v : Value) (constant : Bool) : Names := Names.empty.bind "x" ⟨v, constant⟩
  (((Forest.empty.add (holds .null false) none).2.add .empty (some 0)).2.add
    (holds (.boolean true) true) (some 1)).2

/-- A declaration in the middle is seen there and neither from outside nor from inside; an
    assignment from the middle is seen in the middle and outside. -/
theorem scope_chain_laws_nested :
    1 < nestedScopes.size ∧
    (∃ f', nestedScopes.declare 1 "x" (.boolean false) false = .ok f' ∧
      f'.lookup 1 "x" = .ok (.boolean false) ∧
      f'.lookup 0 "x" = nestedScopes.lookup 0 "x" ∧
      f'.lookup 2 "x" = nestedScopes.lookup 2 "x") ∧
    ∃ f', nestedScopes.assign 1 "x" (.boolean false) = .ok f' ∧
      f'.lookup 1 "x" = .ok (.boolean false) ∧ f'.lookup 0 "x" = .ok (.boolean false) ∧
      f'.lookup 2 "x" = nestedScopes.lookup 2 "x" := by
  have hsize : 1 < nestedScopes.size := by decide
  obtain ⟨_, hdeclares, _, _, hassigns, _, hassign, hdeclare⟩ :=
    scope_chain_laws nestedScopes 1 hsize "x" (.boolean false) false
  have houter : nestedScopes.Nearest 0 0 "x" := Forest.owner?_eq_some_iff.1 (by cbv)
  have hmiddle : nestedScopes.Nearest 1 0 "x" := Forest.owner?_eq_some_iff.1 (by cbv)
  have hinner : nestedScopes.Nearest 2 2 "x" := Forest.owner?_eq_some_iff.1 (by cbv)
  obtain ⟨f', hf'⟩ := hdeclares.2 (by decide)
  obtain ⟨f'', hf''⟩ := hassigns.2 ⟨0, hmiddle, by decide⟩
  have hinside : nestedScopes.LiesIn 2 1 := by
    show nestedScopes.parent 2 = some 1
    rfl
  refine ⟨hsize, ⟨f', hf', ?_, ?_, ?_⟩, f'', hf'', ?_, ?_, ?_⟩
  · exact (hdeclare f' hf' 1 "x").1 ⟨rfl, .self _ 1, Forest.freeUpTo_self _ 1 "x"⟩
  · apply (hdeclare f' hf' 0 "x").2
    rintro ⟨_, hencloses, _⟩
    exact absurd hencloses.le (by decide)
  · apply (hdeclare f' hf' 2 "x").2
    rintro ⟨_, _, hfree⟩
    exact absurd (hfree 2 (.self _ 2) (.single hinside)) (by decide)
  · exact ((hassign f'' hf'').2 1 "x").1 ⟨rfl, 0, hmiddle, hmiddle⟩
  · exact ((hassign f'' hf'').2 0 "x").1 ⟨rfl, 0, hmiddle, houter⟩
  · apply ((hassign f'' hf'').2 2 "x").2
    rintro ⟨_, s, hs, hs'⟩
    exact absurd ((hs.unique hmiddle).symm.trans (hs'.unique hinner)) (by decide)

end Scriptorium
