/-
  Scriptorium.Proofs.Evaluation.Constants: constants are permanent.

  Scopes develop step by step: a scope is opened, a name is declared, a name is assigned to.
  Evaluation does nothing else to scopes, and a function of the host does nothing else if it
  changes them by these steps only.  Each step keeps the marks of constants on names that are
  bound, and it retains what there was: every name that a scope binds is still bound there, a
  constant to the value it had, and a variable as a variable.

  What a host can do to a session is a list of calls.  Every call develops the scopes, so what
  every step keeps holds after any number of calls.

  Main results:
    * `Forest.Step.marksBound`, `Forest.Step.retained`: what one step keeps.
    * `Forest.Develops.marksBound`, `Forest.Develops.retained`: what any number of steps keep.
    * `Interpreter.develops_perform`, `Interpreter.develops_performAll`: one call of a host,
      and any number of them.
    * `constants_are_permanent`: constants keep their values, from their declaration on.
-/

import Scriptorium.Proofs.Evaluation.Upkeep
import Scriptorium.Proofs.Scopes

namespace Scriptorium

/-! ## §1. Marks and what they are on. -/

namespace Names

variable {n n' : Names}

/-- Whether every name that is marked as a constant is bound. -/
def MarksBound (n : Names) : Prop :=
  ∀ name, n.constants.contains name = true → n.values.contains name = true

theorem MarksBound.empty : Names.empty.MarksBound := fun _ h => nomatch h

/-- A name receives its mark together with its value. -/
theorem MarksBound.bind (h : n.MarksBound) (name : Text) (b : Binding) :
    (n.bind name b).MarksBound := by
  intro other hmark
  show (n.values.insert name b.value).contains other = true
  rw [contains_constants_bind] at hmark
  rw [Table.contains_insert]
  by_cases hsame : name = other
  · simp [hsame]
  · simp only [hsame, decide_false, Bool.and_false, Bool.false_or] at hmark ⊢
    exact h other hmark

theorem MarksBound.declareConstants {constants : List (Text × Value)} (h : n.MarksBound)
    (hn : Forest.declareConstants n constants = .ok n') : n'.MarksBound := by
  induction constants generalizing n with
  | nil =>
    cases hn
    exact h
  | cons c rest ih =>
    obtain ⟨name, value⟩ := c
    unfold Forest.declareConstants at hn
    split at hn
    · cases hn
    · exact ih (h.bind name ⟨value, true⟩) hn

end Names

namespace Forest

variable {f f' f'' : Forest} {e : ScopeId} {name : Text} {v : Value}

/-- Whether every scope marks only names that it binds. -/
def MarksBound (f : Forest) : Prop := ∀ e, (f.names e).MarksBound

theorem MarksBound.empty : Forest.empty.MarksBound := fun _ => .empty

theorem MarksBound.bind (h : f.MarksBound) (e : ScopeId) (name : Text) (b : Binding) :
    (f.bind e name b).MarksBound := by
  intro s
  unfold Forest.bind
  rw [names_setNames]
  split
  · exact (h e).bind name b
  · exact h s

theorem MarksBound.add (h : f.MarksBound) {names : Names} (hnames : names.MarksBound)
    (parent : Option ScopeId) : (f.add names parent).2.MarksBound := by
  intro s
  rw [names_add]
  split
  · exact hnames
  · exact h s

/-! ## §2. What a later forest retains. -/

/-- Whether the second forest has all scopes of the first, and in them all names: constants
    with their values, and variables as variables. -/
structure RetainedBy (f f' : Forest) : Prop where
  scopes : f.size ≤ f'.size
  names : ∀ e name b, (f.bindings e).get? name = some b →
    ∃ v, (f'.bindings e).get? name = some ⟨v, b.constant⟩ ∧ (b.constant = true → v = b.value)

theorem RetainedBy.refl (f : Forest) : f.RetainedBy f :=
  ⟨Nat.le_refl _, fun _ _ b hb => ⟨b.value, hb, fun _ => rfl⟩⟩

theorem RetainedBy.trans (h : f.RetainedBy f') (h' : f'.RetainedBy f'') : f.RetainedBy f'' := by
  constructor
  · exact Nat.le_trans h.scopes h'.scopes
  · intro e name b hb
    obtain ⟨v, hv, hsame⟩ := h.names e name b hb
    obtain ⟨w, hw, hsame'⟩ := h'.names e name ⟨v, b.constant⟩ hv
    exact ⟨w, hw, fun hconstant => (hsame' hconstant).trans (hsame hconstant)⟩

/-- A constant is the same constant ever after. -/
theorem RetainedBy.constant (h : f.RetainedBy f')
    (hv : (f.bindings e).get? name = some ⟨v, true⟩) :
    (f'.bindings e).get? name = some ⟨v, true⟩ := by
  obtain ⟨w, hw, hsame⟩ := h.names e name _ hv
  rw [hw, hsame rfl]

/-- A forest retains what it was before one name was bound in one of its scopes, unless the
    name was a constant there or becomes one. -/
theorem retainedBy_bind {b : Binding}
    (h : ∀ old, (f.bindings e).get? name = some old →
      old.constant = false ∧ b.constant = false) : f.RetainedBy (f.bind e name b) := by
  constructor
  · exact Nat.le_of_eq (size_bind f e name b).symm
  · intro s other old hold
    by_cases he : e < f.size
    · rw [get?_bind f he]
      by_cases hhere : e = s ∧ name = other
      · -- the name itself: it was a variable and is one
        obtain ⟨rfl, rfl⟩ := hhere
        obtain ⟨hwas, his⟩ := h old hold
        have hmark : f.isConstant e name = false := by
          rw [← (get?_bindings_iff.1 hold).2]
          exact hwas
        refine ⟨b.value, ?_, ?_⟩
        · rw [if_pos ⟨rfl, rfl⟩, his, hmark, hwas]
          rfl
        · intro hconstant
          rw [hwas] at hconstant
          cases hconstant
      · rw [if_neg hhere]
        exact ⟨old.value, hold, fun _ => rfl⟩
    · -- there is no such scope, and nothing changes
      have hsame : (f.bind e name b).bindings s = f.bindings s := by
        unfold bindings Forest.bind
        rw [names_setNames, if_neg fun hs => he hs.2]
      rw [hsame]
      exact ⟨old.value, hold, fun _ => rfl⟩

/-- A new scope comes after all others. -/
theorem RetainedBy.add (f : Forest) (names : Names) (parent : Option ScopeId) :
    f.RetainedBy (f.add names parent).2 := by
  constructor
  · simp [Forest.add, size]
  · intro e name b hb
    have hold : e ≠ f.size := Nat.ne_of_lt (lt_size_of_get? hb)
    have hsame : (f.add names parent).2.bindings e = f.bindings e := by
      unfold bindings
      rw [names_add, if_neg hold]
    rw [hsame]
    exact ⟨b.value, hb, fun _ => rfl⟩

/-! ## §3. Scopes develop step by step. -/

/-- One step: a scope is opened, empty or as a global one, a name is declared, or a name is
    assigned to. -/
inductive Step : Forest → Forest → Prop where
  | openScope {f : Forest} (parent : Option ScopeId) : Step f (f.add .empty parent).2
  | openGlobal {f : Forest} {names : Names} {natives : List Native}
      (opened : globalNames natives = .ok names) : Step f (f.add names none).2
  | declare {f f' : Forest} {e : ScopeId} {name : Text} {v : Value} {constant : Bool}
      (declared : f.declare e name v constant = .ok f') : Step f f'
  | assign {f f' : Forest} {e : ScopeId} {name : Text} {v : Value}
      (assigned : f.assign e name v = .ok f') : Step f f'

/-- One step keeps the marks on names that are bound. -/
theorem Step.marksBound (h : f.Step f') (hf : f.MarksBound) : f'.MarksBound := by
  cases h with
  | openScope parent => exact hf.add .empty parent
  | openGlobal opened => exact hf.add (Names.MarksBound.empty.declareConstants opened) none
  | declare declared =>
    obtain ⟨_, rfl⟩ := declare_eq_ok declared
    exact hf.bind _ _ _
  | assign assigned =>
    obtain ⟨s, b, _, _, _, rfl⟩ := assign_eq_ok assigned
    exact hf.bind _ _ _

/-- One step retains what there was. -/
theorem Step.retained (h : f.Step f') : f.RetainedBy f' := by
  cases h with
  | openScope parent => exact .add f .empty parent
  | openGlobal opened => exact .add f _ none
  | declare declared =>
    -- the name was not bound
    obtain ⟨hnone, rfl⟩ := declare_eq_ok declared
    apply retainedBy_bind
    intro old hold
    rw [hnone] at hold
    cases hold
  | assign assigned =>
    -- the name was bound, and not as a constant
    obtain ⟨s, b, _, hb, hvariable, rfl⟩ := assign_eq_ok assigned
    apply retainedBy_bind
    intro old hold
    rw [hb] at hold
    cases hold
    exact ⟨hvariable, rfl⟩

/-- Whether steps lead from the first forest to the second. -/
def Develops (f f' : Forest) : Prop := Relation.ReflTransGen Step f f'

theorem Develops.refl (f : Forest) : f.Develops f := Relation.ReflTransGen.refl

theorem Develops.step (h : f.Develops f') (hstep : f'.Step f'') : f.Develops f'' := h.tail hstep

theorem Develops.trans (h : f.Develops f') (h' : f'.Develops f'') : f.Develops f'' :=
  Relation.ReflTransGen.trans h h'

/-- Any number of steps keep the marks on names that are bound. -/
theorem Develops.marksBound (h : f.Develops f') (hf : f.MarksBound) : f'.MarksBound := by
  induction h with
  | refl => exact hf
  | tail _ hstep ih => exact hstep.marksBound ih

/-- And they retain what there was. -/
theorem Develops.retained (h : f.Develops f') : f.RetainedBy f' := by
  induction h with
  | refl => exact .refl f
  | tail _ hstep ih => exact ih.trans hstep.retained

end Forest

/-- Whether the functions of the host change scopes by such steps only. -/
def Outside.DevelopsScopes (o : Outside) : Prop :=
  ∀ handle scope args (m : Machine), (o.functions handle scope args).Ensures m
    (fun _ m' => m.scopes.Develops m'.scopes) fun _ m' => m.scopes.Develops m'.scopes

/-- Evaluation in a scope has to develop a forest. -/
def Forest.development (f : Forest) (scope : ScopeId) : Upkeep scope where
  holds := fun m => f.Develops m.scopes
  known := fun _ => True
  noted := fun _ _ _ _ _ _ h => h
  lookup := fun _ _ _ _ _ _ _ => trivial
  declare := fun _ _ _ _ _ h _ hf => h.step (.declare hf)
  assign := fun _ _ _ _ h _ hf => h.step (.assign hf)
  alloc := fun _ _ h _ => ⟨h, trivial⟩
  read := fun _ _ _ _ _ _ _ _ _ _ => trivial
  write := fun _ _ _ h _ _ => h

theorem Forest.development_tolerates {o : Outside} (hhost : o.DevelopsScopes) (f : Forest)
    (scope : ScopeId) : (f.development scope).custody.Tolerates o := by
  intro fn handle args _ _ _ m hm
  apply (hhost handle scope args m).imp
  · exact fun v m' hm' => ⟨⟨Forest.Develops.trans hm hm', trivial⟩, fun _ _ => trivial⟩
  · exact fun s m' hm' => ⟨Forest.Develops.trans hm hm', trivial⟩

/-! ## §4. Global scopes. -/

namespace Forest

/-- Constants that were declared one after the other are all there. -/
theorem get?_of_declareConstants {n n' : Names} {constants : List (Text × Value)}
    (h : declareConstants n constants = .ok n') :
    (∀ name b, n.bindings.get? name = some b → n'.bindings.get? name = some b) ∧
      ∀ c ∈ constants, n'.bindings.get? c.1 = some ⟨c.2, true⟩ := by
  induction constants generalizing n with
  | nil =>
    cases h
    exact ⟨fun _ _ hb => hb, List.forall_mem_nil _⟩
  | cons c rest ih =>
    obtain ⟨name, value⟩ := c
    unfold declareConstants at h
    split at h
    · cases h
    · next hfree =>
      obtain ⟨hkept, hrest⟩ := ih h
      have hnew : n'.bindings.get? name = some ⟨value, true⟩ := by
        apply hkept
        rw [Names.get?_bindings_bind, if_pos rfl]
        rfl
      refine ⟨?_, List.forall_mem_cons.2 ⟨hnew, hrest⟩⟩
      intro other b hb
      have hother : name ≠ other := by
        rintro rfl
        rw [Names.get?_bindings] at hb
        obtain ⟨bound, hbound, _⟩ := Option.map_eq_some_iff.1 hb
        rw [Table.contains_eq_isSome, hbound] at hfree
        exact hfree rfl
      apply hkept
      rw [Names.get?_bindings_bind, if_neg hother, hb]

/-- Constants with different names can be declared one after the other. -/
theorem exists_declareConstants {n : Names} {constants : List (Text × Value)}
    (hnodup : (constants.map Prod.fst).Nodup)
    (hfree : ∀ c ∈ constants, n.values.get? c.1 = none) :
    ∃ n', declareConstants n constants = .ok n' := by
  induction constants generalizing n with
  | nil => exact ⟨n, rfl⟩
  | cons c rest ih =>
    obtain ⟨name, value⟩ := c
    obtain ⟨hname, hrest⟩ := List.nodup_cons.1 hnodup
    have hnew : n.values.contains name = false := by
      rw [Table.contains_eq_isSome, hfree _ List.mem_cons_self]
      rfl
    unfold declareConstants
    rw [hnew]
    apply ih hrest
    intro c hc
    have hother : name ≠ c.1 := fun he => hname (he ▸ List.mem_map.2 ⟨c, hc, rfl⟩)
    show (n.values.insert name value).get? c.1 = none
    rw [Table.get?_insert, if_neg hother]
    exact hfree c (List.mem_cons_of_mem _ hc)

/-- The functions that a session may be restricted to have names of their own. -/
theorem exists_globalNames (allowed : List Text) :
    ∃ names, globalNames (Native.select allowed) = .ok names := by
  have hselected : (Native.select allowed).Sublist Native.table := by
    unfold Native.select
    split
    · exact List.Sublist.refl _
    · exact List.filter_sublist
  have hall : ([Text.ofString "true", Text.ofString "false", Text.ofString "null"] ++
      Native.table.map Native.name).Nodup := by decide
  apply exists_declareConstants
  · apply List.Nodup.sublist _ hall
    rw [List.map_append, List.map_map]
    exact (List.Sublist.refl _).append (hselected.map Native.name)
  · exact fun _ _ => rfl

/-- Whether the scope binds what a global scope with these functions binds. -/
structure IsGlobal (f : Forest) (e : ScopeId) (natives : List Native) : Prop where
  yes : (f.bindings e).get? "true" = some ⟨.boolean true, true⟩
  no : (f.bindings e).get? "false" = some ⟨.boolean false, true⟩
  null : (f.bindings e).get? "null" = some ⟨.null, true⟩
  native : ∀ fn ∈ natives, (f.bindings e).get? fn.name = some ⟨.native fn, true⟩

/-- A global scope is one for ever. -/
theorem IsGlobal.retained {f f' : Forest} {e : ScopeId} {natives : List Native}
    (hglobal : f.IsGlobal e natives) (h : f.RetainedBy f') : f'.IsGlobal e natives := by
  constructor
  · exact h.constant hglobal.yes
  · exact h.constant hglobal.no
  · exact h.constant hglobal.null
  · exact fun fn hfn => h.constant (hglobal.native fn hfn)

/-- A scope that is opened as a global one is one. -/
theorem isGlobal_add (f : Forest) {natives : List Native} {names : Names}
    (h : globalNames natives = .ok names) : (f.add names none).2.IsGlobal f.size natives := by
  obtain ⟨_, hall⟩ := get?_of_declareConstants h
  have hbindings : (f.add names none).2.bindings f.size = names.bindings := by
    unfold bindings
    rw [names_add, if_pos rfl]
  constructor
  · rw [hbindings]
    exact hall ("true", .boolean true) (by simp)
  · rw [hbindings]
    exact hall ("false", .boolean false) (by simp)
  · rw [hbindings]
    exact hall ("null", .null) (by simp)
  · intro fn hfn
    rw [hbindings]
    exact hall (fn.name, .native fn)
      (List.mem_append_right _ (List.mem_map.2 ⟨fn, hfn, rfl⟩))

end Forest

/-- The names of a session's global scopes are those of its functions. -/
theorem Interpreter.globalNames_eq (allowed : List Text) :
    Forest.globalNames (Native.select allowed) = .ok (globalNames allowed) := by
  obtain ⟨names, hnames⟩ := Forest.exists_globalNames allowed
  unfold globalNames
  rw [hnames]

/-- The scope of a new session is a global one. -/
theorem Interpreter.new_isGlobal (settings : Settings) (allowed : List Text) :
    (Interpreter.new settings allowed).machine.scopes.IsGlobal
      (Interpreter.new settings allowed).global (Native.select allowed) :=
  Forest.empty.isGlobal_add (globalNames_eq allowed)

/-- Its scopes developed from none. -/
theorem Interpreter.new_develops (settings : Settings) (allowed : List Text) :
    Forest.empty.Develops (Interpreter.new settings allowed).machine.scopes :=
  (Forest.Develops.refl _).step (.openGlobal (globalNames_eq allowed))

/-! ## §5. What a host can do. -/

/-- A call of a host. -/
inductive HostCall where
  /-- Limit, sink and what lies outside are set. -/
  | adjust (settings : Settings)
  /-- Containers are built and changed, in any way. -/
  | arrange (heap : Heap)
  /-- A scope without names is opened, inside another one or on its own. -/
  | openScope (parent : Option ScopeId)
  /-- A global scope with these functions is opened. -/
  | openGlobal (natives : List Native)
  /-- Another global scope like the session's own is opened. -/
  | openFresh
  /-- A name is declared. -/
  | declare (scope : ScopeId) (name : Text) (value : Value) (constant : Bool)
  /-- A name is assigned to. -/
  | assign (scope : ScopeId) (name : Text) (value : Value)
  /-- A tree is evaluated. -/
  | evaluate (scope : ScopeId) (node : Node)

namespace Interpreter

/-- The session with other scopes. -/
def withScopes (i : Interpreter) (scopes : Forest) : Interpreter :=
  { i with machine := { i.machine with scopes } }

/-- The session after a call.  A call that is refused changes nothing; an evaluation that
    stops leaves what it did. -/
def perform (i : Interpreter) : HostCall → Interpreter
  | .adjust settings => { i with settings }
  | .arrange heap => { i with machine := { i.machine with heap } }
  | .openScope parent => i.withScopes (i.machine.scopes.add .empty parent).2
  | .openGlobal natives =>
    match Forest.globalNames natives with
    | .ok names => i.withScopes (i.machine.scopes.add names none).2
    | .error _ => i
  | .openFresh => i.freshScope.2
  | .declare scope name value constant =>
    match i.machine.scopes.declare scope name value constant with
    | .ok scopes => i.withScopes scopes
    | .error _ => i
  | .assign scope name value =>
    match i.machine.scopes.assign scope name value with
    | .ok scopes => i.withScopes scopes
    | .error _ => i
  | .evaluate scope node => (i.evaluate scope node).2

theorem perform_openGlobal (i : Interpreter) {natives : List Native} {names : Names}
    (h : Forest.globalNames natives = .ok names) :
    i.perform (.openGlobal natives) = i.withScopes (i.machine.scopes.add names none).2 := by
  simp only [perform, h]

theorem perform_declare (i : Interpreter) {scope : ScopeId} {name : Text} {v : Value}
    {constant : Bool} {f : Forest} (h : i.machine.scopes.declare scope name v constant = .ok f) :
    i.perform (.declare scope name v constant) = i.withScopes f := by
  simp only [perform, h]

/-- The session after calls, one after the other. -/
def performAll (i : Interpreter) (calls : List HostCall) : Interpreter := calls.foldl perform i

/-- A call changes the settings of a session only by setting them. -/
theorem settings_perform (i : Interpreter) (call : HostCall) :
    (i.perform call).settings = i.settings ∨ call = .adjust (i.perform call).settings := by
  cases call with
  | adjust settings => exact .inr rfl
  | arrange | openScope | openFresh => exact .inl rfl
  | openGlobal natives =>
    simp only [perform]
    split <;> exact .inl rfl
  | declare | assign =>
    simp only [perform]
    split <;> exact .inl rfl
  | evaluate scope node => exact .inl (i.settings_evaluate scope node)

/-- An evaluation develops the scopes. -/
theorem develops_evaluate (i : Interpreter) (hhost : i.settings.outside.DevelopsScopes)
    (scope : ScopeId) (node : Node) :
    i.machine.scopes.Develops (i.evaluate scope node).2.machine.scopes :=
  Upkeep.holds_evaluate (i.machine.scopes.development scope) i
    (Forest.development_tolerates hhost _ scope) node (.refl _)

/-- One call develops the scopes. -/
theorem develops_perform (i : Interpreter) (hhost : i.settings.outside.DevelopsScopes)
    (call : HostCall) : i.machine.scopes.Develops (i.perform call).machine.scopes := by
  have hself := Forest.Develops.refl i.machine.scopes
  cases call with
  | adjust settings => exact hself
  | arrange heap => exact hself
  | openScope parent => exact hself.step (.openScope parent)
  | openGlobal natives =>
    cases hnames : Forest.globalNames natives with
    | ok names =>
      rw [i.perform_openGlobal hnames]
      exact hself.step (.openGlobal hnames)
    | error e =>
      simp only [perform, hnames]
      exact hself
  | openFresh => exact hself.step (.openGlobal (globalNames_eq i.allowed))
  | declare scope name value constant =>
    cases hf : i.machine.scopes.declare scope name value constant with
    | ok scopes =>
      rw [i.perform_declare hf]
      exact hself.step (.declare hf)
    | error e =>
      simp only [perform, hf]
      exact hself
  | assign scope name value =>
    cases hf : i.machine.scopes.assign scope name value with
    | ok scopes =>
      simp only [perform, hf]
      exact hself.step (.assign hf)
    | error e =>
      simp only [perform, hf]
      exact hself
  | evaluate scope node => exact i.develops_evaluate hhost scope node

/-- And so do any number of calls, if only such functions are set. -/
theorem develops_performAll (i : Interpreter) (hhost : i.settings.outside.DevelopsScopes)
    {calls : List HostCall}
    (hset : ∀ settings, .adjust settings ∈ calls → settings.outside.DevelopsScopes) :
    i.machine.scopes.Develops (i.performAll calls).machine.scopes := by
  induction calls generalizing i with
  | nil => exact .refl _
  | cons call calls ih =>
    have hhost' : (i.perform call).settings.outside.DevelopsScopes := by
      rcases i.settings_perform call with hsame | hadjust
      · rw [hsame]
        exact hhost
      · exact hset _ (hadjust ▸ List.mem_cons_self)
    have hrest := ih (i.perform call) hhost' fun settings h =>
      hset settings (List.mem_cons_of_mem _ h)
    show i.machine.scopes.Develops ((i.perform call).performAll calls).machine.scopes
    exact (i.develops_perform hhost call).trans hrest

end Interpreter

/-! ## §6. Declarations. -/

/-- A constant that is declared is bound. -/
theorem Forest.get?_of_declare {f f' : Forest} {e : ScopeId} {name : Text} {v : Value}
    (he : e < f.size) (hf : f.declare e name v true = .ok f') :
    (f'.bindings e).get? name = some ⟨v, true⟩ := by
  obtain ⟨_, rfl⟩ := declare_eq_ok hf
  rw [get?_bind f he, if_pos ⟨rfl, rfl⟩]
  rfl

/-- A declaration of a script that succeeds binds the constant to the value that it gives. -/
theorem evalStatement_binds {settings : Settings} (hhost : settings.outside.DevelopsScopes)
    (scope : ScopeId) (span : Span) (name : Text) (value : Expr) (m : Machine)
    (hscope : scope < m.scopes.size) :
    (evalStatement settings scope (.declaration span true name value)).Ensures m
      (fun v m' => (m'.scopes.bindings scope).get? name = some ⟨v, true⟩) fun _ _ => True := by
  -- whatever the value does before the name is bound, the scope stays where it is
  have hstay := Forest.Develops.refl m.scopes
  have hbind : ∀ v m', m.scopes.Develops m'.scopes →
      (Eval.declare scope name v true span.start).Ensures m'
        (fun w m'' => (m''.scopes.bindings scope).get? name = some ⟨w, true⟩)
        fun _ _ => True := by
    intro v m' hm'
    unfold Eval.Ensures Eval.declare Eval.located
    simp only [bind, EStateM.bind, get, getThe, MonadStateOf.get, EStateM.get]
    cases hf : m'.scopes.declare scope name v true with
    | ok f => exact Forest.get?_of_declare (Nat.lt_of_lt_of_le hscope hm'.retained.scopes) hf
    | error e => trivial
  let u := m.scopes.development scope
  rw [evalStatement_declaration]
  apply Eval.Ensures.bind
  apply (Upkeep.visit_keeps (u := u) settings span.start m hstay).imp _ fun _ _ _ => trivial
  rintro _ m₁ ⟨hm₁, _⟩
  apply Eval.Ensures.bind
  apply (Upkeep.checkUndeclared_keeps (u := u) m₁ hm₁).imp _ fun _ _ _ => trivial
  rintro _ m₂ ⟨hm₂, _⟩
  by_cases habsent : value.isAbsent = true
  · rw [if_pos habsent]
    exact Eval.Ensures.bind (hbind .null m₂ hm₂)
  · rw [if_neg habsent]
    have hvalue := Upkeep.evalExpr_keeps (Forest.development_tolerates hhost m.scopes scope) value
    apply Eval.Ensures.bind
    apply (hvalue m₂ hm₂).imp _ fun _ _ _ => trivial
    rintro v m₃ ⟨hm₃, _⟩
    exact hbind v m₃ hm₃

/-- In a session, such a declaration binds the constant as well. -/
theorem Interpreter.evaluate_binds (i : Interpreter)
    (hhost : i.settings.outside.DevelopsScopes) {scope : ScopeId} {span : Span} {name : Text}
    {value : Expr} {v : Value} (hscope : scope < i.machine.scopes.size)
    (hv : (i.evaluate scope (.statement (.declaration span true name value))).1 = .ok v) :
    ((i.evaluate scope (.statement (.declaration span true name value))).2.machine.scopes.bindings
      scope).get? name = some ⟨v, true⟩ := by
  have hrun : (evalNode i.settings scope (.statement (.declaration span true name value))).Ensures
      i.start _ _ := evalStatement_binds hhost scope span name value i.start hscope
  rcases Interpreter.evaluate_ensures hrun with
    ⟨w, hw, hbound⟩ | ⟨s, hs, _⟩
  · rw [hv] at hw
    cases hw
    exact hbound
  · rw [hv] at hs
    cases hs

/-! ## §7. Constants are permanent. -/

/-- **Constants are permanent.**  Let functions of the host, if they change scopes, do it by
    opening scopes, declaring and assigning, and let a host make any calls: open scopes,
    declare and assign names, change containers and evaluate any trees, with success or
    without.  If the scopes came about like this from none, every name that a scope marks as a
    constant is bound there.  A name that a scope binds stays bound there, a variable as a
    variable, a constant as a constant and to the same value.  A constant that a host or a
    script declares holds the value of its declaration ever after, also while the script goes
    on.  So `true`, `false`, `null` and the functions of a global scope are what they were
    when it was opened. -/
theorem constants_are_permanent (i : Interpreter)
    (hhost : i.settings.outside.DevelopsScopes) (calls : List HostCall)
    (hset : ∀ settings, .adjust settings ∈ calls → settings.outside.DevelopsScopes) :
    (Forest.empty.Develops i.machine.scopes →
      Forest.empty.Develops (i.performAll calls).machine.scopes ∧
      ∀ scope name, (i.performAll calls).machine.scopes.isConstant scope name = true →
        (i.performAll calls).machine.scopes.binds scope name = true) ∧
    (∀ (scope : ScopeId) (name : Text) (b : Binding),
      (i.machine.scopes.bindings scope).get? name = some b →
      ∃ v, ((i.performAll calls).machine.scopes.bindings scope).get? name =
          some ⟨v, b.constant⟩ ∧ (b.constant = true → v = b.value)) ∧
    (∀ (scope : ScopeId) (name : Text) (v : Value),
      scope < i.machine.scopes.size → i.machine.scopes.binds scope name = false →
      (((i.perform (.declare scope name v true)).performAll calls).machine.scopes.bindings
        scope).get? name = some ⟨v, true⟩) ∧
    (∀ (scope : ScopeId) (span : Span) (name : Text) (value : Expr) (v : Value),
      scope < i.machine.scopes.size →
      (i.evaluate scope (.statement (.declaration span true name value))).1 = .ok v →
      (((i.evaluate scope (.statement (.declaration span true name value))).2.performAll
        calls).machine.scopes.bindings scope).get? name = some ⟨v, true⟩) ∧
    (∀ (scope : ScopeId) (span : Span) (name : Text) (value : Expr) (index : Nat)
      (rest : List Statement) (m m' : Machine) (v : Value), scope < m.scopes.size →
      evalStatement i.settings scope (.declaration span true name value) m = .ok v m' →
      ((outcomeOf (evalBody i.settings scope index v rest m')).2.scopes.bindings scope).get?
        name = some ⟨v, true⟩) ∧
    (∀ (natives : List Native) (names : Names), Forest.globalNames natives = .ok names →
      ((i.perform (.openGlobal natives)).performAll calls).machine.scopes.IsGlobal
        i.machine.scopes.size natives) ∧
    ∀ (allowed : List Text),
      let j := Interpreter.new i.settings allowed
      Forest.empty.Develops j.machine.scopes ∧
      (j.performAll calls).machine.scopes.IsGlobal j.global (Native.select allowed) := by
  have hretained : ∀ j : Interpreter, j.settings = i.settings →
      j.machine.scopes.RetainedBy (j.performAll calls).machine.scopes := by
    intro j hj
    have hdevelops := j.develops_performAll (by rw [hj]; exact hhost) hset
    exact hdevelops.retained
  refine ⟨?_, ?_, ?_, ?_, ?_, ?_, ?_⟩
  · intro hbuilt
    have hdevelops := Forest.Develops.trans hbuilt (i.develops_performAll hhost hset)
    exact ⟨hdevelops, hdevelops.marksBound .empty⟩
  · intro scope name b hb
    exact (hretained i rfl).names scope name b hb
  · intro scope name v hscope hfree
    -- the name is free, so the declaration succeeds
    have hdeclare : ∃ f, i.machine.scopes.declare scope name v true = .ok f := by
      unfold Forest.declare
      rw [hfree]
      exact ⟨_, rfl⟩
    obtain ⟨f, hf⟩ := hdeclare
    have hbound := Forest.get?_of_declare hscope hf
    rw [i.perform_declare hf]
    exact (hretained (i.withScopes f) rfl).constant hbound
  · intro scope span name value v hscope hv
    have hbound := i.evaluate_binds hhost hscope hv
    exact (hretained _ (i.settings_evaluate scope _)).constant hbound
  · intro scope span name value index rest m m' v hscope hv
    have hbound := evalStatement_binds hhost scope span name value m hscope
    unfold Eval.Ensures at hbound
    rw [hv] at hbound
    -- the statements that follow retain the scopes as the declaration left them
    have hlast : v.Within fun _ => True := fun _ _ => trivial
    have hkeeps := Upkeep.evalBody_keeps (Forest.development_tolerates hhost m'.scopes scope)
      rest index hlast
    have hrest := hkeeps m' (.refl _)
    unfold Eval.Ensures at hrest
    cases he : evalBody i.settings scope index v rest m' with
    | ok w m'' =>
      rw [he] at hrest
      exact (Forest.Develops.retained hrest.1).constant hbound
    | error s m'' =>
      rw [he] at hrest
      exact (Forest.Develops.retained hrest).constant hbound
  · intro natives names hnames
    have hglobal := i.machine.scopes.isGlobal_add hnames
    rw [i.perform_openGlobal hnames]
    exact hglobal.retained (hretained (i.withScopes _) rfl)
  · intro allowed j
    have hglobal := Interpreter.new_isGlobal i.settings allowed
    exact ⟨Interpreter.new_develops i.settings allowed, hglobal.retained (hretained j rfl)⟩

/-- A function of the host that declares its argument under the name `echo`, in the scope of
    its caller, and fails if it has none. -/
def declaring : HostFunction := fun scope args =>
  match args with
  | v :: _ => Eval.declare scope "echo" v false .unknown
  | [] => throw (.outside "no argument")

/-- It declares names, and does nothing else to scopes. -/
theorem declaring_developsScopes :
    ({ Outside.bare with functions := fun _ => declaring } : Outside).DevelopsScopes := by
  intro handle scope args m
  cases args with
  | nil => exact Forest.Develops.refl m.scopes
  | cons v rest =>
    show (Eval.declare scope "echo" v false .unknown).Ensures m _ _
    unfold Eval.Ensures Eval.declare Eval.located
    simp only [bind, EStateM.bind, get, getThe, MonadStateOf.get, EStateM.get]
    cases hf : m.scopes.declare scope "echo" v false with
    | ok f => exact (Forest.Develops.refl _).step (.declare hf)
    | error e => exact Forest.Develops.refl m.scopes

/-- A host declares a constant, and after it a script does.  Assigning to them and declaring
    them again is in vain, from inside another scope too, and when a function of the host
    declares names as well. -/
theorem constants_are_permanent_overwritten :
    let o : Outside := { Outside.bare with functions := fun _ => declaring }
    let i := Interpreter.new ⟨0, .collect, o⟩ []
    let high := Expr.string .unknown "high"
    let calls : List HostCall := [.declare 0 "f" (.native ⟨"f", -1, .host 0⟩) false,
      .assign 0 "limit" .null, .openScope (some 0),
      .evaluate 1 (.ofExpr (.assign .unknown (.identifier .unknown "limit") high)),
      .evaluate 0 (.ofExpr (.call .unknown (.identifier .unknown "f") [high])),
      .evaluate 0 (.statement (.declaration .unknown false "limit" .absent))]
    i.settings.outside.DevelopsScopes ∧
      (∀ settings, .adjust settings ∈ calls → settings.outside.DevelopsScopes) ∧
      i.machine.scopes.binds 0 "limit" = false ∧
      (((i.perform (.declare 0 "limit" (.number 5) true)).performAll calls).machine.scopes.bindings
        0).get? "limit" = some ⟨.number 5, true⟩ ∧
      (((i.perform (.declare 0 "limit" (.number 5) true)).performAll calls).machine.scopes.bindings
        0).get? "echo" = some ⟨.string "high", false⟩ ∧
      (i.evaluate 0 (.statement (.declaration .unknown true "limit" high))).1 =
        .ok (.string "high") ∧
      (((i.evaluate 0 (.statement (.declaration .unknown true "limit" high))).2.performAll
        calls).machine.scopes.bindings 0).get? "limit" = some ⟨.string "high", true⟩ := by
  intro o i high calls
  have hset : ∀ settings, .adjust settings ∈ calls → settings.outside.DevelopsScopes := by
    intro settings h
    simp [calls] at h
  obtain ⟨_, _, hhost, hscript, _⟩ :=
    constants_are_permanent i declaring_developsScopes calls hset
  have hfree : i.machine.scopes.binds 0 "limit" = false := by decide
  have hdeclared : (((i.perform (.declare 0 "limit" (.number 5) true)).performAll
      calls).machine.scopes.bindings 0).get? "echo" = some ⟨.string "high", false⟩ := by cbv
  have hvalue : (i.evaluate 0 (.statement (.declaration .unknown true "limit" high))).1 =
      .ok (.string "high") := by cbv
  refine ⟨declaring_developsScopes, hset, hfree, hhost 0 "limit" (.number 5) (by decide) hfree,
    hdeclared, hvalue, ?_⟩
  exact hscript 0 .unknown "limit" high (.string "high") (by decide) hvalue

end Scriptorium
