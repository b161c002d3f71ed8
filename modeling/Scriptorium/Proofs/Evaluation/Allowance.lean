/-
  Scriptorium.Proofs.Evaluation.Allowance: scripts have the functions that they are allowed.

  A session may be restricted to some functions of the language.  Functions are values: a
  script can give them other names, put them into containers, hand them over and get them
  back.  Still there is no way to a function but from a value that was there before, so a
  script never gets hold of one that the first global scope did not hold.  The proof is a
  custody of functions: a value comes up only if it is no function or an allowed one.

  Main results:
    * `Forest.bindsExactly_add`: what a global scope binds, and that it binds nothing else.
    * `allowance`: no step of an evaluation brings another function up.
    * `scripts_have_only_allowed_functions`: sessions, at every moment of every evaluation.
-/

import Scriptorium.Proofs.Evaluation.Constants
import Scriptorium.Proofs.Evaluation.Limit
import Scriptorium.Proofs.Evaluation.Session

namespace Scriptorium

/-! ## §1. Global scopes. -/

/-- Whether a session that is restricted to these names has the function; all functions of
    the language are allowed where no name is given. -/
def Native.Allowed (allowed : List Text) (fn : Native) : Prop :=
  fn ∈ table ∧ (allowed = [] ∨ fn.name ∈ allowed)

namespace Forest

/-- Whether the scope binds `true`, `false`, `null` and the allowed functions, all of them as
    constants, and binds nothing else. -/
def BindsExactly (f : Forest) (e : ScopeId) (allowed : List Text) : Prop :=
  ∀ name b, (f.bindings e).get? name = some b ↔
    b.constant = true ∧
      (name = "true" ∧ b.value = .boolean true ∨ name = "false" ∧ b.value = .boolean false ∨
        name = "null" ∧ b.value = .null ∨
        ∃ fn : Native, fn.Allowed allowed ∧ name = fn.name ∧ b.value = .native fn)

/-- What is bound after constants were declared was bound before or is one of them. -/
theorem get?_declareConstants_iff {n n' : Names} {constants : List (Text × Value)}
    (h : declareConstants n constants = .ok n') (name : Text) (b : Binding) :
    n'.bindings.get? name = some b ↔
      n.bindings.get? name = some b ∨ b.constant = true ∧ (name, b.value) ∈ constants := by
  obtain ⟨hkept, hnew⟩ := get?_of_declareConstants h
  constructor
  · clear hkept hnew
    intro hb
    induction constants generalizing n with
    | nil =>
      cases h
      exact .inl hb
    | cons c rest ih =>
      obtain ⟨first, value⟩ := c
      unfold declareConstants at h
      split at h
      · cases h
      · rcases ih h with hbefore | ⟨hconstant, hrest⟩
        · rw [Names.get?_bindings_bind] at hbefore
          split at hbefore
          · next hfirst =>
            subst hfirst
            cases hbefore
            exact .inr ⟨rfl, List.mem_cons_self⟩
          · exact .inl hbefore
        · exact .inr ⟨hconstant, List.mem_cons_of_mem _ hrest⟩
  · rintro (hb | ⟨hconstant, hmem⟩)
    · exact hkept name b hb
    · obtain ⟨value, constant⟩ := b
      cases hconstant
      exact hnew (name, value) hmem

/-- A scope that is opened as a global one for the allowed functions binds just these. -/
theorem bindsExactly_add (f : Forest) (allowed : List Text) :
    (f.add (Interpreter.globalNames allowed) none).2.BindsExactly f.size allowed := by
  intro name b
  have hown : (f.add (Interpreter.globalNames allowed) none).2.bindings f.size =
      (Interpreter.globalNames allowed).bindings := by
    unfold bindings
    rw [names_add, if_pos rfl]
  rw [hown, get?_declareConstants_iff (Interpreter.globalNames_eq allowed)]
  have hempty : Names.empty.bindings.get? name ≠ some b := fun h => nomatch h
  simp only [hempty, false_or, List.mem_append, List.mem_cons, List.not_mem_nil, or_false,
    Prod.mk.injEq, List.mem_map, or_assoc]
  -- both sides list the three constants and then the functions
  have hfunctions : (∃ fn ∈ Native.select allowed, fn.name = name ∧ Value.native fn = b.value) ↔
      ∃ fn : Native, fn.Allowed allowed ∧ name = fn.name ∧ b.value = .native fn := by
    constructor
    · rintro ⟨fn, hfn, hname, hvalue⟩
      exact ⟨fn, Native.mem_select.1 hfn, hname.symm, hvalue.symm⟩
    · rintro ⟨fn, hfn, hname, hvalue⟩
      exact ⟨fn, Native.mem_select.2 hfn, hname.symm, hvalue.symm⟩
  rw [hfunctions]

end Forest

/-! ## §2. States with no other functions. -/

/-- Whether the value, if it is a function, is one of these. -/
def Value.LimitedTo (natives : List Native) (v : Value) : Prop :=
  ∀ fn, v = .native fn → fn ∈ natives

/-- Whether no other function is stored in the state, and nothing was printed unless one of
    these functions prints. -/
structure Machine.LimitedTo (natives : List Native) (m : Machine) : Prop where
  bound : m.scopes.AllBound (Value.LimitedTo natives)
  contained : ∀ a c, m.heap.get? a = some c → ∀ v, c.Holds v → v.LimitedTo natives
  silent : (∀ fn ∈ natives, fn.action ≠ .print) → m.output = []

section Limited

variable {natives : List Native} {m : Machine} {v : Value}

theorem Value.LimitedTo.of_ne (h : ∀ fn, v ≠ .native fn) : v.LimitedTo natives :=
  fun fn hfn => absurd hfn (h fn)

/-- What is stored in the state is bound or contained there. -/
theorem Machine.LimitedTo.stores (h : m.LimitedTo natives) (hv : m.Stores v) :
    v.LimitedTo natives := by
  cases hv with
  | @binding scope name v hbound => exact h.bound scope name v hbound
  | @field a fields key v hobject hmember => exact h.contained a _ hobject v ⟨key, hmember⟩
  | @item a items v hlist hmember => exact h.contained a _ hlist v hmember

/-- A state in which no other functions than those of the language are stored. -/
theorem Machine.LimitedTo.of_stores (h : ∀ fn, m.Stores (.native fn) → fn ∈ Native.table) :
    m.LimitedTo (Native.select []) where
  bound := by
    intro e name v hv fn hfn
    exact h fn (hfn ▸ .binding hv)
  contained := by
    intro a c hc v hv fn hfn
    cases c with
    | object fields =>
      obtain ⟨key, hkey⟩ := hv
      exact h fn (hfn ▸ .field hc hkey)
    | list items => exact h fn (hfn ▸ .item hc hv)
  silent := by
    -- `print` is one of them
    intro hsilent
    exact absurd rfl (hsilent ⟨"print", -1, .print⟩ (by decide))

/-- **No step of an evaluation brings another function up.** -/
def allowance (natives : List Native) (scope : ScopeId) : Custody scope where
  holds := Machine.LimitedTo natives
  leads := fun _ _ => True
  fits := Value.LimitedTo natives
  refl := fun _ => trivial
  trans := fun _ _ _ _ _ => trivial
  plain := fun _ _ hplain => .of_ne hplain
  noted := fun _ _ _ _ h => ⟨⟨h.bound, h.contained, h.silent⟩, trivial⟩
  printed := fun _ fn _ h hfn hprint =>
    ⟨⟨h.bound, h.contained, fun hsilent => absurd hprint (hsilent fn (hfn fn rfl))⟩, trivial⟩
  lookup := fun _ _ _ h hv => h.bound.lookup hv
  declare := fun _ _ _ _ _ h hv hf => ⟨⟨h.bound.declare hv hf, h.contained, h.silent⟩, trivial⟩
  assign := fun _ _ _ _ h hv hf => ⟨⟨h.bound.assign hv hf, h.contained, h.silent⟩, trivial⟩
  alloc := by
    intro m c h _ hc
    refine ⟨⟨⟨h.bound, ?_, h.silent⟩, trivial⟩, .of_ne fun _ href => nomatch href⟩
    intro a c' hget
    rw [Heap.get?_alloc] at hget
    split at hget
    · cases hget
      exact hc
    · exact h.contained a c' hget
  read := fun _ a c h _ hget => h.contained a c hget
  write := by
    intro m a old c h _ _ _ hc
    refine ⟨⟨h.bound, ?_, h.silent⟩, trivial⟩
    intro b c' hget
    rw [Heap.get?_set] at hget
    split at hget
    · obtain ⟨_, _, rfl⟩ := Option.map_eq_some_iff.1 hget
      exact hc
    · exact h.contained b c' hget

/-- No function of a host comes up. -/
theorem action_ne_host_of_allowance {allowed : List Text} {scope : ScopeId} {fn : Native}
    (hfn : (allowance (Native.select allowed) scope).fits (.native fn)) (handle : Nat) :
    fn.action ≠ .host handle := by
  have hown : ∀ fn ∈ Native.table, fn.action ≠ .host handle := by
    simp [Native.table]
  obtain ⟨htable, _⟩ := Native.mem_select.1 (hfn fn rfl)
  exact hown fn htable

/-- So nothing is asked of the functions of a host. -/
theorem allowance_tolerates (allowed : List Text) (scope : ScopeId) (o : Outside) :
    (allowance (Native.select allowed) scope).Tolerates o :=
  fun _ handle _ hfn haction => absurd haction (action_ne_host_of_allowance hfn handle)

theorem Interpreter.globalNames_limited (allowed : List Text) :
    (globalNames allowed).values.All (Value.LimitedTo (Native.select allowed)) := by
  refine Forest.globalNames_all ?_ ?_ (globalNames_eq allowed)
  · intro v hv
    apply Value.LimitedTo.of_ne
    rintro fn rfl
    simp at hv
  · intro fn hfn other hother
    cases hother
    exact hfn

end Limited

/-! ## §3. Restricted sessions. -/

namespace Interpreter

/-- The sessions that come about from a new one with this restriction. -/
inductive Restricted (allowed : List Text) : Interpreter → Prop where
  /-- A new session. -/
  | new (settings : Settings) : Restricted allowed (.new settings allowed)
  /-- Limit, sink and what lies outside may be others for every evaluation. -/
  | adjust {i} (settings : Settings) (before : Restricted allowed i) :
      Restricted allowed { i with settings }
  /-- Another global scope. -/
  | freshScope {i} (before : Restricted allowed i) : Restricted allowed i.freshScope.2
  /-- A scope inside another one. -/
  | extend {i} (parent : ScopeId) (before : Restricted allowed i) :
      Restricted allowed (i.extend parent).2
  /-- The evaluation of a tree, whatever comes of it. -/
  | evaluate {i} (scope : ScopeId) (node : Node) (before : Restricted allowed i) :
      Restricted allowed (i.evaluate scope node).2
  /-- The evaluation of a script, whether it can be read or not. -/
  | evaluateSource {i} (scope : ScopeId) (source : Text) (before : Restricted allowed i) :
      Restricted allowed (i.evaluateSource scope source).2

variable {allowed : List Text} {i : Interpreter}

theorem allowed_evaluate (i : Interpreter) (scope : ScopeId) (node : Node) :
    (i.evaluate scope node).2.allowed = i.allowed := by
  unfold evaluate
  split
  · rfl
  · rfl

theorem evaluateSource_of_read {source : Text} {p : Program}
    (hp : Program.parse source = .ok p) (i : Interpreter) (scope : ScopeId) :
    i.evaluateSource scope source = i.evaluate scope (.program p) := by
  unfold evaluateSource
  rw [hp]

theorem evaluateSource_of_refused {source : Text} {e : Error}
    (he : Program.parse source = .error e) (i : Interpreter) (scope : ScopeId) :
    i.evaluateSource scope source = (.error (.error e),
      { i with machine := i.machine.hushed }) := by
  unfold evaluateSource
  rw [he]

/-- An evaluation starts with nothing printed. -/
theorem start_limited {natives : List Native} (h : i.machine.LimitedTo natives) :
    i.start.LimitedTo natives :=
  ⟨h.bound, h.contained, fun _ => rfl⟩

theorem evaluate_limited (h : i.machine.LimitedTo (Native.select allowed)) (scope : ScopeId)
    (node : Node) : (i.evaluate scope node).2.machine.LimitedTo (Native.select allowed) :=
  Custody.holds_evaluate i (allowance_tolerates allowed scope _) node (start_limited h)

/-- Where no function of a host is stored, what every step of the language keeps, an
    evaluation keeps. -/
theorem holds_evaluate_own {scope : ScopeId} (c : Custody scope)
    (hown : ∀ fn, i.machine.Stores (.native fn) → fn ∈ Native.table) (node : Node)
    (h : c.holds i.start) : c.holds (i.evaluate scope node).2.machine := by
  let d := c.meet (allowance (Native.select []) scope)
  have htolerated : d.Tolerates i.settings.outside := fun _ handle _ hfn haction =>
    absurd haction (action_ne_host_of_allowance hfn.2 handle)
  have hlimited : i.machine.LimitedTo (Native.select []) := .of_stores hown
  exact (Custody.holds_evaluate i htolerated node ⟨h, start_limited hlimited⟩).1

/-- A restricted session stays restricted, and stores no other functions. -/
theorem Restricted.limited (h : i.Restricted allowed) :
    i.allowed = allowed ∧ i.machine.LimitedTo (Native.select allowed) := by
  induction h with
  | new settings =>
    refine ⟨rfl, Forest.AllBound.empty.add (globalNames_limited allowed) none, ?_, fun _ => rfl⟩
    -- there are no containers yet
    intro a c hc
    exact absurd (Heap.lt_size_of_get? hc) (Nat.not_lt_zero a)
  | adjust settings _ ih => exact ih
  | freshScope _ ih =>
    obtain ⟨hallowed, hlimited⟩ := ih
    refine ⟨hallowed, hlimited.bound.add ?_ none, hlimited.contained, hlimited.silent⟩
    rw [hallowed]
    exact globalNames_limited allowed
  | extend parent _ ih =>
    obtain ⟨hallowed, hlimited⟩ := ih
    exact ⟨hallowed, hlimited.bound.add Table.all_empty (some parent), hlimited.contained,
      hlimited.silent⟩
  | @evaluate i scope node _ ih =>
    exact ⟨(i.allowed_evaluate scope node).trans ih.1, evaluate_limited ih.2 scope node⟩
  | @evaluateSource i scope source _ ih =>
    cases hp : Program.parse source with
    | ok p =>
      rw [evaluateSource_of_read hp]
      exact ⟨(i.allowed_evaluate scope _).trans ih.1, evaluate_limited ih.2 scope _⟩
    | error e =>
      rw [evaluateSource_of_refused hp]
      exact ⟨ih.1, ih.2.bound, ih.2.contained, fun _ => rfl⟩

end Interpreter

/-- A part of a tree, evaluated in a state with these functions only, gives no other one. -/
theorem Machine.LimitedTo.evalNode {allowed : List Text} {m : Machine}
    (h : m.LimitedTo (Native.select allowed)) {settings : Settings} {scope : ScopeId}
    {node : Node} {v : Value} {m' : Machine}
    (hv : evalNode settings scope node m = .ok v m') : v.LimitedTo (Native.select allowed) := by
  have hrun := Custody.evalNode_keeps (allowance_tolerates allowed scope settings.outside) node m h
  unfold Eval.Ensures at hrun
  rw [hv] at hrun
  exact hrun.2

/-- `print` is the only function of the language that prints. -/
theorem Native.not_print_of_select {allowed : List Text} (hsome : allowed ≠ [])
    (hprint : Text.ofString "print" ∉ allowed) :
    ∀ fn ∈ Native.select allowed, fn.action ≠ .print := by
  intro fn hfn haction
  obtain ⟨htable, hname⟩ := Native.mem_select.1 hfn
  have honly : ∀ fn ∈ Native.table, fn.action = .print → fn.name = Text.ofString "print" := by
    decide
  have hfree := hname.resolve_left hsome
  rw [honly fn htable haction] at hfree
  exact hprint hfree

/-! ## §4. The allowed functions are all there are. -/

/-- **Scripts have only the functions that they are allowed.**  Whatever names a session is
    restricted to, its global scope can be opened, and it binds `true`, `false`, `null` and
    the functions of the language with these names (all of them, if no name is given), as
    constants, and nothing else; so does every further global scope of the session.  Let
    then any scripts and trees be evaluated, in any scopes, with success or without.  Every
    function that is stored between evaluations, in a scope or in a container, is an allowed
    one of the language; so is every one that is stored at any visit of an evaluation, every
    one that a visited part comes to, be it called, handed over or given back, and every one
    that an evaluation gives.  So if there are names and `print` is not one of them, nothing
    is printed at any time, whatever the sink. -/
theorem scripts_have_only_allowed_functions :
    (∀ (settings : Settings) (allowed : List Text),
      (∃ names, Forest.globalNames (Native.select allowed) = .ok names) ∧
      (Interpreter.new settings allowed).machine.scopes.BindsExactly
        (Interpreter.new settings allowed).global allowed) ∧
    ∀ (allowed : List Text) (i : Interpreter), i.Restricted allowed →
      i.freshScope.2.machine.scopes.BindsExactly i.freshScope.1 allowed ∧
      (∀ fn, i.machine.Stores (.native fn) → fn.Allowed allowed) ∧
      (∀ (scope : ScopeId) (node : Node),
        (∀ visit ∈ (i.record scope node).visits,
          (∀ fn, visit.state.Stores (.native fn) → fn.Allowed allowed) ∧
          ∀ settings fn m, evalNode settings scope visit.part visit.state = .ok (.native fn) m →
            fn.Allowed allowed) ∧
        ∀ fn, (i.evaluate scope node).1 = .ok (.native fn) → fn.Allowed allowed) ∧
      (∀ (scope : ScopeId) (source : Text) (fn : Native),
        (i.evaluateSource scope source).1 = .ok (.native fn) → fn.Allowed allowed) ∧
      (allowed ≠ [] → Text.ofString "print" ∉ allowed →
        i.printed = [] ∧ ∀ scope node, ∀ visit ∈ (i.record scope node).visits,
          visit.state.output = []) := by
  refine ⟨?_, ?_⟩
  · intro settings allowed
    exact ⟨Forest.exists_globalNames allowed, Forest.empty.bindsExactly_add allowed⟩
  · intro allowed i hi
    obtain ⟨hallowed, hlimited⟩ := hi.limited
    have hvisits : ∀ scope node, ∀ visit ∈ (i.record scope node).visits,
        visit.state.LimitedTo (Native.select allowed) := by
      intro scope node visit hvisit
      have htolerated := allowance_tolerates allowed scope i.settings.outside
      obtain ⟨hcourse, _⟩ := Custody.recordNode_sustains htolerated node i.start
        (Interpreter.start_limited hlimited)
      exact (hcourse.begins visit hvisit).holds
    have hvalue : ∀ scope node fn, (i.evaluate scope node).1 = .ok (.native fn) →
        fn.Allowed allowed := by
      intro scope node fn hfn
      have htolerated := allowance_tolerates allowed scope i.settings.outside
      have hrun := Custody.evalNode_keeps htolerated node i.start
        (Interpreter.start_limited hlimited)
      rcases Interpreter.evaluate_ensures hrun with ⟨v, hv, _, hfits⟩ | ⟨s, hs, _⟩
      · rw [hfn] at hv
        cases hv
        exact Native.mem_select.1 (hfits fn rfl)
      · rw [hfn] at hs
        cases hs
    refine ⟨?_, ?_, ?_, ?_, ?_⟩
    · have hfresh := i.machine.scopes.bindsExactly_add i.allowed
      rw [hallowed] at hfresh
      unfold Interpreter.freshScope
      rw [hallowed]
      exact hfresh
    · intro fn hfn
      exact Native.mem_select.1 (hlimited.stores hfn fn rfl)
    · intro scope node
      refine ⟨?_, hvalue scope node⟩
      intro visit hvisit
      have hstate := hvisits scope node visit hvisit
      constructor
      · intro fn hfn
        exact Native.mem_select.1 (hstate.stores hfn fn rfl)
      · intro settings fn m hv
        exact Native.mem_select.1 (hstate.evalNode hv fn rfl)
    · intro scope source fn hfn
      cases hp : Program.parse source with
      | ok p =>
        rw [Interpreter.evaluateSource_of_read hp] at hfn
        exact hvalue scope _ fn hfn
      | error e =>
        rw [Interpreter.evaluateSource_of_refused hp] at hfn
        cases hfn
    · intro hsome hprint
      have hsilent := Native.not_print_of_select hsome hprint
      refine ⟨hlimited.silent hsilent, ?_⟩
      exact fun scope node visit hvisit => (hvisits scope node visit hvisit).silent hsilent

/-- The names of a restriction: one is repeated, one is no function and one is unknown. -/
def greatestOnly : List Text := ["max", "true", "max", "unheard"]

/-- A session in which a script has put a function into an object and failed to print it. -/
def shelved : Interpreter :=
  ((Interpreter.new ⟨0, .collect, .bare⟩ greatestOnly).evaluateSource 0
    "let shelf = { top: max }; print(shelf)").2

/-- The next script gets the function back, and it is the one that is allowed. -/
theorem scripts_have_only_allowed_functions_shelved :
    shelved.Restricted greatestOnly ∧ greatestOnly ≠ [] ∧ Text.ofString "print" ∉ greatestOnly ∧
    (shelved.evaluateSource 0 "shelf.top").1 = .ok (.native ⟨"max", -1, .greatest⟩) ∧
    Native.Allowed greatestOnly ⟨"max", -1, .greatest⟩ ∧
    (∀ fn, shelved.machine.Stores (.native fn) → fn.Allowed greatestOnly) ∧
    shelved.printed = [] := by
  have hshelved : shelved.Restricted greatestOnly := .evaluateSource 0 _ (.new _)
  have hsome : greatestOnly ≠ [] := by decide
  have hprint : Text.ofString "print" ∉ greatestOnly := by decide
  have hvalue : (shelved.evaluateSource 0 "shelf.top").1 =
      .ok (.native ⟨"max", -1, .greatest⟩) := by decide +kernel
  obtain ⟨_, hstored, _, hgiven, hsilent⟩ :=
    scripts_have_only_allowed_functions.2 greatestOnly shelved hshelved
  exact ⟨hshelved, hsome, hprint, hvalue, hgiven 0 _ _ hvalue, hstored, (hsilent hsome hprint).1⟩

end Scriptorium
