/-
  Scriptorium.Proofs.Evaluation.Echo: what the steps between two visits depend on.

  Between two visits evaluation looks names up, changes bindings, reads and writes members
  and calls functions.  Except for printing, none of these steps of the language reads or
  changes the counter, the output or the log, and a place is only handed on to the errors
  they raise.  `Echoes tells x y` says both at once: `x` leaves them alone, and run from a
  state in which they are any others, `y` does what `x` does, with the errors that `tells`
  pairs with those of `x`.  No step complains about the limit.

  A function of the host may do anything.  `Quiet` is what the counter asks of it: that it
  leaves the counter alone, as a function does that does not evaluate anything itself.

  Everything that is proved about two evaluations side by side, or about the counter of
  one, rests on these lemmas; the steps themselves are not opened again.

  Main results:
    * `Echoes.bind`: echoing steps in a row echo.
    * `readMember_echoes`, `writeMember_echoes`, `lookup_echoes`, ...: the steps.
    * `Action.run_echoes`: every function of the language but `print`.
    * `Echoes.quiet`: a step that is echoed leaves the counter alone.
    * `callNative_quiet`: so does a call, which may only add to the output.
    * `Interpreter.evaluate_ensures`: from runs to evaluations in a session.
-/

import Scriptorium.Interpreter
import Scriptorium.Proofs.Evaluation.Safe
import Scriptorium.Tree.Walk

namespace Scriptorium

/-! ## §1. Stops that correspond. -/

/-- Whether the cause is the step limit. -/
def Cause.isLimit : Cause → Bool
  | .stepLimit _ => true
  | _ => false

/-- Whether the stop is a complaint about the step limit. -/
def Stop.isLimit : Stop → Bool
  | .error e => e.cause.isLimit
  | _ => false

/-- Whether two stops are the same, or errors of which one tells the other. -/
inductive Stop.Matches (tells : Error → Error → Prop) : Stop → Stop → Prop where
  | error {e e' : Error} (told : tells e e') : Matches tells (.error e) (.error e')
  | outside (message : Text) : Matches tells (.outside message) (.outside message)
  | defect (d : Defect) : Matches tells (.defect d) (.defect d)

/-- A rewriting of places, with the way in which errors at old and new places correspond. -/
structure Relocation where
  place : Position → Position
  /-- Which error is told in place of which. -/
  tells : Error → Error → Prop
  /-- Which errors came with a place of their own, which is not rewritten. -/
  own : Error → Prop
  /-- What has no place receives none. -/
  unknown : place .unknown = .unknown
  /-- An error that is raised at a place is raised at the new one. -/
  fail : ∀ cause pos, tells ⟨cause, pos⟩ ⟨cause, place pos⟩
  /-- An error that receives a place receives the new one. -/
  blame : ∀ (e : Error) (pos : Position), e.pos.isKnown = false ∨ own e →
    tells (e.locate pos) (e.locate (place pos))

namespace Relocation

/-- The rewriting of spans. -/
def span (r : Relocation) (s : Span) : Span := ⟨r.place s.start, r.place s.stop⟩

/-- An error without a place receives the new one. -/
theorem blame_new (r : Relocation) (e : Error) (pos : Position) (h : e.pos = .unknown) :
    r.tells (e.locate pos) (e.locate (r.place pos)) := by
  apply r.blame
  rw [h]
  exact .inl rfl

/-- Everything stays where it is. -/
def stay : Relocation where
  place := id
  tells := Eq
  own := fun _ => True
  unknown := rfl
  fail := fun cause pos => congrArg (Error.mk cause) (id_eq pos).symm
  blame := fun _ _ _ => rfl

/-- All places are forgotten, and errors correspond by their causes. -/
def forget : Relocation where
  place := fun _ => .unknown
  tells := fun e e' => e'.cause = e.cause
  own := fun _ => True
  unknown := rfl
  fail := fun _ _ => rfl
  blame := fun e pos _ => by rw [Error.cause_locate, Error.cause_locate]

end Relocation

/-! ## §2. Steps that echo each other. -/

/-- The state with the counter, the output and the log of another. -/
def Machine.dress (m d : Machine) : Machine :=
  { d with heap := m.heap, scopes := m.scopes, readings := m.readings }

namespace Eval

variable {α β : Type} {tells : Error → Error → Prop}

/-- A sequence goes on from where its first part ended. -/
theorem bind_ok {x : Eval α} {f : α → Eval β} {m n : Machine} {a : α} (h : x m = .ok a n) :
    (x >>= f) m = f a n := by
  show EStateM.bind x f m = _
  unfold EStateM.bind
  rw [h]

/-- A sequence stops where its first part stopped. -/
theorem bind_error {x : Eval α} {f : α → Eval β} {m n : Machine} {s : Stop}
    (h : x m = .error s n) : (x >>= f) m = .error s n := by
  show EStateM.bind x f m = _
  unfold EStateM.bind
  rw [h]

/-- Whether `x` leaves counter, output and log alone and `y` does what `x` does whatever
    they are, with errors told by `tells`, none of them about the limit. -/
def Echoes (tells : Error → Error → Prop) (x y : Eval α) : Prop :=
  ∀ m d : Machine,
    x.Ensures m (fun a m' => m'.dress m = m' ∧ y (m.dress d) = .ok a (m'.dress d))
      fun s m' => m'.dress m = m' ∧ s.isLimit = false ∧
        ∃ s', s.Matches tells s' ∧ y (m.dress d) = .error s' (m'.dress d)

theorem Echoes.pure (a : α) : Echoes tells (pure a) (pure a) :=
  fun _ _ => ⟨rfl, rfl⟩

/-- Echoing steps in a row echo. -/
theorem Echoes.bind {x y : Eval α} {f g : α → Eval β} (hx : Echoes tells x y)
    (hf : ∀ a, Echoes tells (f a) (g a)) : Echoes tells (x >>= f) (y >>= g) := by
  intro m d
  refine Ensures.bind ((hx m d).imp ?_ ?_)
  · intro a m' ⟨hkept, hy⟩
    -- the second step starts with the counter, output and log that the first one had
    have hkept' : ∀ m'' : Machine, m''.dress m' = m''.dress m := by
      intro m''
      rw [← hkept]
      rfl
    rw [bind_ok hy]
    refine (hf a m' d).imp ?_ ?_
    · intro b m'' ⟨hm'', hg⟩
      rw [hkept'] at hm''
      exact ⟨hm'', hg⟩
    · intro s m'' ⟨hm'', hg⟩
      rw [hkept'] at hm''
      exact ⟨hm'', hg⟩
  · intro s m' ⟨hkept, hlimit, s', hs', hy⟩
    exact ⟨hkept, hlimit, s', hs', bind_error hy⟩

theorem Echoes.fail {cause : Cause} {pos pos' : Position} (hlimit : cause.isLimit = false)
    (h : tells ⟨cause, pos⟩ ⟨cause, pos'⟩) :
    Echoes tells (fail cause pos : Eval α) (fail cause pos') :=
  fun _ _ => ⟨rfl, hlimit, _, .error h, rfl⟩

theorem Echoes.defect (d : Defect) : Echoes tells (defect d : Eval α) (defect d) :=
  fun _ _ => ⟨rfl, rfl, _, .defect d, rfl⟩

/-- What is read from the state must not come from the counter, the output or the log. -/
theorem Echoes.get {f g : Machine → Eval β} (h : ∀ m, Echoes tells (f m) (g m))
    (hg : ∀ m d : Machine, g (m.dress d) = g m) :
    Echoes tells (get >>= f) (get >>= g) := by
  intro m d
  have hrun := h m m d
  rw [← hg m d] at hrun
  exact hrun

/-- What is changed in the state must not be the counter, the output or the log. -/
theorem Echoes.modify {g : Machine → Machine} (hg : ∀ m d, g (m.dress d) = (g m).dress d) :
    Echoes tells (modify g) (modify g) := by
  intro m d
  refine ⟨(hg m m).symm, ?_⟩
  show EStateM.Result.ok () (g (m.dress d)) = .ok () ((g m).dress d)
  rw [hg]

/-- Whether the computation leaves the counter alone, adds to the output at most, and never
    complains about the limit. -/
def Quiet (x : Eval α) : Prop :=
  ∀ m : Machine,
    x.Ensures m (fun _ m' => m'.steps = m.steps ∧ m.output <+: m'.output)
      fun s m' => s.isLimit = false ∧ m'.steps = m.steps ∧ m.output <+: m'.output

/-- A step that is echoed is quiet. -/
theorem Echoes.quiet {x y : Eval α} (h : Echoes tells x y) : x.Quiet := by
  intro m
  refine (h m m).imp ?_ ?_
  · intro a m' ⟨hkept, _⟩
    rw [← hkept]
    exact ⟨rfl, List.prefix_refl _⟩
  · intro s m' ⟨hkept, hlimit, _⟩
    rw [← hkept]
    exact ⟨hlimit, rfl, List.prefix_refl _⟩

theorem Quiet.pure (a : α) : Quiet (pure a) :=
  fun _ => ⟨rfl, List.prefix_refl _⟩

theorem Quiet.fail {cause : Cause} (hlimit : cause.isLimit = false) (pos : Position) :
    Quiet (fail cause pos : Eval α) :=
  fun _ => ⟨hlimit, rfl, List.prefix_refl _⟩

theorem Quiet.defect (d : Defect) : Quiet (defect d : Eval α) :=
  fun _ => ⟨rfl, rfl, List.prefix_refl _⟩

/-- Writing to the log. -/
theorem Quiet.log (b : Begun) : Quiet (modify fun m => { m with log := m.log ++ [b] }) :=
  fun _ => ⟨rfl, List.prefix_refl _⟩

theorem Quiet.bind {x : Eval α} {f : α → Eval β} (hx : x.Quiet) (hf : ∀ a, (f a).Quiet) :
    (x >>= f).Quiet := by
  intro m
  refine Ensures.bind ((hx m).imp ?_ fun _ _ h => h)
  rintro a m' ⟨hsteps, houtput⟩
  refine (hf a m').imp ?_ ?_
  · rintro _ m'' ⟨hsteps', houtput'⟩
    exact ⟨hsteps'.trans hsteps, houtput.trans houtput'⟩
  · rintro _ m'' ⟨hlimit, hsteps', houtput'⟩
    exact ⟨hlimit, hsteps'.trans hsteps, houtput.trans houtput'⟩

/-! ## §3. The steps of evaluation. -/

/-- A visit is counted, and refused if the limit was used up before it. -/
theorem visit_eq (settings : Settings) (pos : Position) (m : Machine) :
    visit settings pos m =
      if 0 < settings.stepLimit ∧ settings.stepLimit ≤ m.steps then
        .error (.error ⟨.stepLimit settings.stepLimit, pos⟩) { m with steps := m.steps + 1 }
      else .ok () { m with steps := m.steps + 1 } := by
  have hiff : settings.stepLimit < (m.steps + 1 : Nat) ↔ settings.stepLimit ≤ m.steps := by omega
  show (if 0 < settings.stepLimit ∧ settings.stepLimit < (m.steps + 1 : Nat) then _ else _ :
    Eval Unit) _ = _
  simp only [hiff]
  split
  · rfl
  · rfl

/-- A complaint that names the kind of a value. -/
theorem failKind_echoes (v : Value) {complaint : Kind → Cause} {pos pos' : Position}
    (hlimit : ∀ kind, (complaint kind).isLimit = false)
    (h : ∀ kind, tells ⟨complaint kind, pos⟩ ⟨complaint kind, pos'⟩) :
    Echoes tells (do fail (complaint (← kindOf v)) pos : Eval α)
      (do fail (complaint (← kindOf v)) pos') := by
  have hkind : Echoes tells (kindOf v) (kindOf v) := by
    refine Echoes.get (fun m => ?_) fun _ _ => rfl
    split
    · exact Echoes.pure _
    · exact Echoes.defect _
  exact hkind.bind fun kind => Echoes.fail (hlimit kind) (h kind)

theorem alloc_echoes (c : Container) : Echoes tells (alloc c) (alloc c) :=
  fun _ _ => ⟨rfl, rfl⟩

/-- How often the clock was read is no secret of one run. -/
theorem readClock_echoes (clock : Nat → Float) :
    Echoes tells (readClock clock) (readClock clock) :=
  fun _ _ => ⟨rfl, rfl⟩

section Names

variable {pos pos' : Position} {scope : ScopeId} {name : Text} {v : Value}

/-- A result that is no error, or one that still has to receive its place. -/
theorem located_echoes {result : Except Error α}
    (h : ∀ e, result = .error e →
      e.cause.isLimit = false ∧ tells (e.locate pos) (e.locate pos')) :
    Echoes tells (located pos result) (located pos' result) := by
  cases result with
  | ok a => exact Echoes.pure a
  | error e =>
    obtain ⟨hlimit, htells⟩ := h e rfl
    intro m d
    refine ⟨rfl, ?_, _, .error htells, rfl⟩
    show (e.locate pos).cause.isLimit = false
    rw [Error.cause_locate]
    exact hlimit

variable (hblame : ∀ e : Error, e.pos = .unknown → tells (e.locate pos) (e.locate pos'))

include hblame

theorem resolve_tells {f : Forest} {e : Error} (h : f.resolve scope name = .error e) :
    e.cause.isLimit = false ∧ tells (e.locate pos) (e.locate pos') := by
  unfold Forest.resolve at h
  split at h
  · cases h
  · cases h
    exact ⟨rfl, hblame _ rfl⟩

theorem lookup_echoes : Echoes tells (lookup scope name pos) (lookup scope name pos') := by
  refine Echoes.get (fun m => located_echoes ?_) fun _ _ => rfl
  intro e he
  unfold Forest.lookup at he
  split at he
  · next herror =>
    cases he
    exact resolve_tells hblame herror
  · cases he

omit hblame in
/-- Changing the scopes. -/
theorem rebind_echoes (change : Forest → Except Error Forest)
    (h : ∀ f e, change f = .error e →
      e.cause.isLimit = false ∧ tells (e.locate pos) (e.locate pos')) :
    Echoes tells
      (do
        let scopes ← located pos (change (← get).scopes)
        modify fun m => { m with scopes }
        return v)
      (do
        let scopes ← located pos' (change (← get).scopes)
        modify fun m => { m with scopes }
        return v) := by
  refine Echoes.get (fun m => ?_) fun _ _ => rfl
  refine (located_echoes (h m.scopes)).bind fun scopes => ?_
  exact (Echoes.modify fun _ _ => rfl).bind fun _ => Echoes.pure v

theorem declare_echoes {constant : Bool} :
    Echoes tells (declare scope name v constant pos) (declare scope name v constant pos') := by
  refine rebind_echoes (fun f => f.declare scope name v constant) fun f e he => ?_
  unfold Forest.declare at he
  split at he
  · cases he
    exact ⟨rfl, hblame _ rfl⟩
  · cases he

theorem assign_echoes : Echoes tells (assign scope name v pos) (assign scope name v pos') := by
  refine rebind_echoes (fun f => f.assign scope name v) fun f e he => ?_
  unfold Forest.assign at he
  split at he
  · next herror =>
    cases he
    exact resolve_tells hblame herror
  · split at he
    · cases he
      exact ⟨rfl, hblame _ rfl⟩
    · cases he

omit hblame

/-- With one place for both sides, errors are the same. -/
theorem lookup_quiet : (lookup scope name pos).Quiet := by
  have h : Echoes Eq (lookup scope name pos) (lookup scope name pos) :=
    lookup_echoes fun _ _ => rfl
  exact h.quiet

theorem declare_quiet {constant : Bool} : (declare scope name v constant pos).Quiet := by
  have h : Echoes Eq (declare scope name v constant pos) (declare scope name v constant pos) :=
    declare_echoes fun _ _ => rfl
  exact h.quiet

theorem assign_quiet : (assign scope name v pos).Quiet := by
  have h : Echoes Eq (assign scope name v pos) (assign scope name v pos) :=
    assign_echoes fun _ _ => rfl
  exact h.quiet

end Names

theorem alloc_quiet (c : Container) : (alloc c).Quiet :=
  fun _ => ⟨rfl, List.prefix_refl _⟩

end Eval

section Members

variable (r : Relocation) (span : Span)

open Eval (Echoes)

theorem memberKey_echoes (key : Value) :
    Echoes r.tells (memberKey span key) (memberKey (r.span span) key) := by
  unfold memberKey
  split
  · exact Echoes.pure _
  · exact Echoes.pure _
  · exact Eval.failKind_echoes _ (fun _ => rfl) fun _ => r.fail _ _

theorem indexOf_isLimit {x : Float} {length : Nat} {cause : Cause}
    (h : indexOf x length = .error cause) : cause.isLimit = false := by
  unfold indexOf at h
  split at h
  · cases h
    rfl
  · cases h
    rfl
  · split at h
    · split at h
      · cases h
        rfl
      · cases h
    · cases h
      rfl

theorem memberIndex_echoes (key : Value) (length : Nat) :
    Echoes r.tells (memberIndex span key length) (memberIndex (r.span span) key length) := by
  unfold memberIndex
  split
  · split
    · exact Echoes.pure _
    · next cause hcause => exact Echoes.fail (indexOf_isLimit hcause) (r.fail _ _)
  · exact Eval.failKind_echoes _ (fun _ => rfl) fun _ => r.fail _ _

theorem readMember_echoes (container key : Value) :
    Echoes r.tells (readMember span container key) (readMember (r.span span) container key) := by
  unfold readMember
  split
  · refine Echoes.get (fun m => ?_) fun _ _ => rfl
    split
    · exact (memberKey_echoes r span key).bind fun _ => Echoes.pure _
    · exact (memberIndex_echoes r span key _).bind fun _ => Echoes.pure _
    · exact Echoes.defect _
  · exact Eval.failKind_echoes _ (fun _ => rfl) fun _ => r.fail _ _

theorem writeMember_echoes (container key value : Value) :
    Echoes r.tells (writeMember span container key value)
      (writeMember (r.span span) container key value) := by
  -- whichever container it is, the change is one of the heap
  have hstore : ∀ (a : Address) (c : Container), Echoes r.tells (do
      modify fun m => { m with heap := m.heap.set a c }
      return value) (do
      modify fun m => { m with heap := m.heap.set a c }
      return value) := fun a c =>
    (Echoes.modify fun _ _ => rfl).bind fun _ => Echoes.pure value
  unfold writeMember
  split
  · refine Echoes.get (fun m => ?_) fun _ _ => rfl
    split
    · exact (memberKey_echoes r span key).bind fun _ => hstore _ _
    · exact (memberIndex_echoes r span key _).bind fun _ => hstore _ _
    · exact Echoes.defect _
  · exact Eval.failKind_echoes _ (fun _ => rfl) fun _ => r.fail _ _

theorem applyOperator_echoes (operator : Text) (v w : Value) :
    Echoes r.tells (applyOperator span operator v w)
      (applyOperator (r.span span) operator v w) := by
  unfold applyOperator
  split
  · split
    · exact Echoes.pure _
    · exact Echoes.fail rfl (r.fail _ _)
  · exact Echoes.pure _

theorem asNative_echoes (v : Value) :
    Echoes r.tells (asNative span v) (asNative (r.span span) v) := by
  unfold asNative
  split
  · exact Echoes.pure _
  · exact Eval.failKind_echoes _ (fun _ => rfl) fun _ => r.fail _ _

theorem Expr.span_mapSpan (e : Expr) : (e.mapSpan r.span).span = r.span e.span := by
  cases e with
  | absent =>
    show Span.unknown = ⟨r.place .unknown, r.place .unknown⟩
    rw [r.unknown]
    rfl
  | _ => rfl

theorem Expr.kind?_mapSpan (f : Span → Span) (e : Expr) : (e.mapSpan f).kind? = e.kind? := by
  cases e <;> rfl

theorem dottedName_echoes (e : Expr) :
    Echoes r.tells (dottedName e) (dottedName (e.mapSpan r.span)) := by
  cases e with
  | absent => exact Echoes.defect _
  | identifier _ _ => exact Echoes.pure _
  | _ => exact Echoes.fail rfl (r.fail _ _)

/-- The check that a name may be declared in a scope. -/
def checkUndeclared (scope : ScopeId) (name : Text) (pos : Position) : Eval Unit := do
  if (← get).scopes.binds scope name then
    Eval.located pos (.error (.unplaced (.alreadyDeclared name)))

/-- A declaration is checked, then its value is computed, then the name is bound. -/
theorem evalStatement_declaration (settings : Settings) (scope : ScopeId) (constant : Bool)
    (name : Text) (value : Expr) :
    evalStatement settings scope (.declaration span constant name value) = (do
      Eval.visit settings span.start
      checkUndeclared scope name span.start
      let v ← if value.isAbsent then pure .null else evalExpr settings scope value
      Eval.declare scope name v constant span.start) := by
  funext m
  unfold evalStatement checkUndeclared
  simp only [bind, EStateM.bind, get, getThe, MonadStateOf.get, EStateM.get]
  cases Eval.visit settings span.start m with
  | error s m' => rfl
  | ok _ m' =>
    dsimp only
    by_cases hbinds : m'.scopes.binds scope name = true
    · rw [if_pos hbinds, if_pos hbinds]
      rfl
    · rw [if_neg hbinds, if_neg hbinds]
      rfl

theorem checkUndeclared_echoes (scope : ScopeId) (name : Text) (pos : Position) :
    Echoes r.tells (checkUndeclared scope name pos) (checkUndeclared scope name (r.place pos)) := by
  refine Echoes.get (fun m => ?_) fun _ _ => rfl
  split
  · refine Eval.located_echoes ?_
    intro e he
    cases he
    exact ⟨rfl, r.blame _ _ (.inl rfl)⟩
  · exact Echoes.pure _

end Members

/-! ## §4. Functions.

A function does not know where it was called.  The errors of the language's own functions
have no place; a function of the host may have given one to its own. -/

/-- Whether the functions of the host leave the counter alone. -/
def Outside.Quiet (o : Outside) : Prop :=
  ∀ handle scope args, (o.functions handle scope args).Quiet

/-- Whether a function of the host raises the error at a place that the host gave it. -/
def Outside.Places (o : Outside) (e : Error) : Prop :=
  e.pos.isKnown = true ∧ ∃ handle scope args m m',
    o.functions handle scope args m = .error (.error e) m'

/-- Functions that always fail leave the counter alone. -/
theorem Outside.bare_quiet : Outside.bare.Quiet :=
  fun _ _ _ _ => ⟨rfl, rfl, List.prefix_refl _⟩

namespace Action

open Eval (Echoes Quiet)

variable {own : Error → Prop}

/-- How the errors of functions correspond: they are the same, and have no place yet or one of
    their own. -/
def tells (own : Error → Prop) (e e' : Error) : Prop := e' = e ∧ (e.pos.isKnown = false ∨ own e)

theorem failUnplaced_echoes {α : Type} {cause : Cause} (hlimit : cause.isLimit = false) :
    Echoes (tells own) (Eval.fail cause .unknown : Eval α) (Eval.fail cause .unknown) :=
  Echoes.fail hlimit ⟨rfl, .inl rfl⟩

theorem failKindUnplaced_echoes {α : Type} (v : Value) {complaint : Kind → Cause}
    (hlimit : ∀ kind, (complaint kind).isLimit = false) :
    Echoes (tells own) (do Eval.fail (complaint (← Eval.kindOf v)) .unknown : Eval α)
      (do Eval.fail (complaint (← Eval.kindOf v)) .unknown) :=
  Eval.failKind_echoes v hlimit fun _ => ⟨rfl, .inl rfl⟩

variable {function : Text}

theorem numberArgument_echoes (index : Nat) (v : Value) :
    Echoes (tells own) (numberArgument function index v) (numberArgument function index v) := by
  unfold numberArgument
  split
  · exact Echoes.pure _
  · exact failKindUnplaced_echoes _ fun _ => rfl

theorem extremum_echoes {better : Float → Float → Bool} (rest : List Value) (index : Nat)
    (best : Float) : Echoes (tells own) (extremum function better index best rest)
      (extremum function better index best rest) := by
  induction rest generalizing index best with
  | nil => exact Echoes.pure _
  | cons v rest ih => exact (numberArgument_echoes index v).bind fun _ => ih _ _

theorem extremumOf_echoes {better : Float → Float → Bool} (args : List Value) :
    Echoes (tells own) (extremumOf function better args) (extremumOf function better args) := by
  cases args with
  | nil => exact Echoes.pure _
  | cons v rest =>
    refine (numberArgument_echoes 1 v).bind fun x => ?_
    exact (extremum_echoes rest 2 x).bind fun _ => Echoes.pure _

theorem lengthOf_echoes (v : Value) : Echoes (tells own) (lengthOf v) (lengthOf v) := by
  unfold lengthOf
  split
  · exact Echoes.pure _
  · refine Echoes.get (fun m => ?_) fun _ _ => rfl
    split
    · exact Echoes.pure _
    · exact Echoes.pure _
    · exact Echoes.defect _
  · exact failKindUnplaced_echoes _ fun _ => rfl

theorem keysOf_echoes (v : Value) : Echoes (tells own) (keysOf v) (keysOf v) := by
  refine Echoes.get (fun m => ?_) fun _ _ => rfl
  dsimp only
  split
  · split
    · exact Eval.alloc_echoes _
    · exact failKindUnplaced_echoes _ fun _ => rfl
  · exact failKindUnplaced_echoes _ fun _ => rfl

theorem formatted_echoes (find : Text → Option (Float → Text)) (v : Value)
    (locale : Option Value) :
    Echoes (tells own) (formatted find v locale) (formatted find v locale) := by
  have hlocale : Echoes (tells own) (localeOf locale) (localeOf locale) := by
    unfold localeOf
    split
    · exact Echoes.pure _
    · exact Echoes.pure _
    · exact failKindUnplaced_echoes _ fun _ => rfl
  unfold formatted
  split
  · refine hlocale.bind fun name => ?_
    split
    · exact Echoes.pure _
    · exact failUnplaced_echoes rfl
  · exact failKindUnplaced_echoes _ fun _ => rfl

/-- **Every function of the language but `print`** does the same whatever was counted, printed
    and logged, and whatever the limit and the sink are. -/
theorem run_echoes {settings settings' : Settings} (houtside : settings'.outside = settings.outside)
    (scope : ScopeId) {action : Action} (hprint : action ≠ .print)
    (hhost : ∀ handle, action ≠ .host handle) (args : List Value) :
    Echoes (tells own) (run settings scope action args) (run settings' scope action args) := by
  cases action with
  | print => exact absurd rfl hprint
  | greatest => exact extremumOf_echoes args
  | least => exact extremumOf_echoes args
  | length =>
    cases args with
    | nil => exact Echoes.defect _
    | cons v rest => exact lengthOf_echoes v
  | keys =>
    cases args with
    | nil => exact Echoes.defect _
    | cons v rest => exact keysOf_echoes v
  | clock =>
    unfold run
    rw [houtside]
    exact (Eval.readClock_echoes _).bind fun _ => Echoes.pure _
  | formatNumber =>
    unfold run
    rw [houtside]
    match args with
    | [] => exact failUnplaced_echoes rfl
    | [v] => exact formatted_echoes _ v none
    | [v, locale] => exact formatted_echoes _ v (some locale)
    | _ :: _ :: _ :: _ => exact failUnplaced_echoes rfl
  | host handle => exact absurd rfl (hhost handle)

/-- Every function is quiet if those of the host are: the one that prints only adds to the
    output. -/
theorem run_quiet {settings : Settings} (hquiet : settings.outside.Quiet) (scope : ScopeId)
    (action : Action) (args : List Value) : (run settings scope action args).Quiet := by
  have hechoes : ∀ {action : Action}, action ≠ .print → (∀ handle, action ≠ .host handle) →
      (run settings scope action args).Quiet := by
    intro action hprint hhost
    have h : Echoes (tells fun _ => True) (run settings scope action args)
        (run settings scope action args) := run_echoes rfl scope hprint hhost args
    exact h.quiet
  cases action with
  | print =>
    intro m
    unfold Eval.Ensures run Eval.write
    simp only [bind, EStateM.bind, get, getThe, MonadStateOf.get, EStateM.get, set, EStateM.set]
    cases (settings.sink.answer (m.earlier ++ m.output) _).2 with
    | none => exact ⟨rfl, List.prefix_append _ _⟩
    | some reason => exact ⟨rfl, rfl, List.prefix_append _ _⟩
  | host handle => exact hquiet handle scope args
  | _ => exact hechoes nofun nofun

end Action

theorem Eval.Quiet.blaming {α : Type} {x : Eval α} (h : x.Quiet) (pos : Position) :
    (blaming pos x).Quiet := by
  intro m
  have hrun := h m
  unfold Ensures at hrun ⊢
  unfold Eval.blaming
  cases he : x m with
  | ok a m' =>
    rw [he] at hrun
    exact hrun
  | error s m' =>
    rw [he] at hrun
    cases s with
    | error e =>
      -- the cause of the error is what it was
      obtain ⟨hlimit, hm'⟩ := hrun
      refine ⟨?_, hm'⟩
      show (e.locate pos).cause.isLimit = false
      rw [Error.cause_locate]
      exact hlimit
    | outside _ => exact hrun
    | defect _ => exact hrun

/-- A call is quiet: no function evaluates a part of the program. -/
theorem callNative_quiet {settings : Settings} (hquiet : settings.outside.Quiet)
    (scope : ScopeId) (span : Span) (fn : Native) (args : List Value) :
    (callNative settings scope span fn args).Quiet := by
  unfold callNative
  split
  · exact (Eval.Quiet.fail rfl _).bind fun _ =>
      ((Action.run_quiet hquiet scope fn.action args).blaming _).bind fun v => by
        split <;> exact Eval.Quiet.pure _
  · refine ((Action.run_quiet hquiet scope fn.action args).blaming _).bind fun v => ?_
    split
    · exact Eval.Quiet.pure _
    · exact Eval.Quiet.pure _

section Calls

variable {settings : Settings} {scope : ScopeId} {fn : Native} {args : List Value} {m m' : Machine}

/-- A call with as many arguments as the function wants gives what the function gives. -/
theorem callNative_of_ok (harity : fn.arity < 0 ∨ (args.length : Int) = fn.arity) {v : Value}
    (hv : v ≠ .nothing) (h : fn.action.run settings scope args m = .ok v m') (span : Span) :
    callNative settings scope span fn args m = .ok v m' := by
  have hblaming : Eval.blaming span.start (fn.action.run settings scope args) m = .ok v m' := by
    unfold Eval.blaming
    rw [h]
  unfold callNative
  rw [if_neg (by omega)]
  refine (Eval.bind_ok hblaming).trans ?_
  cases v with
  | nothing => exact absurd rfl hv
  | _ => rfl

/-- It fails as the function fails, and supplies the place. -/
theorem callNative_of_error (harity : fn.arity < 0 ∨ (args.length : Int) = fn.arity) {e : Error}
    (h : fn.action.run settings scope args m = .error (.error e) m') (span : Span) :
    callNative settings scope span fn args m = .error (.error (e.locate span.start)) m' := by
  have hblaming : Eval.blaming span.start (fn.action.run settings scope args) m =
      .error (.error (e.locate span.start)) m' := by
    unfold Eval.blaming
    rw [h]
  unfold callNative
  rw [if_neg (by omega)]
  exact Eval.bind_error hblaming

end Calls

/-! ## §5. Evaluations of a session. -/

/-- How a run ended, apart from the state it left. -/
def outcomeOf {α : Type} : EStateM.Result Stop Machine α → Except Stop α × Machine
  | .ok a m => (.ok a, m)
  | .error s m => (.error s, m)

namespace Interpreter

/-- What an evaluation comes to, and the state it leaves. -/
def outcome (i : Interpreter) (scope : ScopeId) (node : Node) : Except Stop Value × Machine :=
  ((i.evaluate scope node).1, (i.evaluate scope node).2.machine)

/-- Evaluations leave the settings of a session as they are. -/
theorem settings_evaluate (i : Interpreter) (scope : ScopeId) (node : Node) :
    (i.evaluate scope node).2.settings = i.settings := by
  unfold evaluate
  split
  · rfl
  · rfl

/-- An evaluation is a run from the state in which it begins. -/
theorem outcome_eq (i : Interpreter) (scope : ScopeId) (node : Node) :
    i.outcome scope node = outcomeOf (evalNode i.settings scope node i.start) := by
  unfold outcome evaluate EStateM.run
  cases evalNode i.settings scope node i.start with
  | ok v m => rfl
  | error s m => rfl

/-- What is ensured of the run is so of the evaluation. -/
theorem evaluate_ensures {i : Interpreter} {scope : ScopeId} {node : Node}
    {result : Value → Machine → Prop} {stop : Stop → Machine → Prop}
    (h : (evalNode i.settings scope node).Ensures i.start result stop) :
    (∃ v, (i.evaluate scope node).1 = .ok v ∧ result v (i.evaluate scope node).2.machine) ∨
    ∃ s, (i.evaluate scope node).1 = .error s ∧ stop s (i.evaluate scope node).2.machine := by
  obtain ⟨hfirst, hsecond⟩ := Prod.mk.inj (i.outcome_eq scope node)
  rw [hfirst, hsecond]
  unfold Eval.Ensures at h
  cases he : evalNode i.settings scope node i.start with
  | ok v m =>
    rw [he] at h
    exact .inl ⟨v, rfl, h⟩
  | error s m =>
    rw [he] at h
    exact .inr ⟨s, rfl, h⟩

end Interpreter

end Scriptorium
