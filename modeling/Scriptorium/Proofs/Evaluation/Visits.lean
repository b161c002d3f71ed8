/-
  Scriptorium.Proofs.Evaluation.Visits: the visits of an evaluation.

  The recorded evaluator below knows no limit.  It evaluates like the evaluator and keeps a
  list of its visits: which part was visited, and the state when it was about to be.  The
  limit is then an operation on records: `Record.cutAt n` goes to the first visit for which
  the counter has already reached `n` and complains there; if there is no such visit the
  record ends as it does.  Evaluating under the limit `n` is recording and cutting at `n`
  (`Records`), through every part of a tree.

  How many visits there are can be read off the tree: an evaluation that comes to its end
  makes as many as the tree costs, and any other makes no more.

  Main results:
    * `Records.bind`: cutting a sequence is cutting its first part, or else its second; the
      costs of the parts add up.
    * `recordExpr_records`, `recordNode_records`: every limit cuts one and the same record.
-/

import Scriptorium.Proofs.Evaluation.Echo

namespace Scriptorium

/-! ## §1. Records. -/

/-- A part of a tree, and the state when it is about to be visited. -/
structure Visit where
  part : Node
  state : Machine

/-- What a run did: its visits in order, and how it ended. -/
structure Record (α : Type) where
  visits : List Visit
  ending : EStateM.Result Stop Machine α

/-- A computation that is recorded while it runs. -/
def Recorded (α : Type) : Type := Machine → Record α

namespace Recorded

variable {α β : Type}

/-- A sequence visits what its first part visits, and then what its second part does. -/
protected def bind (x : Recorded α) (f : α → Recorded β) : Recorded β := fun m =>
  match x m with
  | ⟨visits, .ok a m'⟩ => ⟨visits ++ (f a m').visits, (f a m').ending⟩
  | ⟨visits, .error s m'⟩ => ⟨visits, .error s m'⟩

instance : Monad Recorded where
  pure a := fun m => ⟨[], .ok a m⟩
  bind := Recorded.bind

/-- A computation without visits. -/
def plain (x : Eval α) : Recorded α := fun m => ⟨[], x m⟩

/-- Visits a part. -/
def visit (part : Node) : Recorded Unit := fun m =>
  ⟨[⟨part, m⟩], .ok () { m with steps := m.steps + 1 }⟩

end Recorded

section Evaluator

variable (settings : Settings) (scope : ScopeId)

mutual

/-- Evaluates an expression without a limit and records its visits. -/
def recordExpr : Expr → Recorded Value
  | .absent => .plain (Eval.fail .missingNode .unknown)
  | .identifier span name => do
    .visit (.ofExpr (.identifier span name))
    .plain (Eval.lookup scope name span.start)
  | .number span x => do
    .visit (.ofExpr (.number span x))
    return .number x
  | .string span t => do
    .visit (.ofExpr (.string span t))
    return .string t
  | .binary span operator left right => do
    .visit (.ofExpr (.binary span operator left right))
    let x ← recordExpr left
    let y ← recordExpr right
    .plain (applyOperator span operator x y)
  | .assign span (.identifier target name) value => do
    .visit (.ofExpr (.assign span (.identifier target name) value))
    let v ← recordExpr value
    .plain (Eval.assign scope name v target.start)
  | .assign span (.member target object property computed) value => do
    .visit (.ofExpr (.assign span (.member target object property computed) value))
    let container ← recordExpr object
    let key ← if computed then recordExpr property else .plain (dottedName property)
    let v ← recordExpr value
    .plain (writeMember target container key v)
  | .assign span target value => do
    .visit (.ofExpr (.assign span target value))
    match target.kind? with
    | some kind => .plain (Eval.fail (.invalidTarget kind) span.start)
    | none => .plain (Eval.defect .absentTarget)
  | .object span properties => do
    .visit (.ofExpr (.object span properties))
    let fields ← recordProperties properties .empty
    .plain (Eval.alloc (.object fields))
  | .list span items => do
    .visit (.ofExpr (.list span items))
    let values ← recordExprs items
    .plain (Eval.alloc (.list values))
  | .member span object property computed => do
    .visit (.ofExpr (.member span object property computed))
    let container ← recordExpr object
    let key ← if computed then recordExpr property else .plain (dottedName property)
    .plain (readMember span container key)
  | .call span callee args => do
    .visit (.ofExpr (.call span callee args))
    let v ← recordExpr callee
    let fn ← Recorded.plain (asNative span v)
    let values ← recordExprs args
    .plain (callNative settings scope span fn values)

/-- Evaluates expressions, from the first to the last, and records their visits. -/
def recordExprs : List Expr → Recorded (List Value)
  | [] => pure []
  | e :: rest => do
    let v ← recordExpr e
    let values ← recordExprs rest
    return v :: values

/-- Evaluates properties, from the first to the last, and records their visits. -/
def recordProperties : List Property → OrderedMap Text Value → Recorded (OrderedMap Text Value)
  | [], fields => pure fields
  | .mk span key .absent :: rest, fields => do
    let v ← Recorded.plain (Eval.lookup scope key span.start)
    recordProperties rest (fields.insert key v)
  | .mk _ key value :: rest, fields => do
    let v ← recordExpr value
    recordProperties rest (fields.insert key v)

end

/-- Evaluates a statement without a limit and records its visits. -/
def recordStatement : Statement → Recorded Value
  | .expression e => recordExpr settings scope e
  | .declaration span constant name value => do
    .visit (.statement (.declaration span constant name value))
    Recorded.plain (checkUndeclared scope name span.start)
    let v ← if value.isAbsent then pure .null else recordExpr settings scope value
    .plain (Eval.declare scope name v constant span.start)

/-- Evaluates statements, from the first to the last, and records their visits. -/
def recordBody : (index : Nat) → (last : Value) → List Statement → Recorded Value
  | _, last, [] => pure last
  | index, _, s :: rest => do
    match s.kind? with
    | none => .plain (Eval.defect .absentStatement)
    | some kind =>
      Recorded.plain (modify fun m => { m with log := m.log ++ [⟨index, kind, s.span.start⟩] })
      let v ← recordStatement settings scope s
      recordBody (index + 1) v rest

/-- Evaluates any part of a tree without a limit and records its visits. -/
def recordNode : Node → Recorded Value
  | .program p => do
    .visit (.program p)
    recordBody settings scope 0 .null p.body
  | .statement s => recordStatement settings scope s
  | .property p => do
    .visit (.property p)
    .plain (Eval.fail (.notEvaluable .property) p.span.start)

end Evaluator

/-! ## §2. The number of visits.

It can be read off the tree.  A target of an assignment is not evaluated as a whole, a
property in shorthand and a name after a dot are not evaluated at all, and where there is no
place for a value the value is not evaluated either. -/

mutual

/-- How many visits the evaluation of an expression takes if it comes to its end. -/
def Expr.cost : Expr → Nat
  | .absent => 0
  | .identifier .. | .number .. | .string .. => 1
  | .binary _ _ left right => 1 + (left.cost + right.cost)
  | .assign _ (.identifier ..) value => 1 + value.cost
  | .assign _ (.member _ object property computed) value =>
    1 + (object.cost + ((if computed then property.cost else 0) + value.cost))
  | .assign .. => 1
  | .object _ properties => 1 + Property.costAll properties
  | .list _ items => 1 + Expr.costAll items
  | .member _ object property computed =>
    1 + (object.cost + if computed then property.cost else 0)
  | .call _ callee args => 1 + (callee.cost + Expr.costAll args)

/-- How many visits expressions take, one after the other. -/
def Expr.costAll : List Expr → Nat
  | [] => 0
  | e :: rest => e.cost + Expr.costAll rest

/-- How many visits properties take, one after the other. -/
def Property.costAll : List Property → Nat
  | [] => 0
  | .mk _ _ value :: rest => value.cost + Property.costAll rest

end

/-- How many visits a statement takes. -/
def Statement.cost : Statement → Nat
  | .expression e => e.cost
  | .declaration _ _ _ value => 1 + value.cost

/-- How many visits a part of a tree takes. -/
def Node.cost : Node → Nat
  | .program p => 1 + (p.body.map Statement.cost).sum
  | .statement s => s.cost
  | .property _ => 1

/-! ## §3. Cutting a record. -/

/-- The state in which a run ended. -/
def Record.after {α : Type} (r : Record α) : Machine :=
  match r.ending with
  | .ok _ m => m
  | .error _ m => m

/-- How the run ends under a limit: with a complaint at the first visit before which the
    limit was used up, if there is one. -/
def Record.cutAt {α : Type} (limit : Int) (r : Record α) : EStateM.Result Stop Machine α :=
  match r.visits.find? fun v => decide (0 < limit ∧ limit ≤ v.state.steps) with
  | some v =>
    .error (.error ⟨.stepLimit limit, v.part.span.start⟩)
      { v.state with steps := v.state.steps + 1 }
  | none => r.ending

/-- Whether the record fits a run from the state `m` that costs so much: the counter numbers
    the visits, they are as many as the run costs if it comes to its end and no more if it
    does not, text is only added to the output, and nobody complains about a limit. -/
structure Record.Tallied {α : Type} (r : Record α) (m : Machine) (cost : Nat) : Prop where
  numbered : ∀ k v, r.visits[k]? = some v → v.state.steps = m.steps + k
  counted : r.after.steps = m.steps + r.visits.length
  bounded : r.visits.length ≤ cost
  spent : ∀ a m', r.ending = .ok a m' → r.visits.length = cost
  grown : m.output <+: r.after.output
  printed : ∀ v ∈ r.visits, v.state.output <+: r.after.output
  unlimited : ∀ s m', r.ending = .error s m' → s.isLimit = false

/-- Whether the computation does under its limit what the recorded one does, cut there, and
    what the recorded one costs if the functions of the host leave the counter alone. -/
structure Records {α : Type} (o : Outside) (limit : Int) (cost : Nat) (r : Recorded α)
    (x : Eval α) : Prop where
  cut : ∀ m, x m = (r m).cutAt limit
  tallied : o.Quiet → ∀ m, (r m).Tallied m cost

namespace Records

variable {α β : Type} {o : Outside} {limit : Int} {c d : Nat}

theorem of_ending {x : Eval α} (h : o.Quiet → x.Quiet)
    (hcost : ∀ m a m', x m = .ok a m' → c = 0) : Records o limit c (.plain x) x where
  cut := fun _ => rfl
  tallied := by
    intro hquiet m
    have hx := h hquiet m
    have hending : (Recorded.plain x m).ending = x m := rfl
    have hnone : (Recorded.plain x m).visits = [] := rfl
    have hsteps : (Recorded.plain x m).after.steps = m.steps ∧
        m.output <+: (Recorded.plain x m).after.output ∧
        ∀ s m', x m = .error s m' → s.isLimit = false := by
      unfold Eval.Ensures at hx
      unfold Record.after
      rw [hending]
      cases he : x m with
      | ok a m' =>
        rw [he] at hx
        exact ⟨hx.1, hx.2, fun _ _ hs => nomatch hs⟩
      | error s m' =>
        rw [he] at hx
        refine ⟨hx.2.1, hx.2.2, ?_⟩
        intro s' m'' hs
        cases hs
        exact hx.1
    constructor
    · intro k v hv
      cases hv
    · exact hsteps.1
    · exact Nat.zero_le _
    · intro a m' ha
      exact (hcost m a m' ha).symm
    · exact hsteps.2.1
    · intro v hv
      cases hv
    · exact hsteps.2.2

/-- Without a visit there is nothing to cut and nothing to pay. -/
theorem plain {x : Eval α} (h : x.Quiet) : Records o limit 0 (.plain x) x :=
  of_ending (fun _ => h) fun _ _ _ _ => rfl

/-- What does not come to its end may cost anything. -/
theorem defect (d : Defect) :
    Records o limit c (.plain (Eval.defect d : Eval α)) (Eval.defect d) :=
  of_ending (fun _ => .defect d) fun _ _ _ hok => nomatch hok

theorem pure (a : α) : Records o limit 0 (Pure.pure a) (Pure.pure a) :=
  plain (Eval.Quiet.pure a)

/-- A visit costs one. -/
theorem visit (settings : Settings) (part : Node) :
    Records o settings.stepLimit 1 (.visit part) (Eval.visit settings part.span.start) where
  cut := by
    intro m
    rw [Eval.visit_eq]
    unfold Record.cutAt Recorded.visit
    by_cases hover : 0 < settings.stepLimit ∧ settings.stepLimit ≤ m.steps
    · simp [hover]
    · simp [hover]
  tallied := by
    intro _ m
    constructor
    · intro k v hv
      cases k with
      | zero =>
        cases hv
        rfl
      | succ k => cases hv
    · rfl
    · exact Nat.le_refl 1
    · intro a m' ha
      rfl
    · exact List.prefix_refl _
    · intro v hv
      cases List.mem_singleton.1 hv
      exact List.prefix_refl _
    · intro s m' hs
      cases hs

/-- The visits of a sequence. -/
theorem bind_tallied {x : Recorded α} {f : α → Recorded β} (hx : ∀ m, (x m).Tallied m c)
    (hf : ∀ a m, (f a m).Tallied m d) (m : Machine) :
    ((x >>= f) m).Tallied m (c + d) := by
  have hm := hx m
  show (Recorded.bind x f m).Tallied m (c + d)
  unfold Recorded.bind
  rcases he : x m with ⟨visits, ⟨a, m'⟩ | ⟨s, m'⟩⟩
  · rw [he] at hm
    have hm' := hf a m'
    have hcounted : m'.steps = m.steps + visits.length := hm.counted
    have hspent : visits.length = c := hm.spent a m' rfl
    constructor
    · intro k v hv
      dsimp only at hv
      by_cases hk : k < visits.length
      · rw [List.getElem?_append_left hk] at hv
        exact hm.numbered k v hv
      · rw [List.getElem?_append_right (Nat.le_of_not_lt hk)] at hv
        have hsteps := hm'.numbered _ v hv
        omega
    · show (f a m').after.steps = _
      rw [hm'.counted, hcounted, List.length_append]
      omega
    · have hbounded := hm'.bounded
      rw [List.length_append]
      omega
    · intro b m'' hb
      have hspent' := hm'.spent b m'' hb
      rw [List.length_append]
      omega
    · exact hm.grown.trans hm'.grown
    · intro v hv
      rcases List.mem_append.1 hv with hv | hv
      · -- printed before the first part ended
        exact (hm.printed v hv).trans hm'.grown
      · exact hm'.printed v hv
    · exact hm'.unlimited
  · -- the second part never began
    rw [he] at hm
    have hbounded : visits.length ≤ c := hm.bounded
    have hstop := hm.unlimited s m' rfl
    refine ⟨hm.numbered, hm.counted, Nat.le_add_right_of_le hbounded, ?_, hm.grown, hm.printed, ?_⟩
    · intro b m'' hb
      cases hb
    · intro s' m'' hs
      cases hs
      exact hstop

/-- **Cutting a sequence** is cutting its first part; if the limit is not used up there, it
    is cutting the second. -/
theorem bind {r : Recorded α} {g : α → Recorded β} {x : Eval α} {f : α → Eval β}
    (hx : Records o limit c r x) (hf : ∀ a, Records o limit d (g a) (f a)) :
    Records o limit (c + d) (r >>= g) (x >>= f) where
  tallied := fun hquiet => bind_tallied (hx.tallied hquiet) fun a => (hf a).tallied hquiet
  cut := by
    intro m
    have hcut := hx.cut m
    show EStateM.bind x f m = (Recorded.bind r g m).cutAt limit
    unfold EStateM.bind Recorded.bind
    unfold Record.cutAt at hcut
    rcases he : r m with ⟨visits, ending⟩
    rw [he] at hcut
    dsimp only at hcut
    cases hfind : visits.find? fun v => decide (0 < limit ∧ limit ≤ v.state.steps) with
    | some v =>
      -- the first part is cut, and the second never begins
      rw [hfind] at hcut
      rw [hcut]
      cases ending with
      | ok a m' => simp only [Record.cutAt, List.find?_append, hfind, Option.some_or]
      | error s m' => simp only [Record.cutAt, hfind]
    | none =>
      rw [hfind] at hcut
      rw [hcut]
      cases ending with
      | ok a m' =>
        dsimp only
        rw [(hf a).cut m']
        simp only [Record.cutAt, List.find?_append, hfind, Option.none_or]
      | error s m' => simp only [Record.cutAt, hfind]

/-- Something without a visit is done first. -/
theorem plain_bind {x : Eval α} {g : α → Recorded β} {f : α → Eval β} (hx : x.Quiet)
    (hf : ∀ a, Records o limit c (g a) (f a)) :
    Records o limit c (Recorded.plain x >>= g) (x >>= f) := by
  have hboth := (plain hx).bind hf
  rw [Nat.zero_add] at hboth
  exact hboth

/-- Two ways to the same continuation, of which one is free. -/
theorem branch {p : Prop} [Decidable p] {r r' : Recorded α} {g : α → Recorded β}
    {x x' : Eval α} {f : α → Eval β} (hx : Records o limit c r x)
    (hx' : Records o limit 0 r' x') (hf : ∀ a, Records o limit d (g a) (f a)) :
    Records o limit ((if p then c else 0) + d) (if p then r >>= g else r' >>= g)
      (if p then x >>= f else x' >>= f) := by
  by_cases hp : p
  · rw [if_pos hp, if_pos hp, if_pos hp]
    exact hx.bind hf
  · rw [if_neg hp, if_neg hp, if_neg hp]
    exact hx'.bind hf

end Records

/-! ## §4. Every limit cuts the same record. -/

/-- The settings with another limit. -/
def Settings.withLimit (settings : Settings) (limit : Int) : Settings :=
  { settings with stepLimit := limit }

section Evaluator

variable {settings : Settings} (scope : ScopeId) (limit : Int)

theorem lookup_records (name : Text) (pos : Position) :
    Records settings.outside limit 0 (.plain (Eval.lookup scope name pos))
      (Eval.lookup scope name pos) :=
  .plain Eval.lookup_quiet

mutual

/-- Under any limit, an expression is evaluated as recorded, until the limit is used up. -/
theorem recordExpr_records (e : Expr) :
    Records settings.outside limit e.cost (recordExpr settings scope e)
      (evalExpr (settings.withLimit limit) scope e) := by
  have hvisit := Records.visit (o := settings.outside) (settings.withLimit limit)
  cases e with
  | absent =>
    rw [recordExpr, evalExpr]
    exact .plain (.fail rfl _)
  | identifier span name =>
    rw [recordExpr, evalExpr]
    exact (hvisit (.ofExpr _)).bind fun _ => lookup_records scope limit name span.start
  | number span x =>
    rw [recordExpr, evalExpr]
    exact (hvisit (.ofExpr _)).bind fun _ => .pure _
  | string span t =>
    rw [recordExpr, evalExpr]
    exact (hvisit (.ofExpr _)).bind fun _ => .pure _
  | binary span operator left right =>
    rw [recordExpr, evalExpr]
    refine (hvisit (.ofExpr _)).bind fun _ => ?_
    refine (recordExpr_records left).bind fun x => ?_
    refine (recordExpr_records right).bind (d := 0) fun y => ?_
    exact .plain (applyOperator_echoes .stay span operator x y).quiet
  | assign span target value =>
    cases target with
    | identifier tspan name =>
      rw [recordExpr, evalExpr]
      refine (hvisit (.ofExpr _)).bind fun _ => ?_
      refine (recordExpr_records value).bind (d := 0) fun v => ?_
      exact .plain Eval.assign_quiet
    | member tspan object property computed =>
      rw [recordExpr, evalExpr]
      refine (hvisit (.ofExpr _)).bind fun _ => ?_
      refine (recordExpr_records object).bind fun container => ?_
      refine Records.branch (recordExpr_records property)
        (.plain (dottedName_echoes .stay property).quiet) ?_
      intro key
      refine (recordExpr_records value).bind (d := 0) fun v => ?_
      exact .plain (writeMember_echoes .stay tspan container key v).quiet
    | absent =>
      simp only [recordExpr, evalExpr, Expr.kind?]
      exact (hvisit (.ofExpr _)).bind (d := 0) fun _ => .defect _
    | _ =>
      -- anything else is no place; the value is not computed
      simp only [recordExpr, evalExpr, Expr.kind?]
      exact (hvisit (.ofExpr _)).bind fun _ => .plain (.fail rfl _)
  | object span properties =>
    rw [recordExpr, evalExpr]
    refine (hvisit (.ofExpr _)).bind fun _ => ?_
    refine (recordProperties_records properties .empty).bind (d := 0) fun fields => ?_
    exact .plain (Eval.alloc_quiet _)
  | list span items =>
    rw [recordExpr, evalExpr]
    refine (hvisit (.ofExpr _)).bind fun _ => ?_
    refine (recordExprs_records items).bind (d := 0) fun values => ?_
    exact .plain (Eval.alloc_quiet _)
  | member span object property computed =>
    rw [recordExpr, evalExpr]
    refine (hvisit (.ofExpr _)).bind fun _ => ?_
    refine (recordExpr_records object).bind fun container => ?_
    refine Records.branch (d := 0) (recordExpr_records property)
      (.plain (dottedName_echoes .stay property).quiet) fun key => ?_
    exact .plain (readMember_echoes .stay span container key).quiet
  | call span callee args =>
    rw [recordExpr, evalExpr]
    refine (hvisit (.ofExpr _)).bind fun _ => ?_
    refine (recordExpr_records callee).bind fun v => ?_
    refine Records.plain_bind (asNative_echoes .stay span v).quiet fun fn => ?_
    refine (recordExprs_records args).bind (d := 0) fun values => ?_
    exact .of_ending (fun hquiet => callNative_quiet hquiet scope span fn values)
      fun _ _ _ _ => rfl

theorem recordExprs_records (es : List Expr) :
    Records settings.outside limit (Expr.costAll es) (recordExprs settings scope es)
      (evalExprs (settings.withLimit limit) scope es) := by
  cases es with
  | nil =>
    rw [recordExprs, evalExprs]
    exact .pure _
  | cons e rest =>
    rw [recordExprs, evalExprs]
    refine (recordExpr_records e).bind fun v => ?_
    exact (recordExprs_records rest).bind (d := 0) fun values => .pure _

theorem recordProperties_records (ps : List Property)
    (fields : OrderedMap Text Value) :
    Records settings.outside limit (Property.costAll ps) (recordProperties settings scope ps fields)
      (evalProperties (settings.withLimit limit) scope ps fields) := by
  cases ps with
  | nil =>
    rw [recordProperties, evalProperties]
    exact .pure _
  | cons p rest =>
    obtain ⟨span, key, value⟩ := p
    have hnext := fun v => recordProperties_records rest (fields.insert key v)
    by_cases hvalue : value = .absent
    · subst hvalue
      rw [recordProperties, evalProperties]
      exact (lookup_records scope limit key span.start).bind hnext
    · rw [recordProperties, evalProperties]
      · exact (recordExpr_records value).bind hnext
      · exact hvalue
      · exact hvalue

end

theorem recordStatement_records (s : Statement) :
    Records settings.outside limit s.cost (recordStatement settings scope s)
      (evalStatement (settings.withLimit limit) scope s) := by
  cases s with
  | expression e => exact recordExpr_records scope limit e
  | declaration span constant name value =>
    rw [recordStatement, evalStatement_declaration]
    refine (Records.visit (settings.withLimit limit) (.statement _)).bind fun _ => ?_
    refine Records.plain_bind (checkUndeclared_echoes .stay scope name span.start).quiet fun _ => ?_
    have hdeclare : ∀ v, Records settings.outside limit 0
        (.plain (Eval.declare scope name v constant span.start))
        (Eval.declare scope name v constant span.start) := fun v => .plain Eval.declare_quiet
    by_cases habsent : value.isAbsent = true
    · rw [if_pos habsent, if_pos habsent]
      cases value with
      | absent => exact (Records.pure _).bind hdeclare
      | _ => cases habsent
    · rw [if_neg habsent, if_neg habsent]
      exact (recordExpr_records scope limit value).bind (d := 0) hdeclare

/-- Statements, one after the other.  The log is written between the visits. -/
theorem recordBody_records (body : List Statement) (index : Nat) (last : Value) :
    Records settings.outside limit (body.map Statement.cost).sum
      (recordBody settings scope index last body)
      (evalBody (settings.withLimit limit) scope index last body) := by
  induction body generalizing index last with
  | nil =>
    rw [recordBody, evalBody]
    exact .pure _
  | cons s rest ih =>
    rw [recordBody, evalBody, List.map_cons, List.sum_cons]
    cases s.kind? with
    | none => exact .defect _
    | some kind =>
      refine Records.plain_bind (.log ⟨index, kind, s.span.start⟩) fun _ => ?_
      exact (recordStatement_records scope limit s).bind fun v => ih (index + 1) v

/-- **Under any limit, a tree is evaluated as recorded, until the limit is used up.** -/
theorem recordNode_records (node : Node) :
    Records settings.outside limit node.cost (recordNode settings scope node)
      (evalNode (settings.withLimit limit) scope node) := by
  have hvisit := Records.visit (o := settings.outside) (settings.withLimit limit)
  cases node with
  | program p =>
    exact (hvisit (.program p)).bind fun _ => recordBody_records scope limit p.body 0 .null
  | statement s => exact recordStatement_records scope limit s
  | property p => exact (hvisit (.property p)).bind (d := 0) fun _ => .plain (.fail rfl _)

end Evaluator

end Scriptorium
