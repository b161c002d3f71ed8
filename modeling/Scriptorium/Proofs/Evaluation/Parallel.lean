/-
  Scriptorium.Proofs.Evaluation.Parallel: two evaluations side by side.

  The second evaluates a tree whose places were rewritten, and what the first counts as
  printed earlier it may have printed itself.  Their settings are the same.  Then the two stay
  side by side, if functions of the host do: heap, scopes and clock are the same all the time,
  the output of the second is that of the first after what it had printed, and they end with
  the same value, or stop with stops that correspond.  If a limit is set they have to count in
  step, and otherwise they need not.

  `Parallel tells x y` says this of two computations.  The steps between two visits are known
  to echo each other; what is left are visits, the log and `print`.

  Main results:
    * `Parallel.bind`: computations in a row stay side by side if each of them does.
    * `evalExpr_parallel`, `evalNode_parallel`: evaluation, through every part of a tree.
-/

import Scriptorium.Proofs.Evaluation.Echo

namespace Scriptorium

/-! ## §1. States side by side. -/

/-- What sets a second run apart from a first. -/
structure Pairing where
  /-- The second has its places rewritten. -/
  moved : Relocation
  /-- What the second had printed when the first began. -/
  printed : Text
  /-- Whether the two count in step. -/
  paced : Prop
  /-- How the logs correspond. -/
  logs : List Begun → List Begun → Prop

namespace Pairing

variable (w : Pairing)

/-- Whether the states of the two runs correspond. -/
structure Beside (m m' : Machine) : Prop where
  heap : m'.heap = m.heap
  scopes : m'.scopes = m.scopes
  readings : m'.readings = m.readings
  steps : w.paced → m'.steps = m.steps
  output : m'.output = w.printed ++ m.output
  earlier : m.earlier = m'.earlier ++ w.printed
  log : w.logs m.log m'.log

/-- Whether two computations stay side by side. -/
def Parallel {α : Type} (tells : Error → Error → Prop) (x y : Eval α) : Prop :=
  ∀ m m', w.Beside m m' → x.Ensures m
    (fun a n => ∃ n', y m' = .ok a n' ∧ w.Beside n n')
    fun s n => ∃ s' n', y m' = .error s' n' ∧ s.Matches tells s' ∧ w.Beside n n'

/-- Whether the settings allow the two runs to stay side by side, with the functions of the
    host that they have. -/
structure Fits (settings : Settings) : Prop where
  paced : 0 < settings.stepLimit → w.paced
  host : ∀ handle scope args, w.Parallel (Action.tells w.moved.own)
    (settings.outside.functions handle scope args) (settings.outside.functions handle scope args)

/-- The second state is the first, dressed differently. -/
theorem Beside.dress {m m' : Machine} {w : Pairing} (hm : w.Beside m m') : m.dress m' = m' := by
  unfold Machine.dress
  rw [← hm.heap, ← hm.scopes, ← hm.readings]

/-- All in all the two have printed the same. -/
theorem Beside.printed {m m' : Machine} {w : Pairing} (hm : w.Beside m m') :
    m'.earlier ++ m'.output = m.earlier ++ m.output := by
  rw [hm.output, hm.earlier, List.append_assoc]

namespace Parallel

variable {w} {α β : Type} {tells : Error → Error → Prop}

/-- Computations in a row stay side by side if each of them does. -/
theorem bind {x y : Eval α} {f g : α → Eval β} (hx : w.Parallel tells x y)
    (hf : ∀ a, w.Parallel tells (f a) (g a)) : w.Parallel tells (x >>= f) (y >>= g) := by
  intro m m' hm
  refine Eval.Ensures.bind ((hx m m' hm).imp ?_ ?_)
  · intro a n ⟨n', hy, hn⟩
    rw [Eval.bind_ok hy]
    exact hf a n n' hn
  · intro s n ⟨s', n', hy, hs, hn⟩
    exact ⟨s', n', Eval.bind_error hy, hs, hn⟩

/-- Two ways to the same continuation. -/
theorem branch {c : Prop} [Decidable c] {x x' y y' : Eval α} {f g : α → Eval β}
    (hx : w.Parallel tells x y) (hx' : w.Parallel tells x' y')
    (hf : ∀ a, w.Parallel tells (f a) (g a)) :
    w.Parallel tells (if c then x >>= f else x' >>= f) (if c then y >>= g else y' >>= g) := by
  by_cases hc : c
  · rw [if_pos hc, if_pos hc]
    exact hx.bind hf
  · rw [if_neg hc, if_neg hc]
    exact hx'.bind hf

/-- Steps that echo each other stay side by side. -/
theorem of_echoes {x y : Eval α} (h : Eval.Echoes tells x y) : w.Parallel tells x y := by
  intro m m' hm
  have hm' : m.dress m' = m' := hm.dress
  have hbeside : ∀ n : Machine, n.dress m = n → w.Beside n (n.dress m') := by
    intro n hn
    rw [← hn]
    exact ⟨rfl, rfl, rfl, hm.steps, hm.output, hm.earlier, hm.log⟩
  refine (h m m').imp ?_ ?_
  · intro a n ⟨hn, hy⟩
    rw [hm'] at hy
    exact ⟨_, hy, hbeside n hn⟩
  · intro s n ⟨hn, _, s', hs, hy⟩
    rw [hm'] at hy
    exact ⟨s', _, hy, hs, hbeside n hn⟩

theorem pure (a : α) : w.Parallel tells (Pure.pure a) (Pure.pure a) :=
  of_echoes (Eval.Echoes.pure a)

/-- Both read the same heap. -/
theorem heap {f g : Heap → Eval α} (h : ∀ heap, w.Parallel tells (f heap) (g heap)) :
    w.Parallel tells (get >>= fun m => f m.heap) (get >>= fun m => g m.heap) := by
  intro m m' hm
  have hrun : (get >>= fun m => g m.heap : Eval α) m' = g m.heap m' := by
    rw [← hm.heap]
    rfl
  rw [hrun]
  exact h m.heap m m' hm

/-- The place that a call supplies is rewritten like all others. -/
theorem blaming {x y : Eval α} (h : w.Parallel (Action.tells w.moved.own) x y)
    (pos : Position) : w.Parallel w.moved.tells (Eval.blaming pos x)
      (Eval.blaming (w.moved.place pos) y) := by
  intro m m' hm
  have hrun := h m m' hm
  unfold Eval.Ensures at hrun ⊢
  unfold Eval.blaming
  cases hx : x m with
  | ok a n =>
    rw [hx] at hrun
    obtain ⟨n', hy, hn⟩ := hrun
    rw [hy]
    exact ⟨n', rfl, hn⟩
  | error s n =>
    rw [hx] at hrun
    obtain ⟨s', n', hy, hs, hn⟩ := hrun
    rw [hy]
    cases hs with
    | @error e e' told =>
      obtain ⟨rfl, hhome⟩ := told
      exact ⟨_, n', rfl, .error (w.moved.blame _ pos hhome), hn⟩
    | outside message => exact ⟨_, n', rfl, .outside message, hn⟩
    | defect d => exact ⟨_, n', rfl, .defect d, hn⟩

end Parallel

/-- An error of the host's functions has no place yet, or one that counts as their own. -/
theorem told_of_places {o : Outside} {handle : Nat} {scope : ScopeId} {args : List Value}
    (hown : ∀ e, o.Places e → w.moved.own e) {m n : Machine} {s : Stop}
    (hs : o.functions handle scope args m = .error s n) :
    s.Matches (Action.tells w.moved.own) s := by
  cases s with
  | outside message => exact .outside message
  | defect d => exact .defect d
  | error e =>
    refine .error ⟨rfl, ?_⟩
    cases hknown : e.pos.isKnown with
    | false => exact .inl rfl
    | true => exact .inr (hown e ⟨hknown, handle, scope, args, m, n, hs⟩)

end Pairing

/-! ## §2. Visits and functions. -/

namespace Pairing

variable {w : Pairing} {settings : Settings} (hw : w.Fits settings) (scope : ScopeId)

include hw

theorem Fits.visit (pos : Position) : w.Parallel w.moved.tells (Eval.visit settings pos)
    (Eval.visit settings (w.moved.place pos)) := by
  intro m m' hm
  have hcounted : w.Beside { m with steps := m.steps + 1 } { m' with steps := m'.steps + 1 } := by
    refine ⟨hm.heap, hm.scopes, hm.readings, ?_, hm.output, hm.earlier, hm.log⟩
    intro hpaced
    show m'.steps + 1 = m.steps + 1
    rw [hm.steps hpaced]
  unfold Eval.Ensures
  rw [Eval.visit_eq, Eval.visit_eq]
  by_cases hover : 0 < settings.stepLimit ∧ settings.stepLimit ≤ m.steps
  · -- a limit is set, so the counters are the same
    have hover' : 0 < settings.stepLimit ∧ settings.stepLimit ≤ m'.steps := by
      rw [hm.steps (hw.paced hover.1)]
      exact hover
    rw [if_pos hover, if_pos hover']
    exact ⟨_, _, rfl, .error (w.moved.fail _ _), hcounted⟩
  · have hover' : ¬ (0 < settings.stepLimit ∧ settings.stepLimit ≤ m'.steps) := by
      intro h
      rw [hm.steps (hw.paced h.1)] at h
      exact hover h
    rw [if_neg hover, if_neg hover']
    exact ⟨_, rfl, hcounted⟩

omit hw in
/-- The sink has kept the same of both runs, so it answers them alike. -/
theorem write_parallel (t : Text) : w.Parallel (Action.tells w.moved.own)
    (Eval.write settings.sink t) (Eval.write settings.sink t) := by
  intro m m' hm
  have hkept : ∀ kept : Text, w.Beside { m with output := m.output ++ kept }
      { m' with output := m'.output ++ kept } := by
    intro kept
    refine ⟨hm.heap, hm.scopes, hm.readings, hm.steps, ?_, hm.earlier, hm.log⟩
    show m'.output ++ kept = w.printed ++ (m.output ++ kept)
    rw [hm.output, List.append_assoc]
  unfold Eval.Ensures Eval.write
  simp only [bind, EStateM.bind, get, getThe, MonadStateOf.get, EStateM.get, set, EStateM.set,
    hm.printed]
  cases (settings.sink.answer (m.earlier ++ m.output) t).2 with
  | none => exact ⟨_, rfl, hkept _⟩
  | some reason => exact ⟨_, _, rfl, .error ⟨rfl, .inl rfl⟩, hkept _⟩

theorem Fits.run (action : Action) (args : List Value) :
    w.Parallel (Action.tells w.moved.own) (action.run settings scope args)
      (action.run settings scope args) := by
  have hechoes : ∀ {action : Action}, action ≠ .print → (∀ handle, action ≠ .host handle) →
      w.Parallel (Action.tells w.moved.own) (action.run settings scope args)
        (action.run settings scope args) :=
    fun hprint hhost => .of_echoes (Action.run_echoes rfl scope hprint hhost args)
  cases action with
  | print =>
    have hline : ∀ heap : Heap, w.Parallel (Action.tells w.moved.own)
        (do
          Eval.write settings.sink (Text.join " " (args.map heap.text) ++ "\n")
          return Value.null)
        (do
          Eval.write settings.sink (Text.join " " (args.map heap.text) ++ "\n")
          return Value.null) :=
      fun heap => (write_parallel _).bind fun _ => .pure _
    exact Parallel.heap hline
  | host handle => exact hw.host handle scope args
  | _ => exact hechoes nofun nofun

theorem Fits.callNative (span : Span) (fn : Native) (args : List Value) :
    w.Parallel w.moved.tells (callNative settings scope span fn args)
      (callNative settings scope (w.moved.span span) fn args) := by
  have hcall := (hw.run scope fn.action args).blaming span.start
  unfold Scriptorium.callNative
  split
  · refine Parallel.bind (.of_echoes (.fail rfl (w.moved.fail _ _))) fun _ => hcall.bind fun v => ?_
    split
    · exact .pure _
    · exact .pure _
  · refine hcall.bind fun v => ?_
    split
    · exact .pure _
    · exact .pure _

end Pairing

/-! ## §3. Evaluation. -/

section Evaluation

open Pairing (Parallel)

variable {w : Pairing} {settings : Settings} {scope : ScopeId}

theorem Expr.mapSpan_ne_absent {e : Expr} (h : e ≠ .absent) (f : Span → Span) :
    e.mapSpan f ≠ .absent := by
  cases e with
  | absent => exact absurd rfl h
  | _ => exact nofun

mutual

/-- **An expression and its copy with rewritten places are evaluated side by side.** -/
theorem evalExpr_parallel (hw : w.Fits settings) (e : Expr) :
    w.Parallel w.moved.tells (evalExpr settings scope e)
      (evalExpr settings scope (e.mapSpan w.moved.span)) := by
  cases e with
  | absent =>
    have hfail := w.moved.fail .missingNode .unknown
    rw [w.moved.unknown] at hfail
    rw [Expr.mapSpan, evalExpr]
    exact .of_echoes (.fail rfl hfail)
  | identifier span name =>
    rw [Expr.mapSpan, evalExpr, evalExpr]
    refine (hw.visit span.start).bind fun _ => ?_
    exact .of_echoes (Eval.lookup_echoes fun e he => w.moved.blame_new e _ he)
  | number span x =>
    rw [Expr.mapSpan, evalExpr, evalExpr]
    exact (hw.visit span.start).bind fun _ => .pure _
  | string span t =>
    rw [Expr.mapSpan, evalExpr, evalExpr]
    exact (hw.visit span.start).bind fun _ => .pure _
  | binary span operator left right =>
    rw [Expr.mapSpan, evalExpr, evalExpr]
    refine (hw.visit span.start).bind fun _ => ?_
    refine (evalExpr_parallel hw left).bind fun x => ?_
    refine (evalExpr_parallel hw right).bind fun y => ?_
    exact .of_echoes (applyOperator_echoes w.moved span operator x y)
  | assign span target value =>
    cases target with
    | identifier tspan name =>
      rw [Expr.mapSpan, Expr.mapSpan, evalExpr, evalExpr]
      refine (hw.visit span.start).bind fun _ => ?_
      refine (evalExpr_parallel hw value).bind fun v => ?_
      exact .of_echoes (Eval.assign_echoes fun e he => w.moved.blame_new e _ he)
    | member tspan object property computed =>
      rw [Expr.mapSpan, Expr.mapSpan, evalExpr, evalExpr]
      refine (hw.visit span.start).bind fun _ => ?_
      refine (evalExpr_parallel hw object).bind fun container => ?_
      refine Parallel.branch (evalExpr_parallel hw property)
        (.of_echoes (dottedName_echoes w.moved property)) fun key => ?_
      refine (evalExpr_parallel hw value).bind fun v => ?_
      exact .of_echoes (writeMember_echoes w.moved tspan container key v)
    | absent =>
      simp only [Expr.mapSpan, evalExpr, Expr.kind?]
      exact (hw.visit span.start).bind fun _ => .of_echoes (.defect _)
    | _ =>
      simp only [Expr.mapSpan, evalExpr, Expr.kind?]
      exact (hw.visit span.start).bind fun _ => .of_echoes (.fail rfl (w.moved.fail _ _))
  | object span properties =>
    rw [Expr.mapSpan, evalExpr, evalExpr]
    refine (hw.visit span.start).bind fun _ => ?_
    refine (evalProperties_parallel hw properties .empty).bind fun fields => ?_
    exact .of_echoes (Eval.alloc_echoes _)
  | list span items =>
    rw [Expr.mapSpan, evalExpr, evalExpr]
    refine (hw.visit span.start).bind fun _ => ?_
    refine (evalExprs_parallel hw items).bind fun values => ?_
    exact .of_echoes (Eval.alloc_echoes _)
  | member span object property computed =>
    rw [Expr.mapSpan, evalExpr, evalExpr]
    refine (hw.visit span.start).bind fun _ => ?_
    refine (evalExpr_parallel hw object).bind fun container => ?_
    refine Parallel.branch (evalExpr_parallel hw property)
      (.of_echoes (dottedName_echoes w.moved property)) fun key => ?_
    exact .of_echoes (readMember_echoes w.moved span container key)
  | call span callee args =>
    rw [Expr.mapSpan, evalExpr, evalExpr]
    refine (hw.visit span.start).bind fun _ => ?_
    refine (evalExpr_parallel hw callee).bind fun v => ?_
    refine Parallel.bind (.of_echoes (asNative_echoes w.moved span v)) fun fn => ?_
    refine (evalExprs_parallel hw args).bind fun values => ?_
    exact hw.callNative scope span fn values

theorem evalExprs_parallel (hw : w.Fits settings) (es : List Expr) :
    w.Parallel w.moved.tells (evalExprs settings scope es)
      (evalExprs settings scope (Expr.mapSpanAll w.moved.span es)) := by
  cases es with
  | nil =>
    rw [Expr.mapSpanAll, evalExprs]
    exact .pure _
  | cons e rest =>
    rw [Expr.mapSpanAll, evalExprs, evalExprs]
    refine (evalExpr_parallel hw e).bind fun v => ?_
    exact (evalExprs_parallel hw rest).bind fun values => .pure _

theorem evalProperties_parallel (hw : w.Fits settings) (ps : List Property)
    (fields : OrderedMap Text Value) :
    w.Parallel w.moved.tells (evalProperties settings scope ps fields)
      (evalProperties settings scope (Property.mapSpanAll w.moved.span ps) fields) := by
  cases ps with
  | nil =>
    rw [Property.mapSpanAll, evalProperties]
    exact .pure _
  | cons p rest =>
    obtain ⟨span, key, value⟩ := p
    have hnext := fun v => evalProperties_parallel hw rest (fields.insert key v)
    by_cases hvalue : value = .absent
    · subst hvalue
      rw [Property.mapSpanAll, Property.mapSpan, Expr.mapSpan, evalProperties,
        evalProperties]
      refine Parallel.bind (.of_echoes ?_) hnext
      exact Eval.lookup_echoes fun e he => w.moved.blame_new e _ he
    · rw [Property.mapSpanAll, Property.mapSpan, evalProperties,
        evalProperties]
      · exact (evalExpr_parallel hw value).bind hnext
      · exact Expr.mapSpan_ne_absent hvalue _
      · exact hvalue

end

theorem evalStatement_parallel (hw : w.Fits settings) (s : Statement) :
    w.Parallel w.moved.tells (evalStatement settings scope s)
      (evalStatement settings scope (s.mapSpan w.moved.span)) := by
  cases s with
  | expression e => exact evalExpr_parallel hw e
  | declaration span constant name value =>
    rw [Statement.mapSpan, evalStatement_declaration, evalStatement_declaration]
    refine (hw.visit span.start).bind fun _ => ?_
    refine Parallel.bind (.of_echoes (checkUndeclared_echoes w.moved scope name span.start)) ?_
    intro _
    have hdeclare : ∀ v, w.Parallel w.moved.tells
        (Eval.declare scope name v constant span.start)
        (Eval.declare scope name v constant (w.moved.span span).start) :=
      fun v => .of_echoes (Eval.declare_echoes fun e he => w.moved.blame_new e _ he)
    have habsent : (value.mapSpan w.moved.span).isAbsent = value.isAbsent := by
      cases value with
      | _ => rfl
    rw [habsent]
    exact Parallel.branch (.pure _) (evalExpr_parallel hw value) hdeclare

theorem Statement.kind?_mapSpan (f : Span → Span) (s : Statement) :
    (s.mapSpan f).kind? = s.kind? := by
  cases s with
  | declaration => rfl
  | expression e => exact e.kind?_mapSpan f

/-- Where a statement was read, in the copy with rewritten places. -/
theorem Statement.start_mapSpan (r : Relocation) (s : Statement) :
    (s.mapSpan r.span).span.start = r.place s.span.start := by
  cases s with
  | declaration => rfl
  | expression e =>
    show (e.mapSpan r.span).span.start = _
    rw [e.span_mapSpan]
    rfl

/-- Statements, one after the other, if the logs still correspond after each of them.  The
    second list may be part of a longer one. -/
theorem evalBody_parallel (hw : w.Fits settings) {index index' : Nat}
    (hlogs : ∀ log log' k kind pos, w.logs log log' →
      w.logs (log ++ [⟨index + k, kind, pos⟩]) (log' ++ [⟨index' + k, kind, w.moved.place pos⟩]))
    (body : List Statement) (last : Value) :
    w.Parallel w.moved.tells (evalBody settings scope index last body)
      (evalBody settings scope index' last (body.map (Statement.mapSpan w.moved.span))) := by
  induction body generalizing index index' last with
  | nil =>
    rw [List.map_nil, evalBody, evalBody]
    exact .pure _
  | cons s rest ih =>
    rw [List.map_cons, evalBody, evalBody, s.kind?_mapSpan, s.start_mapSpan]
    cases s.kind? with
    | none => exact .of_echoes (.defect _)
    | some kind =>
      have hlog : w.Parallel w.moved.tells
          (modify fun m => { m with log := m.log ++ [⟨index, kind, s.span.start⟩] })
          (modify fun m => { m with
            log := m.log ++ [⟨index', kind, w.moved.place s.span.start⟩] }) := by
        intro m m' hm
        refine ⟨_, rfl, hm.heap, hm.scopes, hm.readings, hm.steps, hm.output, hm.earlier, ?_⟩
        exact hlogs m.log m'.log 0 kind s.span.start hm.log
      refine hlog.bind fun _ => ?_
      refine (evalStatement_parallel hw s).bind fun v => ?_
      refine ih ?_ v
      intro log log' k kind pos h
      have hnext := hlogs log log' (1 + k) kind pos h
      rw [← Nat.add_assoc, ← Nat.add_assoc] at hnext
      exact hnext

/-- **A tree and its copy with rewritten places are evaluated side by side.** -/
theorem evalNode_parallel (hw : w.Fits settings)
    (hlogs : ∀ log log' k kind pos, w.logs log log' →
      w.logs (log ++ [⟨k, kind, pos⟩]) (log' ++ [⟨k, kind, w.moved.place pos⟩]))
    (node : Node) :
    w.Parallel w.moved.tells (evalNode settings scope node)
      (evalNode settings scope (node.mapSpan w.moved.span)) := by
  cases node with
  | program p =>
    refine (hw.visit p.span.start).bind fun _ => ?_
    refine evalBody_parallel hw (fun log log' k kind pos h => ?_) p.body .null
    rw [Nat.zero_add]
    exact hlogs log log' k kind pos h
  | statement s => exact evalStatement_parallel hw s
  | property p =>
    obtain ⟨span, key, value⟩ := p
    exact (hw.visit span.start).bind fun _ => .of_echoes (.fail rfl (w.moved.fail _ _))

end Evaluation

end Scriptorium
