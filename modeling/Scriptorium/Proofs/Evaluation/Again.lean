/-
  Scriptorium.Proofs.Evaluation.Again: trees that only compute, evaluated twice.

  A tree without assignments, calls and declarations changes nothing that was there: it reads
  names and members, and the containers it makes are new.  Evaluated once more, it makes them
  again, further on in the heap.  The two evaluations are run side by side.  The second has
  the same scopes and the same count, and a heap that is that of the first with the new
  containers moved by as many places as the first has made; every value of the first, moved
  in the same way, is the value of the second.  Moving containers changes neither the kind of a
  value nor its text, so the two end with the same text or stop for the same reason.

  A reference that leads nowhere has to be excluded: a container made by the first evaluation
  might come to lie where it points.

  Main results:
    * `Eval.Repeats.bind`: computations in a row repeat if each of them does.
    * `readMember_repeats`, `Eval.alloc_repeats`, ...: the steps.
    * `evalExpr_repeats`, `evalNode_repeats`: trees that only compute.
    * `evaluating_again`: two evaluations in a session.
-/

import Scriptorium.Proofs.Evaluation.Gaps
import Scriptorium.Proofs.Evaluation.Upkeep
import Scriptorium.Proofs.Values.Data
import Scriptorium.Proofs.Values.Depiction

namespace Scriptorium

/-! ## §1. Trees that only compute. -/

/-- Whether none of the parts is an assignment, a call or a declaration. -/
def Inert (parts : List Node) : Prop :=
  ∀ part ∈ parts, part.kind? ≠ some .assignmentExpr ∧ part.kind? ≠ some .callExpr ∧
    part.kind? ≠ some .varDeclaration

section Inert

variable {part : Node} {parts more : List Node}

@[simp]
theorem inert_cons : Inert (part :: parts) ↔ (part.kind? ≠ some .assignmentExpr ∧
    part.kind? ≠ some .callExpr ∧ part.kind? ≠ some .varDeclaration) ∧ Inert parts :=
  List.forall_mem_cons

@[simp]
theorem inert_append : Inert (parts ++ more) ↔ Inert parts ∧ Inert more :=
  List.forall_mem_append

end Inert

/-! ## §2. Moving containers. -/

section Rename

variable {σ : Address → Address} {h h' : Heap}

theorem Value.rename_of_within {v : Value} {known : Address → Prop} (hv : v.Within known)
    (hσ : ∀ a, known a → σ a = a) : v.rename σ = v := by
  cases v with
  | ref a =>
    show Value.ref (σ a) = _
    rw [hσ a (hv a rfl)]
  | _ => rfl

theorem Container.rename_of_within {c : Container} {known : Address → Prop} (hc : c.Within known)
    (hσ : ∀ a, known a → σ a = a) : c.rename σ = c := by
  cases c with
  | list items =>
    have hitems : items.map (Value.rename σ) = items.map id :=
      List.map_congr_left fun v hv => Value.rename_of_within (hc v hv) hσ
    show Container.list (items.map (Value.rename σ)) = _
    rw [hitems, List.map_id]
  | object fields =>
    have hfields : fields.fields.mapKeyed (fun _ => Value.rename σ) = fields.fields := by
      apply Table.mapKeyed_of_get?
      intro key v hv
      exact Value.rename_of_within (hc v ⟨key, hv⟩) hσ
    show Container.object ⟨fields.fields.mapKeyed fun _ => Value.rename σ, fields.order⟩ = _
    rw [hfields]

theorem OrderedMap.mapValues_insert {κ ν ν' : Type} [DecidableEq κ] (f : ν → ν')
    (m : OrderedMap κ ν) (key : κ) (value : ν) :
    (m.insert key value).mapValues f = (m.mapValues f).insert key (f value) := by
  have hcontains : (m.mapValues f).contains key = m.contains key := by
    rw [contains_eq_isSome, contains_eq_isSome, get?_mapValues, Option.isSome_map]
  unfold insert
  rw [hcontains]
  unfold mapValues
  rw [Table.mapKeyed_insert]

/-- Moving containers does not change the kind of a value. -/
theorem Value.kind?_rename (hget : ∀ a, h'.get? (σ a) = (h.get? a).map (Container.rename σ))
    (v : Value) : (v.rename σ).kind? h' = v.kind? h := by
  cases v with
  | ref a =>
    simp only [rename, kind?]
    rw [hget]
    rcases h.get? a with _ | fields | items
    · rfl
    · rfl
    · rfl
  | _ => rfl

/-- Nor its text. -/
theorem Heap.text_rename (hσ : Function.Injective σ)
    (hget : ∀ a, h'.get? (σ a) = (h.get? a).map (Container.rename σ)) (v : Value) :
    h'.text (v.rename σ) = h.text v := by
  rw [h.text_eq, h'.text_eq, Value.alone_rename, ← Heap.render_rename hσ hget [] v]
  rfl

end Rename

/-! ## §3. A computation and its repetition. -/

theorem Heap.GrowsTo.size_le {h h' : Heap} (hgrows : h.GrowsTo h') : h.size ≤ h'.size := by
  rcases Nat.eq_zero_or_pos h.size with hzero | hpos
  · omega
  · obtain ⟨c, hc⟩ := Heap.exists_get?_of_lt (Nat.sub_lt hpos Nat.one_pos)
    have hlast : h.size - 1 < h'.size := Heap.lt_size_of_get? (hgrows _ c hc)
    omega

namespace Machine

theorem GrowsTo.refl (m : Machine) : m.GrowsTo m := ⟨fun _ _ h => h, rfl, rfl⟩

/-- Where a container lies if those that were not there at the start are moved by `k` places. -/
def shift (start : Machine) (k a : Nat) : Nat := if a < start.heap.size then a else a + k

theorem shift_of_lt {start : Machine} {k a : Nat} (h : a < start.heap.size) :
    start.shift k a = a :=
  if_pos h

theorem shift_of_le {start : Machine} {k a : Nat} (h : start.heap.size ≤ a) :
    start.shift k a = a + k :=
  if_neg (Nat.not_lt.2 h)

theorem shift_injective (start : Machine) (k : Nat) : Function.Injective (start.shift k) := by
  intro a b h
  unfold shift at h
  split at h <;> split at h <;> omega

end Machine

/-- `start.Apart k m m'`: the first state has come from `start` by adding containers, and the
    second is the same with these moved by `k` places. -/
structure Machine.Apart (start : Machine) (k : Nat) (m m' : Machine) : Prop where
  grown : start.GrowsTo m
  scopes : m'.scopes = m.scopes
  steps : m'.steps = m.steps
  size : m'.heap.size = m.heap.size + k
  get? : ∀ a, m'.heap.get? (start.shift k a) =
    (m.heap.get? a).map (Container.rename (start.shift k))
  /-- What names stand for is not moved. -/
  bound : m.scopes.AllBound fun v => v.rename (start.shift k) = v

/-- Whether `y` does what `x` does, in a state with containers moved: it gives the result
    as `moved` says, or stops for the same reason. -/
def Eval.Repeats {α : Type} (start : Machine) (k : Nat) (moved : α → α) (x y : Eval α) : Prop :=
  ∀ m m', start.Apart k m m' → x.Ensures m
    (fun a n => ∃ n', y m' = .ok (moved a) n' ∧ start.Apart k n n')
    fun s n => ∃ n', y m' = .error s n' ∧ start.Apart k n n'

section Steps

variable {start : Machine} {k : Nat} {α β : Type} {moved : α → α} {moved' : β → β}

/-- What was counted in step, and what was logged, sets no states apart. -/
theorem Machine.Apart.noted {m m' : Machine} (hm : start.Apart k m m') {steps steps' : Nat}
    (hsteps : steps' = steps) (log log' : List Begun) :
    start.Apart k { m with steps, log } { m' with steps := steps', log := log' } :=
  ⟨⟨hm.grown.heap, hm.grown.scopes, hm.grown.output⟩, hm.scopes, hsteps, hm.size, hm.get?,
    hm.bound⟩

/-- A container that both add lies `k` places further on in the second. -/
theorem Machine.Apart.alloc {m m' : Machine} (hm : start.Apart k m m') (c : Container) :
    m'.heap.size = start.shift k m.heap.size ∧
    start.Apart k { m with heap := (m.heap.alloc c).2 }
      { m' with heap := (m'.heap.alloc (c.rename (start.shift k))).2 } := by
  have hnew : m'.heap.size = start.shift k m.heap.size := by
    rw [hm.size]
    exact (Machine.shift_of_le hm.grown.heap.size_le).symm
  refine ⟨hnew, ?_, hm.scopes, hm.steps, ?_, ?_, hm.bound⟩
  · exact hm.grown.trans ⟨.alloc m.heap c, rfl, rfl⟩
  · show (m'.heap.alloc _).2.size = (m.heap.alloc c).2.size + k
    rw [Heap.size_alloc, Heap.size_alloc, hm.size]
    omega
  · intro a
    show (m'.heap.alloc _).2.get? (start.shift k a) = ((m.heap.alloc c).2.get? a).map _
    rw [Heap.get?_alloc, Heap.get?_alloc, hnew]
    by_cases ha : a = m.heap.size
    · rw [if_pos ha, ha, if_pos rfl]
      rfl
    · rw [if_neg ha, if_neg fun h => ha (start.shift_injective k h)]
      exact hm.get? a

namespace Eval

theorem Repeats.pure (a : α) : Repeats start k moved (pure a) (pure (moved a)) :=
  fun _ m' hm => ⟨m', rfl, hm⟩

theorem Repeats.throw (s : Stop) : Repeats start k moved (throw s) (throw s) :=
  fun _ m' hm => ⟨m', rfl, hm⟩

/-- **Computations in a row repeat if each of them does.** -/
theorem Repeats.bind {x y : Eval α} {f g : α → Eval β} (hx : Repeats start k moved x y)
    (hf : ∀ a, Repeats start k moved' (f a) (g (moved a))) :
    Repeats start k moved' (x >>= f) (y >>= g) := by
  intro m m' hm
  refine Ensures.bind ((hx m m' hm).imp ?_ ?_)
  · intro a n ⟨n', hy, hn⟩
    rw [bind_ok hy]
    exact hf a n n' hn
  · intro s n ⟨n', hy, hn⟩
    exact ⟨n', bind_error hy, hn⟩

/-- Two ways to the same continuation. -/
theorem Repeats.branch {c : Prop} [Decidable c] {x x' y y' : Eval α} {f g : α → Eval β}
    (hx : Repeats start k moved x y) (hx' : Repeats start k moved x' y')
    (hf : ∀ a, Repeats start k moved' (f a) (g (moved a))) :
    Repeats start k moved' (if c then x >>= f else x' >>= f)
      (if c then y >>= g else y' >>= g) := by
  by_cases hc : c
  · rw [if_pos hc, if_pos hc]
    exact hx.bind hf
  · rw [if_neg hc, if_neg hc]
    exact hx'.bind hf

/-- Each reads its own state. -/
theorem Repeats.get {f g : Machine → Eval α} (h : ∀ m m', start.Apart k m m' →
      Repeats start k moved (f m) (g m')) :
    Repeats start k moved (MonadState.get >>= f) (MonadState.get >>= g) :=
  fun m m' hm => h m m' hm m m' hm

theorem visit_repeats (settings : Settings) (pos : Position) :
    Repeats start k id (visit settings pos) (visit settings pos) := by
  intro m m' hm
  unfold Ensures
  rw [visit_eq, visit_eq, hm.steps]
  by_cases hover : 0 < settings.stepLimit ∧ settings.stepLimit ≤ m.steps
  · rw [if_pos hover, if_pos hover]
    exact ⟨_, rfl, hm.noted rfl m.log m'.log⟩
  · rw [if_neg hover, if_neg hover]
    exact ⟨_, rfl, hm.noted rfl m.log m'.log⟩

theorem lookup_repeats (scope : ScopeId) (name : Text) (pos : Position) :
    Repeats start k (Value.rename (start.shift k)) (lookup scope name pos)
      (lookup scope name pos) := by
  intro m m' hm
  have hrun : lookup scope name pos m' = located pos (m.scopes.lookup scope name) m' := by
    rw [← hm.scopes]
    rfl
  rw [hrun]
  show (located pos (m.scopes.lookup scope name)).Ensures m _ _
  cases hlookup : m.scopes.lookup scope name with
  | error e => exact ⟨m', rfl, hm⟩
  | ok v =>
    have hv : v.rename (start.shift k) = v := hm.bound.lookup hlookup
    refine ⟨m', ?_, hm⟩
    rw [hv]
    rfl

theorem alloc_repeats (c : Container) :
    Repeats start k (Value.rename (start.shift k)) (alloc c)
      (alloc (c.rename (start.shift k))) := by
  intro m m' hm
  obtain ⟨hnew, hafter⟩ := hm.alloc c
  refine ⟨_, ?_, hafter⟩
  show _ = EStateM.Result.ok (Value.ref (start.shift k m.heap.size)) _
  rw [← hnew]
  rfl

theorem kindOf_repeats (v : Value) :
    Repeats start k id (kindOf v) (kindOf (v.rename (start.shift k))) := by
  refine Repeats.get fun m m' hm => ?_
  rw [Value.kind?_rename hm.get? v]
  cases v.kind? m.heap with
  | some kind => exact .pure kind
  | none => exact .throw _

/-- A complaint that names the kind of a value. -/
theorem failKind_repeats (v : Value) (complaint : Kind → Cause) (pos : Position) :
    Repeats start k moved (do fail (complaint (← kindOf v)) pos)
      (do fail (complaint (← kindOf (v.rename (start.shift k)))) pos) :=
  (kindOf_repeats v).bind fun _ => .throw _

end Eval

open Eval (Repeats)

theorem memberKey_repeats (span : Span) (key : Value) :
    Repeats start k id (memberKey span key) (memberKey span (key.rename (start.shift k))) := by
  cases key with
  | string t => exact .pure t
  | number x => exact .pure (Number.text x)
  | ref a => exact Eval.failKind_repeats (.ref a) _ _
  | _ => exact Eval.failKind_repeats _ _ _

theorem memberIndex_repeats (span : Span) (key : Value) (length : Nat) :
    Repeats start k id (memberIndex span key length)
      (memberIndex span (key.rename (start.shift k)) length) := by
  cases key with
  | number x =>
    unfold memberIndex
    dsimp only [Value.rename]
    cases indexOf x length with
    | ok i => exact .pure i
    | error cause => exact .throw _
  | ref a => exact Eval.failKind_repeats (.ref a) _ _
  | _ => exact Eval.failKind_repeats _ _ _

/-- A member is read from a container that was moved, and is moved itself. -/
theorem readMember_repeats (span : Span) (container key : Value) :
    Repeats start k (Value.rename (start.shift k)) (readMember span container key)
      (readMember span (container.rename (start.shift k)) (key.rename (start.shift k))) := by
  cases container with
  | ref a =>
    refine Eval.Repeats.get fun m m' hm => ?_
    rw [hm.get? a]
    rcases m.heap.get? a with _ | fields | items
    · exact .throw _
    · apply (memberKey_repeats span key).bind
      intro name
      have hfield : ((fields.mapValues (Value.rename (start.shift k))).get? name).getD .null =
          ((fields.get? name).getD .null).rename (start.shift k) := by
        rw [OrderedMap.get?_mapValues]
        exact Option.getD_map (Value.rename (start.shift k)) .null _
      show Repeats _ _ _ (pure _) (pure (Option.getD (OrderedMap.get? _ name) Value.null))
      rw [hfield]
      exact .pure _
    · dsimp only [Option.map_some, Container.rename]
      rw [List.length_map]
      apply (memberIndex_repeats span key items.length).bind
      intro i
      have hitem : (items.map (Value.rename (start.shift k))).getD i .null =
          (items.getD i .null).rename (start.shift k) := by
        rw [List.getD_eq_getElem?_getD, List.getD_eq_getElem?_getD, List.getElem?_map]
        exact Option.getD_map (Value.rename (start.shift k)) .null _
      show Repeats _ _ _ (pure _) (pure (List.getD _ i Value.null))
      rw [hitem]
      exact .pure _
  | _ => exact Eval.failKind_repeats _ _ _

/-- Operators look at numbers only. -/
theorem applyOperator_repeats (span : Span) (operator : Text) (v w : Value) :
    Repeats start k (Value.rename (start.shift k)) (applyOperator span operator v w)
      (applyOperator span operator (v.rename (start.shift k)) (w.rename (start.shift k))) := by
  cases v with
  | number x =>
    cases w with
    | number y =>
      unfold applyOperator
      dsimp only [Value.rename]
      cases arithmetic? operator x y with
      | some z => exact .pure _
      | none => exact .throw _
    | _ => exact .pure _
  | _ => exact .pure _

theorem dottedName_repeats (property : Expr) :
    Repeats start k (Value.rename (start.shift k)) (dottedName property)
      (dottedName property) := by
  cases property with
  | identifier span name => exact .pure _
  | _ => exact .throw _

end Steps

/-! ## §4. Trees. -/

section Trees

open Eval (Repeats)

variable {start : Machine} {k : Nat} (settings : Settings) (scope : ScopeId)

mutual

/-- **An expression that only computes repeats**, with the containers it makes moved. -/
theorem evalExpr_repeats (e : Expr) (h : Inert e.parts) :
    Repeats start k (Value.rename (start.shift k)) (evalExpr settings scope e)
      (evalExpr settings scope e) := by
  cases e with
  | absent =>
    rw [evalExpr]
    exact .throw _
  | identifier span name =>
    rw [evalExpr]
    exact (Eval.visit_repeats settings _).bind fun _ => Eval.lookup_repeats scope name _
  | number span x =>
    rw [evalExpr]
    exact (Eval.visit_repeats settings _).bind fun _ => .pure _
  | string span t =>
    rw [evalExpr]
    exact (Eval.visit_repeats settings _).bind fun _ => .pure _
  | binary span operator left right =>
    simp only [Expr.parts, Expr.visits, if_true, inert_cons, inert_append] at h
    rw [evalExpr]
    refine (Eval.visit_repeats settings _).bind fun _ => ?_
    refine (evalExpr_repeats left h.2.1).bind fun v => ?_
    refine (evalExpr_repeats right h.2.2).bind fun w => ?_
    exact applyOperator_repeats span operator v w
  | assign span target value =>
    simp only [Expr.parts, Expr.visits, if_true, inert_cons] at h
    exact absurd rfl h.1.1
  | object span properties =>
    simp only [Expr.parts, Expr.visits, if_true, inert_cons] at h
    rw [evalExpr]
    refine (Eval.visit_repeats settings _).bind fun _ => ?_
    refine (evalProperties_repeats properties .empty h.2).bind fun fields => ?_
    exact Eval.alloc_repeats (.object fields)
  | list span items =>
    simp only [Expr.parts, Expr.visits, if_true, inert_cons] at h
    rw [evalExpr]
    refine (Eval.visit_repeats settings _).bind fun _ => ?_
    refine (evalExprs_repeats items h.2).bind fun values => ?_
    exact Eval.alloc_repeats (.list values)
  | member span object property computed =>
    simp only [Expr.parts, Expr.visits, if_true, inert_cons, inert_append] at h
    rw [evalExpr]
    refine (Eval.visit_repeats settings _).bind fun _ => ?_
    refine (evalExpr_repeats object h.2.1).bind fun container => ?_
    refine Repeats.branch (evalExpr_repeats property h.2.2) (dottedName_repeats property) ?_
    exact fun key => readMember_repeats span container key
  | call span callee args =>
    simp only [Expr.parts, Expr.visits, if_true, inert_cons] at h
    exact absurd rfl h.1.2.1

theorem evalExprs_repeats (es : List Expr) (h : Inert (Expr.visitsAll (fun _ => true) es)) :
    Repeats start k (List.map (Value.rename (start.shift k))) (evalExprs settings scope es)
      (evalExprs settings scope es) := by
  cases es with
  | nil =>
    rw [evalExprs]
    exact .pure _
  | cons e rest =>
    simp only [Expr.visitsAll, inert_append] at h
    rw [evalExprs]
    refine (evalExpr_repeats e h.1).bind fun v => ?_
    exact (evalExprs_repeats rest h.2).bind fun values => .pure _

theorem evalProperties_repeats (ps : List Property) (fields : OrderedMap Text Value)
    (h : Inert (Property.visitsAll (fun _ => true) ps)) :
    Repeats start k (OrderedMap.mapValues (Value.rename (start.shift k)))
      (evalProperties settings scope ps fields)
      (evalProperties settings scope ps (fields.mapValues (Value.rename (start.shift k)))) := by
  cases ps with
  | nil =>
    rw [evalProperties, evalProperties]
    exact .pure _
  | cons p rest =>
    obtain ⟨span, key, value⟩ := p
    simp only [Property.visitsAll, Property.visits, if_true, List.cons_append, inert_cons,
      inert_append] at h
    have hnext : ∀ v, Repeats start k (OrderedMap.mapValues (Value.rename (start.shift k)))
        (evalProperties settings scope rest (fields.insert key v))
        (evalProperties settings scope rest ((fields.mapValues
          (Value.rename (start.shift k))).insert key (v.rename (start.shift k)))) := by
      intro v
      rw [← OrderedMap.mapValues_insert]
      exact evalProperties_repeats rest _ h.2.2
    by_cases habsent : value = .absent
    · subst habsent
      rw [evalProperties, evalProperties]
      exact (Eval.lookup_repeats scope key _).bind hnext
    · rw [evalProperties, evalProperties]
      · exact (evalExpr_repeats value h.2.1).bind hnext
      · exact habsent
      · exact habsent

end

variable {settings scope}

theorem evalStatement_repeats {s : Statement} (h : Inert s.parts) :
    Repeats start k (Value.rename (start.shift k)) (evalStatement settings scope s)
      (evalStatement settings scope s) := by
  cases s with
  | expression e => exact evalExpr_repeats settings scope e h
  | declaration span constant name value =>
    simp only [Statement.parts, Statement.visits, if_true, inert_cons] at h
    exact absurd rfl h.1.2.2

/-- Statements, one after the other. -/
theorem evalBody_repeats {body : List Statement} (h : ∀ s ∈ body, Inert s.parts) (index : Nat)
    (last : Value) :
    Repeats start k (Value.rename (start.shift k)) (evalBody settings scope index last body)
      (evalBody settings scope index (last.rename (start.shift k)) body) := by
  induction body generalizing index last with
  | nil => exact .pure last
  | cons s rest ih =>
    obtain ⟨hs, hrest⟩ := List.forall_mem_cons.1 h
    rw [evalBody, evalBody]
    cases s.kind? with
    | none => exact .throw _
    | some kind =>
      have hlog : Repeats start k id
          (modify fun m => { m with log := m.log ++ [⟨index, kind, s.span.start⟩] })
          (modify fun m => { m with log := m.log ++ [⟨index, kind, s.span.start⟩] }) := by
        intro m m' hm
        exact ⟨_, rfl, hm.noted hm.steps _ _⟩
      refine hlog.bind fun _ => ?_
      exact (evalStatement_repeats hs).bind fun v => ih hrest (index + 1) v

/-- **A tree that only computes repeats.** -/
theorem evalNode_repeats {node : Node} (h : Inert (node.visits fun _ => true)) :
    Repeats start k (Value.rename (start.shift k)) (evalNode settings scope node)
      (evalNode settings scope node) := by
  cases node with
  | program p =>
    simp only [Node.visits, if_true, inert_cons] at h
    refine (Eval.visit_repeats settings p.span.start).bind fun _ => ?_
    refine evalBody_repeats ?_ 0 .null
    intro s hs part hpart
    exact h.2 part (List.mem_flatMap.2 ⟨s, hs, hpart⟩)
  | statement s => exact evalStatement_repeats h
  | property p =>
    exact (Eval.visit_repeats settings p.span.start).bind fun _ => .throw _

end Trees

/-! ## §5. Sessions. -/

/-- Whether every reference in a container or behind a name leads to a container. -/
structure Machine.Closed (m : Machine) : Prop where
  heap : ∀ a c, m.heap.get? a = some c → c.Within (· < m.heap.size)
  scopes : m.scopes.AllBound fun v => v.Within (· < m.heap.size)

section Sessions

variable {start m : Machine}

/-- A state is nowhere apart from itself. -/
theorem Machine.apart_self (m : Machine) : m.Apart 0 m m := by
  have hstay : ∀ a : Address, True → m.shift 0 a = a := fun a _ => ite_self a
  refine ⟨.refl m, rfl, rfl, rfl, ?_, ?_⟩
  · intro a
    rw [hstay a trivial]
    cases m.heap.get? a with
    | none => rfl
    | some c =>
      show some c = some (c.rename (m.shift 0))
      rw [Container.rename_of_within (fun _ _ _ _ => trivial) hstay]
  · intro e name v _
    exact Value.rename_of_within (fun _ _ => trivial) hstay

/-- Nothing in a closed state is moved, and what it makes after others have added containers
    lies behind these. -/
theorem Machine.Closed.apart (hclosed : start.Closed) (hgrown : start.GrowsTo m)
    (hsteps : m.steps = start.steps) :
    start.Apart (m.heap.size - start.heap.size) start m := by
  have hsize := hgrown.heap.size_le
  have hstay : ∀ a : Address, a < start.heap.size →
      start.shift (m.heap.size - start.heap.size) a = a := fun _ => Machine.shift_of_lt
  refine ⟨.refl start, hgrown.scopes, hsteps, by omega, ?_, ?_⟩
  · intro a
    rcases Nat.lt_or_ge a start.heap.size with ha | ha
    · obtain ⟨c, hc⟩ := Heap.exists_get?_of_lt ha
      rw [hstay a ha, hc, hgrown.heap a c hc]
      show some c = some (c.rename _)
      rw [Container.rename_of_within (hclosed.heap a c hc) hstay]
    · have hbeyond : m.heap.size ≤ a + (m.heap.size - start.heap.size) := by omega
      rw [Machine.shift_of_le ha]
      unfold Heap.get?
      rw [Array.getElem?_eq_none hbeyond, Array.getElem?_eq_none ha]
      rfl
  · intro e name v hv
    exact Value.rename_of_within (hclosed.scopes e name v hv) hstay

end Sessions

/-- **What only computes can be evaluated again.**  A tree without assignments, calls and
    declarations changes no scope and no container that was there, and prints nothing, whether
    it comes to a value or not.  Evaluated once more right after, where no reference leads
    nowhere, it stops for the same reason, at the same place; or it comes to a value with the
    same text.  That value is the first one with all containers that are new since then in
    place of those that the first evaluation made. -/
theorem evaluating_again (i : Interpreter) (scope : ScopeId) (node : Node)
    (hnode : Inert (node.visits fun _ => true)) :
    let first := i.evaluate scope node
    let second := first.2.evaluate scope node
    (first.2.machine.scopes = i.machine.scopes ∧
      (∀ a c, i.machine.heap.get? a = some c → first.2.machine.heap.get? a = some c) ∧
      first.2.printed = []) ∧
    (i.machine.Closed →
      (∃ stop, first.1 = .error stop ∧ second.1 = .error stop) ∨
      ∃ (v : Value) (σ : Address → Address),
        first.1 = .ok v ∧ second.1 = .ok (v.rename σ) ∧
        second.2.text (v.rename σ) = first.2.text v ∧
        Function.Injective σ ∧ (∀ a < i.machine.heap.size, σ a = a) ∧
        (∀ a, i.machine.heap.size ≤ a → first.2.machine.heap.size ≤ σ a) ∧
        ∀ a, second.2.machine.heap.get? (σ a) =
          (first.2.machine.heap.get? a).map (Container.rename σ)) := by
  intro first second
  have hgrown : i.start.GrowsTo first.2.machine := by
    have hrun : Eval.Repeats i.start 0 _ (evalNode i.settings scope node) _ :=
      evalNode_repeats hnode
    rcases Interpreter.evaluate_ensures (hrun i.start i.start i.start.apart_self) with
      ⟨_, _, _, _, hapart⟩ | ⟨_, _, _, _, hapart⟩
    · exact hapart.grown
    · exact hapart.grown
  refine ⟨⟨hgrown.scopes, hgrown.heap, hgrown.output⟩, fun hclosed => ?_⟩
  let k := first.2.machine.heap.size - i.machine.heap.size
  -- the second evaluation begins where the first has ended, and counts from zero again
  have hbegin : i.start.GrowsTo first.2.start := ⟨hgrown.heap, hgrown.scopes, rfl⟩
  have hclosed' : i.start.Closed := ⟨hclosed.heap, hclosed.scopes⟩
  have hstart : i.start.Apart k i.start first.2.start := hclosed'.apart hbegin rfl
  have hrun : Eval.Repeats i.start k _ (evalNode i.settings scope node) _ :=
    evalNode_repeats hnode
  have hsecond : (second.1, second.2.machine) =
      outcomeOf (evalNode i.settings scope node first.2.start) := by
    rw [← i.settings_evaluate scope node]
    exact first.2.outcome_eq scope node
  rcases Interpreter.evaluate_ensures (hrun i.start first.2.start hstart) with
    ⟨v, hv, n', hagain, hapart⟩ | ⟨s, hs, n', hagain, _⟩
  · rw [hagain] at hsecond
    obtain ⟨hvalue, hmachine⟩ := Prod.mk.inj hsecond
    have hget : ∀ a, second.2.machine.heap.get? (i.start.shift k a) =
        (first.2.machine.heap.get? a).map (Container.rename (i.start.shift k)) := by
      rw [hmachine]
      exact hapart.get?
    refine .inr ⟨v, i.start.shift k, hv, hvalue, ?_, i.start.shift_injective k, ?_, ?_, hget⟩
    · exact Heap.text_rename (i.start.shift_injective k) hget v
    · exact fun a ha => Machine.shift_of_lt ha
    · intro a ha
      have hsize : i.machine.heap.size ≤ first.2.machine.heap.size := hgrown.heap.size_le
      have hmoved : i.start.shift k a = a + k := Machine.shift_of_le ha
      rw [hmoved]
      omega
  · rw [hagain] at hsecond
    exact .inl ⟨s, hs, congrArg Prod.fst hsecond⟩

/-- A session in which `loop` is a list that holds itself. -/
def looping : Interpreter where
  settings := ⟨0, .collect, .bare⟩
  allowed := []
  machine := { (default : Machine) with
    heap := ⟨#[.list [.ref 0]]⟩
    scopes := (Forest.empty.add (Names.empty.bind "loop" ⟨.ref 0, true⟩) none).2 }
  global := 0

/-- The expression `[loop, { loop }]`. -/
def loopTwice : Node :=
  let here : Span := ⟨⟨1, 1⟩, ⟨1, 1⟩⟩
  .ofExpr (.list here [.identifier here "loop", .object here [.mk here "loop" .absent]])

/-- The two evaluations come to different lists, which are written alike. -/
theorem evaluating_again_looping :
    let first := looping.evaluate 0 loopTwice
    let second := first.2.evaluate 0 loopTwice
    Inert (loopTwice.visits fun _ => true) ∧ looping.machine.Closed ∧
    first.2.machine.heap.get? 0 = looping.machine.heap.get? 0 ∧
    first.1 = .ok (.ref 2) ∧ second.1 = .ok (.ref 4) ∧
    second.2.text (.ref 4) = first.2.text (.ref 2) := by
  intro first second
  have hinert : Inert (loopTwice.visits fun _ => true) := by
    unfold Inert
    decide
  have hself : (Value.ref 0).Within (· < looping.machine.heap.size) := by
    intro a ha
    cases ha
    exact Nat.one_pos
  have hclosed : looping.machine.Closed := by
    constructor
    · intro a c hc
      obtain rfl : a = 0 := Nat.lt_one_iff.1 (Heap.lt_size_of_get? hc)
      cases hc
      exact List.forall_mem_singleton.2 hself
    · exact Forest.AllBound.empty.add (Table.all_empty.insert _ _ hself) none
  have hfirst : first.1 = .ok (.ref 2) := by decide +kernel
  have hsecond : second.1 = .ok (.ref 4) := by decide +kernel
  obtain ⟨⟨_, hheap, _⟩, hagain⟩ := evaluating_again looping 0 loopTwice hinert
  refine ⟨hinert, hclosed, hheap 0 _ rfl, hfirst, hsecond, ?_⟩
  rcases hagain hclosed with ⟨stop, hstop, _⟩ | ⟨v, σ, hv, hw, htext, _⟩
  · cases hfirst.symm.trans hstop
  · cases hfirst.symm.trans hv
    have hmoved := hsecond.symm.trans hw
    rw [← Except.ok.inj hmoved] at htext
    exact htext

end Scriptorium
