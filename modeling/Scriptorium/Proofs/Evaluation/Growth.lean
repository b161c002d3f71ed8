/-
  Scriptorium.Proofs.Evaluation.Growth: containers only grow, and only at their ends.

  The only thing that a script can do to a container is to set a member.  In a list that
  replaces an item.  In an object it replaces the value of a key, or adds the key after all
  others, to the fields and to the order alike.  So a list keeps its length, the keys of an
  object at one time are the first of its keys at any later time, and where order and fields
  of all objects were in step they stay so.  Checks that were made before a write are
  therefore still good when it is done.

  The relation between heaps is a custody, so it holds between any two moments of a session,
  whichever evaluations lie between them, if the functions of the host respect it.  A
  container that a literal or `keys` gives is new: in the state after its parts were computed
  there is nothing at its address.

  Main results:
    * `Container.SetsMember.growsInto`, `Container.SetsMember.agrees`: what setting a member
      does to a container.
    * `Interpreter.ordered_perform`, `Interpreter.ordered_moments`: the moments of one call,
      and of any number of them.
    * `containers_only_grow`: the law of containers, for every session.
-/

import Scriptorium.Proofs.Evaluation.Constants
import Scriptorium.Proofs.Evaluation.Limit
import Scriptorium.Proofs.Evaluation.Session
import Scriptorium.Proofs.Values.Links

namespace Scriptorium

/-! ## §1. What a container can become. -/

/-- Whether the container may become the other one: an object with the same keys in the same
    order and perhaps more after them, a list of the same length. -/
def Container.GrowsInto : Container → Container → Prop
  | .object fields, .object fields' => fields.keys <+: fields'.keys
  | .list items, .list items' => items'.length = items.length
  | _, _ => False

namespace Container

theorem GrowsInto.refl (c : Container) : c.GrowsInto c := by
  cases c with
  | object fields => exact List.prefix_refl _
  | list items => exact rfl

theorem GrowsInto.trans {c c' c'' : Container} (h : c.GrowsInto c') (h' : c'.GrowsInto c'') :
    c.GrowsInto c'' := by
  match c, c', c'', h, h' with
  | .object _, .object _, .object _, h, h' => exact List.IsPrefix.trans h h'
  | .list _, .list _, .list _, h, h' => exact Eq.trans h' h

/-- A member that is set replaces one or comes after all others. -/
theorem SetsMember.growsInto {c c' : Container} (h : c.SetsMember c') : c.GrowsInto c' := by
  cases h with
  | field fields name v =>
    show fields.keys <+: (fields.insert name v).keys
    rw [OrderedMap.keys_insert]
    split
    · exact List.prefix_refl _
    · exact List.prefix_append _ _
  | item items i v => exact List.length_set

/-- And it keeps the keys and the fields of an object in step. -/
theorem SetsMember.agrees {c c' : Container} (h : c.SetsMember c') (hc : c.Agrees) :
    c'.Agrees := by
  cases h with
  | field fields name v => exact OrderedMap.Agrees.insert hc name v
  | item items i v => trivial

end Container

namespace Heap

/-- Whether the keys and the fields of every object are in step. -/
def Agrees (h : Heap) : Prop := ∀ a c, h.get? a = some c → c.Agrees

/-- Whether every container of the heap is in the other one, at its address, as it was or
    grown, and the objects of the other are in step if those of the first are. -/
structure GrowsInto (h h' : Heap) : Prop where
  containers : ∀ a c, h.get? a = some c → ∃ c', h'.get? a = some c' ∧ c.GrowsInto c'
  agrees : h.Agrees → h'.Agrees

variable {h h' h'' : Heap} {a : Address} {c : Container}

theorem agrees_iff (h : Heap) :
    h.Agrees ↔ ∀ a fields, h.get? a = some (.object fields) →
      fields.keys.Nodup ∧ ∀ key, key ∈ fields.keys ↔ ∃ v, fields.get? key = some v := by
  have hvalue : ∀ (fields : OrderedMap Text Value) (key : Text),
      fields.contains key = true ↔ ∃ v, fields.get? key = some v := by
    intro fields key
    rw [OrderedMap.contains_eq_isSome, Option.isSome_iff_exists]
  constructor
  · intro hagrees a fields hfields
    have hin : fields.Agrees := hagrees a _ hfields
    exact ⟨hin.nodup, fun key => (hin.mem_keys key).trans (hvalue fields key)⟩
  · intro hagrees a c hc
    cases c with
    | list items => trivial
    | object fields =>
      obtain ⟨hnodup, hkeys⟩ := hagrees a fields hc
      exact ⟨hnodup, fun key => (hkeys key).trans (hvalue fields key).symm⟩

theorem GrowsInto.refl (h : Heap) : h.GrowsInto h :=
  ⟨fun _ c hc => ⟨c, hc, .refl c⟩, id⟩

theorem GrowsInto.trans (hfirst : h.GrowsInto h') (hsecond : h'.GrowsInto h'') :
    h.GrowsInto h'' := by
  constructor
  · intro a c hc
    obtain ⟨c', hc', hgrown⟩ := hfirst.containers a c hc
    obtain ⟨c'', hc'', hgrown'⟩ := hsecond.containers a c' hc'
    exact ⟨c'', hc'', hgrown.trans hgrown'⟩
  · exact fun hagrees => hsecond.agrees (hfirst.agrees hagrees)

/-- There is no container at the next address. -/
theorem get?_size (h : Heap) : h.get? h.size = none := by
  cases hc : h.get? h.size with
  | none => rfl
  | some c => exact absurd (lt_size_of_get? hc) (Nat.lt_irrefl _)

theorem growsInto_alloc (h : Heap) (hc : c.Agrees) : h.GrowsInto (h.alloc c).2 := by
  constructor
  · intro a old hold
    have hother : a ≠ h.size := Nat.ne_of_lt (lt_size_of_get? hold)
    rw [get?_alloc, if_neg hother]
    exact ⟨old, hold, .refl old⟩
  · intro hagrees a c' hc'
    rw [get?_alloc] at hc'
    split at hc'
    · cases hc'
      exact hc
    · exact hagrees a c' hc'

theorem growsInto_set {old : Container} (hold : h.get? a = some old) (hset : old.SetsMember c) :
    h.GrowsInto (h.set a c) := by
  constructor
  · intro b k hk
    rw [get?_set]
    by_cases hhere : a = b
    · subst hhere
      cases hold.symm.trans hk
      rw [if_pos rfl, hold]
      exact ⟨c, rfl, hset.growsInto⟩
    · rw [if_neg hhere]
      exact ⟨k, hk, .refl k⟩
  · intro hagrees b k hk
    rw [get?_set] at hk
    split at hk
    · obtain ⟨_, _, rfl⟩ := Option.map_eq_some_iff.1 hk
      exact hset.agrees (hagrees a old hold)
    · exact hagrees b k hk

end Heap

/-- Whether the functions of the host let containers only grow, as scripts do. -/
def Outside.GrowsContainers (o : Outside) : Prop :=
  ∀ handle scope args (m : Machine), (o.functions handle scope args).Ensures m
    (fun _ m' => m.heap.GrowsInto m'.heap) fun _ m' => m.heap.GrowsInto m'.heap

/-- Functions that always fail change nothing. -/
theorem Outside.bare_growsContainers : Outside.bare.GrowsContainers :=
  fun _ _ _ m => Heap.GrowsInto.refl m.heap

/-- **No step of an evaluation shortens or reorders a container**, whatever values come up. -/
def growth (scope : ScopeId) : Custody scope where
  holds := fun _ => True
  leads := fun m m' => m.heap.GrowsInto m'.heap
  fits := fun _ => True
  refl := fun m => .refl m.heap
  trans := fun _ _ _ h h' => h.trans h'
  plain := fun _ _ _ => trivial
  noted := fun m _ _ _ _ => ⟨trivial, .refl m.heap⟩
  printed := fun m _ _ _ _ _ => ⟨trivial, .refl m.heap⟩
  lookup := fun _ _ _ _ _ => trivial
  declare := fun m _ _ _ _ _ _ _ => ⟨trivial, .refl m.heap⟩
  assign := fun m _ _ _ _ _ _ => ⟨trivial, .refl m.heap⟩
  alloc := fun m _ _ hagrees _ => ⟨⟨trivial, m.heap.growsInto_alloc hagrees⟩, trivial⟩
  read := fun _ _ _ _ _ _ _ _ => trivial
  write := fun _ _ _ _ _ _ hold hset _ => ⟨trivial, Heap.growsInto_set hold hset⟩

theorem growth_tolerates {o : Outside} (hhost : o.GrowsContainers) (scope : ScopeId) :
    (growth scope).Tolerates o := by
  intro fn handle args _ _ _ m _
  apply (hhost handle scope args m).imp
  · exact fun v m' hm' => ⟨⟨trivial, hm'⟩, trivial⟩
  · exact fun s m' hm' => ⟨trivial, hm'⟩

/-! ## §2. The moments of a session. -/

namespace Interpreter

/-- The states at the visits that a call makes: only evaluations visit anything, and no more
    than the limit lets them. -/
def visited (i : Interpreter) : HostCall → List Machine
  | .evaluate scope node =>
    ((i.record scope node).cut i.settings.stepLimit).visits.map Visit.state
  | _ => []

/-- The states of a session while a host makes calls: before the first call, after each, and
    at every visit in between. -/
def moments (i : Interpreter) : List HostCall → List Machine
  | [] => [i.machine]
  | call :: calls => i.machine :: (i.visited call ++ (i.perform call).moments calls)

/-- An evaluation ends as its record does under the limit. -/
theorem machine_evaluate (i : Interpreter) (scope : ScopeId) (node : Node) :
    (i.evaluate scope node).2.machine =
      ((i.record scope node).cut i.settings.stepLimit).after := by
  have hcut : evalNode i.settings scope node i.start =
      (i.record scope node).cutAt i.settings.stepLimit :=
    (recordNode_records scope i.settings.stepLimit node).cut i.start
  have hafter := congrArg Prod.snd (i.outcome_eq scope node)
  rw [hcut] at hafter
  refine Eq.trans hafter ?_
  unfold Record.cut Record.after
  cases (i.record scope node).cutAt i.settings.stepLimit with
  | ok v m => rfl
  | error s m => rfl

/-- A call that neither evaluates nor arranges containers leaves the heap alone. -/
theorem heap_perform (i : Interpreter) {call : HostCall} (harrange : ∀ heap, call ≠ .arrange heap)
    (hevaluate : ∀ scope node, call ≠ .evaluate scope node) :
    (i.perform call).machine.heap = i.machine.heap := by
  cases call with
  | adjust settings => rfl
  | arrange heap => exact absurd rfl (harrange heap)
  | openScope parent => rfl
  | openGlobal natives =>
    simp only [perform]
    split <;> rfl
  | openFresh => rfl
  | declare scope name value constant =>
    simp only [perform]
    split <;> rfl
  | assign scope name value =>
    simp only [perform]
    split <;> rfl
  | evaluate scope node => exact absurd rfl (hevaluate scope node)

/-- Whether the containers of each state grew into those of every later one. -/
def Ordered (states : List Machine) : Prop :=
  states.Pairwise fun m m' => m.heap.GrowsInto m'.heap

/-- One call: what there was before it grows until its end. -/
theorem ordered_perform (i : Interpreter) (hhost : i.settings.outside.GrowsContainers)
    {call : HostCall} (harrange : ∀ heap, call ≠ .arrange heap) :
    Ordered (i.machine :: (i.visited call ++ [(i.perform call).machine])) := by
  by_cases hevaluate : ∃ scope node, call = .evaluate scope node
  · obtain ⟨scope, node, rfl⟩ := hevaluate
    obtain ⟨hcourse, _⟩ := Custody.recordNode_sustains (growth_tolerates hhost scope) node i.start
      trivial
    have hcut := hcourse.cut i.settings.stepLimit
    have hstart : ∀ visit ∈ ((i.record scope node).cut i.settings.stepLimit).visits,
        i.machine.heap.GrowsInto visit.state.heap := by
      intro visit hvisit
      exact (hcut.begins visit hvisit).leads
    have hend : (i.perform (.evaluate scope node)).machine = _ := i.machine_evaluate scope node
    unfold Ordered visited
    rw [hend, List.pairwise_cons, List.pairwise_append, List.pairwise_map]
    refine ⟨?_, hcut.order, List.pairwise_singleton _ _, ?_⟩
    · simp only [List.forall_mem_append, List.forall_mem_map, List.forall_mem_singleton]
      exact ⟨hstart, hcut.arrives.leads⟩
    · simp only [List.forall_mem_map, List.forall_mem_singleton]
      exact hcut.ends
  · have hheap := i.heap_perform harrange fun scope node h => hevaluate ⟨scope, node, h⟩
    have hnone : i.visited call = [] := by
      cases call with
      | evaluate scope node => exact absurd ⟨scope, node, rfl⟩ hevaluate
      | _ => rfl
    rw [hnone]
    refine List.pairwise_pair.2 ?_
    rw [hheap]
    exact .refl _

theorem moments_eq_cons (i : Interpreter) (calls : List HostCall) :
    ∃ later, i.moments calls = i.machine :: later := by
  cases calls with
  | nil => exact ⟨[], rfl⟩
  | cons call calls => exact ⟨_, rfl⟩

/-- Any number of calls: any two moments are in order. -/
theorem ordered_moments (i : Interpreter) (hhost : i.settings.outside.GrowsContainers)
    {calls : List HostCall} (harrange : ∀ heap, .arrange heap ∉ calls)
    (hset : ∀ settings, .adjust settings ∈ calls → settings.outside.GrowsContainers) :
    Ordered (i.moments calls) := by
  induction calls generalizing i with
  | nil => exact List.pairwise_singleton _ _
  | cons call calls ih =>
    have hnot : ∀ heap, call ≠ .arrange heap := fun heap h =>
      harrange heap (h ▸ List.mem_cons_self)
    have hhere := i.ordered_perform hhost hnot
    have hhost' : (i.perform call).settings.outside.GrowsContainers := by
      rcases i.settings_perform call with hsame | hadjust
      · rw [hsame]
        exact hhost
      · exact hset _ (hadjust ▸ List.mem_cons_self)
    have hlater := ih (i.perform call) hhost'
      (fun heap h => harrange heap (List.mem_cons_of_mem _ h))
      (fun settings h => hset settings (List.mem_cons_of_mem _ h))
    -- every later moment comes from the state after the call
    have hfrom : ∀ m ∈ (i.perform call).moments calls,
        (i.perform call).machine.heap.GrowsInto m.heap := by
      obtain ⟨later, hmoments⟩ := (i.perform call).moments_eq_cons calls
      rw [hmoments] at hlater ⊢
      exact List.forall_mem_cons.2 ⟨.refl _, (List.pairwise_cons.1 hlater).1⟩
    unfold Ordered at hhere
    simp only [List.pairwise_cons, List.pairwise_append, List.forall_mem_append,
      List.forall_mem_singleton] at hhere
    obtain ⟨⟨hvisits, hafter⟩, horder, _, hends⟩ := hhere
    refine List.pairwise_cons.2 ⟨?_, List.pairwise_append.2 ⟨horder, hlater, ?_⟩⟩
    · refine List.forall_mem_append.2 ⟨hvisits, ?_⟩
      exact fun m hm => hafter.trans (hfrom m hm)
    · exact fun m hm m' hm' => (hends m hm).trans (hfrom m' hm')

end Interpreter

/-! ## §3. New containers. -/

/-- Whether the value refers to this container, which is in the second state and not in the
    first, and is all that the heaps differ in. -/
structure Value.IsNew (v : Value) (c : Container) (m m' : Machine) : Prop where
  absent : ∀ a, v = .ref a → m.heap.get? a = none
  present : ∃ a, v = .ref a ∧ m'.heap.get? a = some c
  others : ∀ a, v ≠ .ref a → m'.heap.get? a = m.heap.get? a

namespace Eval

variable {α β : Type} {m m' : Machine}

/-- What a sequence gives, its second part gives after the first. -/
theorem exists_of_bind_eq_ok {x : Eval α} {f : α → Eval β} {b : β}
    (h : (x >>= f) m = .ok b m') : ∃ a n, x m = .ok a n ∧ f a n = .ok b m' := by
  cases hx : x m with
  | ok a n =>
    rw [bind_ok hx] at h
    exact ⟨a, n, rfl, h⟩
  | error s n =>
    rw [bind_error hx] at h
    cases h

theorem eq_of_visit_eq_ok {settings : Settings} {pos : Position} {u : Unit}
    (h : visit settings pos m = .ok u m') : m' = { m with steps := m.steps + 1 } := by
  rw [visit_eq] at h
  split at h
  · cases h
  · cases h
    rfl

theorem eq_ok_of_blaming {x : Eval α} {pos : Position} {a : α}
    (h : blaming pos x m = .ok a m') : x m = .ok a m' := by
  unfold blaming at h
  split at h
  · next hx =>
    cases h
    exact hx
  · cases h
  · cases h

/-- A container is added at an address where there was none. -/
theorem isNew_of_alloc_eq_ok {c : Container} {v : Value} (h : alloc c m = .ok v m') :
    v.IsNew c m m' := by
  cases h
  refine ⟨?_, ⟨m.heap.size, rfl, ?_⟩, ?_⟩
  · intro a ha
    cases ha
    exact m.heap.get?_size
  · show (m.heap.alloc c).2.get? m.heap.size = some c
    rw [Heap.get?_alloc, if_pos rfl]
  · intro a ha
    show (m.heap.alloc c).2.get? a = m.heap.get? a
    rw [Heap.get?_alloc, if_neg]
    rintro rfl
    exact ha rfl

end Eval

section New

variable {settings : Settings} {scope : ScopeId} {span : Span} {m m' : Machine} {v : Value}

/-- What keeps the growth of containers lets them grow on the way to a result. -/
theorem growsInto_of_keeps {α : Type} {x : Eval α} {Q : α → Prop} {a : α}
    (hx : (growth scope).Keeps x Q) (h : x m = .ok a m') : m.heap.GrowsInto m'.heap := by
  have hrun := hx m trivial
  unfold Eval.Ensures at hrun
  rw [h] at hrun
  exact hrun.1.leads

section Parts

variable (hhost : settings.outside.GrowsContainers)

include hhost

theorem growsInto_evalExpr {e : Expr} (h : evalExpr settings scope e m = .ok v m') :
    m.heap.GrowsInto m'.heap :=
  growsInto_of_keeps ((Custody.recordExpr_sustains (growth_tolerates hhost scope) e).keeps
    (recordExpr_records scope settings.stepLimit e)) h

theorem growsInto_evalExprs {es : List Expr} {values : List Value}
    (h : evalExprs settings scope es m = .ok values m') : m.heap.GrowsInto m'.heap :=
  growsInto_of_keeps ((Custody.recordExprs_sustains (growth_tolerates hhost scope) es).keeps
    (recordExprs_records scope settings.stepLimit es)) h

theorem growsInto_evalProperties {ps : List Property} {fields : OrderedMap Text Value}
    (h : evalProperties settings scope ps .empty m = .ok fields m') :
    m.heap.GrowsInto m'.heap :=
  growsInto_of_keeps
    ((Custody.recordProperties_sustains (growth_tolerates hhost scope) ps .empty
      OrderedMap.all_empty).keeps
      (recordProperties_records scope settings.stepLimit ps .empty)) h

end Parts

/-- A list of keys is a new list. -/
theorem isNew_of_keysOf_eq_ok {w : Value} (h : Action.keysOf w m = .ok v m') :
    ∃ a fields, w = .ref a ∧ m.heap.get? a = some (.object fields) ∧
      v.IsNew (.list (fields.keys.map .string)) m m' := by
  -- a complaint gives no value
  have hcomplaint : ∀ u : Value,
      (do Eval.fail (.noKeys (← Eval.kindOf u)) .unknown : Eval Value) m ≠ .ok v m' := by
    intro u hu
    obtain ⟨kind, n, _, hfail⟩ := Eval.exists_of_bind_eq_ok hu
    cases hfail
  obtain ⟨_, n, hread, hlist⟩ := Eval.exists_of_bind_eq_ok h
  cases hread
  cases w with
  | ref a =>
    dsimp only at hlist
    rcases hget : m.heap.get? a with _ | ⟨fields | items⟩
    · rw [hget] at hlist
      exact absurd hlist (hcomplaint _)
    · rw [hget] at hlist
      exact ⟨a, fields, rfl, hget, Eval.isNew_of_alloc_eq_ok hlist⟩
    · rw [hget] at hlist
      exact absurd hlist (hcomplaint _)
  | _ => exact absurd hlist (hcomplaint _)

/-- So is what a call of such a function gives. -/
theorem isNew_of_callNative_eq_ok {fn : Native} {args : List Value} (hkeys : fn.action = .keys)
    (h : callNative settings scope span fn args m = .ok v m') :
    ∃ a fields rest, args = .ref a :: rest ∧ m.heap.get? a = some (.object fields) ∧
      v.IsNew (.list (fields.keys.map .string)) m m' := by
  unfold callNative at h
  split at h
  · obtain ⟨_, _, hfail, _⟩ := Eval.exists_of_bind_eq_ok h
    cases hfail
  · obtain ⟨w, n, hrun, hgiven⟩ := Eval.exists_of_bind_eq_ok h
    rw [hkeys] at hrun
    cases args with
    | nil => cases hrun
    | cons u rest =>
      have hlist : Action.keysOf u m = .ok w n := Eval.eq_ok_of_blaming hrun
      obtain ⟨a, fields, rfl, hget, hnew⟩ := isNew_of_keysOf_eq_ok hlist
      obtain ⟨b, rfl, hb⟩ := hnew.present
      cases hgiven
      exact ⟨a, fields, rest, rfl, hget, hnew⟩

/-- A list literal gives a list that was not there when its items had been computed. -/
theorem isNew_of_list (hhost : settings.outside.GrowsContainers) {items : List Expr}
    (h : evalExpr settings scope (.list span items) m = .ok v m') :
    ∃ values before, evalExprs settings scope items { m with steps := m.steps + 1 } =
        .ok values before ∧
      m.heap.GrowsInto before.heap ∧ v.IsNew (.list values) before m' := by
  rw [evalExpr] at h
  obtain ⟨_, n, hvisit, h⟩ := Eval.exists_of_bind_eq_ok h
  cases Eval.eq_of_visit_eq_ok hvisit
  obtain ⟨values, before, hvalues, h⟩ := Eval.exists_of_bind_eq_ok h
  have hgrown := growsInto_evalExprs hhost hvalues
  exact ⟨values, before, hvalues, hgrown, Eval.isNew_of_alloc_eq_ok h⟩

/-- An object literal gives an object that was not there when its fields had been
    computed. -/
theorem isNew_of_object (hhost : settings.outside.GrowsContainers) {properties : List Property}
    (h : evalExpr settings scope (.object span properties) m = .ok v m') :
    ∃ fields before, evalProperties settings scope properties .empty
        { m with steps := m.steps + 1 } = .ok fields before ∧
      m.heap.GrowsInto before.heap ∧ v.IsNew (.object fields) before m' := by
  rw [evalExpr] at h
  obtain ⟨_, n, hvisit, h⟩ := Eval.exists_of_bind_eq_ok h
  cases Eval.eq_of_visit_eq_ok hvisit
  obtain ⟨fields, before, hfields, h⟩ := Eval.exists_of_bind_eq_ok h
  have hgrown := growsInto_evalProperties hhost hfields
  exact ⟨fields, before, hfields, hgrown, Eval.isNew_of_alloc_eq_ok h⟩

/-- A call of a function for keys gives a list that was not there when its arguments had been
    computed. -/
theorem isNew_of_call (hhost : settings.outside.GrowsContainers) {callee : Expr}
    {args : List Expr} {fn : Native} {n : Machine} (hkeys : fn.action = .keys)
    (hcallee : evalExpr settings scope callee { m with steps := m.steps + 1 } =
      .ok (.native fn) n)
    (h : evalExpr settings scope (.call span callee args) m = .ok v m') :
    ∃ values before, evalExprs settings scope args n = .ok values before ∧
      m.heap.GrowsInto before.heap ∧
      ∃ a fields rest, values = .ref a :: rest ∧ before.heap.get? a = some (.object fields) ∧
        v.IsNew (.list (fields.keys.map .string)) before m' := by
  rw [evalExpr] at h
  obtain ⟨_, _, hvisit, h⟩ := Eval.exists_of_bind_eq_ok h
  cases Eval.eq_of_visit_eq_ok hvisit
  rw [Eval.bind_ok hcallee] at h
  replace h : (do
      let values ← evalExprs settings scope args
      callNative settings scope span fn values) n = .ok v m' := h
  obtain ⟨values, before, hvalues, h⟩ := Eval.exists_of_bind_eq_ok h
  have hgrown := (growsInto_evalExpr hhost hcallee).trans (growsInto_evalExprs hhost hvalues)
  exact ⟨values, before, hvalues, hgrown, isNew_of_callNative_eq_ok hkeys h⟩

end New

/-! ## §4. The law of containers. -/

/-- **Containers only grow, and only at their ends.**  Let a host make any calls but such as
    arrange containers themselves: trees are evaluated in any scopes, under any limits, with
    success or without; and let the functions of the host only let containers grow.  If, to
    begin with, the keys of every object are different and are just those that have a value,
    they are so at every moment, between the calls and at every visit within them.  From any
    moment to any later one, an object keeps its keys in their order and may get more after
    them, and a list keeps its length.  A list literal, an object literal and a call of a
    function for keys give, if they give anything, a container that was not there when their
    parts had been computed, nor before. -/
theorem containers_only_grow (i : Interpreter) (hhost : i.settings.outside.GrowsContainers) :
    (∀ calls : List HostCall, (∀ heap, .arrange heap ∉ calls) →
      (∀ settings, .adjust settings ∈ calls → settings.outside.GrowsContainers) →
      ((∀ a fields, i.machine.heap.get? a = some (.object fields) → fields.keys.Nodup ∧
          ∀ key, key ∈ fields.keys ↔ ∃ v, fields.get? key = some v) →
        ∀ m ∈ i.moments calls, ∀ a fields, m.heap.get? a = some (.object fields) →
          fields.keys.Nodup ∧ ∀ key, key ∈ fields.keys ↔ ∃ v, fields.get? key = some v) ∧
      (i.moments calls).Pairwise fun m m' =>
        (∀ a fields, m.heap.get? a = some (.object fields) →
          ∃ fields', m'.heap.get? a = some (.object fields') ∧ fields.keys <+: fields'.keys) ∧
        ∀ a items, m.heap.get? a = some (.list items) →
          ∃ items', m'.heap.get? a = some (.list items') ∧ items'.length = items.length) ∧
    ∀ (scope : ScopeId) (span : Span) (m m' : Machine) (v : Value),
      let visited : Machine := { m with steps := m.steps + 1 }
      (∀ items, evalExpr i.settings scope (.list span items) m = .ok v m' →
        ∃ values before, evalExprs i.settings scope items visited = .ok values before ∧
          m.heap.GrowsInto before.heap ∧ v.IsNew (.list values) before m') ∧
      (∀ properties, evalExpr i.settings scope (.object span properties) m = .ok v m' →
        ∃ fields before,
          evalProperties i.settings scope properties .empty visited = .ok fields before ∧
          m.heap.GrowsInto before.heap ∧ v.IsNew (.object fields) before m') ∧
      ∀ callee args fn n, fn.action = .keys →
        evalExpr i.settings scope callee visited = .ok (.native fn) n →
        evalExpr i.settings scope (.call span callee args) m = .ok v m' →
        ∃ values before, evalExprs i.settings scope args n = .ok values before ∧
          m.heap.GrowsInto before.heap ∧
          ∃ a fields rest, values = .ref a :: rest ∧ before.heap.get? a = some (.object fields) ∧
            v.IsNew (.list (fields.keys.map .string)) before m' := by
  refine ⟨?_, ?_⟩
  · intro calls harrange hset
    have horder := i.ordered_moments hhost harrange hset
    refine ⟨?_, horder.imp ?_⟩
    · intro hbegin m hm
      -- what was in step to begin with is so at every later moment
      have hgrown : i.machine.heap.GrowsInto m.heap := by
        obtain ⟨later, hmoments⟩ := i.moments_eq_cons calls
        rw [hmoments] at horder hm
        rcases List.mem_cons.1 hm with rfl | hm
        · exact .refl _
        · exact (List.pairwise_cons.1 horder).1 m hm
      exact m.heap.agrees_iff.1 (hgrown.agrees (i.machine.heap.agrees_iff.2 hbegin))
    · intro m m' hgrown
      constructor
      · intro a fields hfields
        match hgrown.containers a _ hfields with
        | ⟨.object fields', hfields', hkeys⟩ => exact ⟨fields', hfields', hkeys⟩
      · intro a items hitems
        match hgrown.containers a _ hitems with
        | ⟨.list items', hitems', hlength⟩ => exact ⟨items', hitems', hlength⟩
  · intro scope span m m' v
    refine ⟨fun items => isNew_of_list hhost, fun properties => isNew_of_object hhost, ?_⟩
    intro callee args fn n hkeys hcallee
    exact isNew_of_call hhost hkeys hcallee

section Notes

theorem exists_eq_ok_of_outcomeOf {α : Type} {r : EStateM.Result Stop Machine α} {a : α}
    (h : (outcomeOf r).1 = .ok a) : ∃ m, r = .ok a m := by
  cases r with
  | ok b m =>
    cases h
    exact ⟨m, rfl⟩
  | error s m => cases h

def somewhere : Span := ⟨⟨1, 1⟩, ⟨1, 1⟩⟩

/-- The declaration `let notes = { b: 1, a: 2, b: 3 }`. -/
def writeNotes : HostCall :=
  .evaluate 0 (.statement (.declaration somewhere false "notes" (.object somewhere [
    .mk somewhere "b" (.number somewhere 1), .mk somewhere "a" (.number somewhere 2),
    .mk somewhere "b" (.number somewhere 3)])))

/-- The expression `keys(notes)`. -/
def keysOfNotes : Expr :=
  .call somewhere (.identifier somewhere "keys") [.identifier somewhere "notes"]

/-- The assignment `notes.c = keys(notes)`. -/
def addKeys : HostCall :=
  .evaluate 0 (.statement (.expression (.assign somewhere
    (.member somewhere (.identifier somewhere "notes") (.identifier somewhere "c") false)
    keysOfNotes)))

/-- A session in which the notes were written. -/
def noted : Interpreter := (Interpreter.new ⟨0, .collect, .bare⟩ []).perform writeNotes

/-- The keys of the notes are the first ones after the assignment, each of them has a value
    then, and the list of keys was not there before. -/
theorem containers_only_grow_notes :
    let i := Interpreter.new ⟨0, .collect, .bare⟩ []
    let calls := [writeNotes, addKeys]
    i.settings.outside.GrowsContainers ∧ (∀ heap, .arrange heap ∉ calls) ∧
    (∀ settings, .adjust settings ∈ calls → settings.outside.GrowsContainers) ∧
    (∃ fields fields' : OrderedMap Text Value,
      noted.machine.heap.get? 0 = some (.object fields) ∧
      fields.keys = [Text.ofString "b", Text.ofString "a"] ∧
      (noted.perform addKeys).machine.heap.get? 0 = some (.object fields') ∧
      fields'.keys = [Text.ofString "b", Text.ofString "a", Text.ofString "c"] ∧
      fields.keys <+: fields'.keys ∧ ∃ v, fields'.get? "c" = some v) ∧
    ∃ before m' : Machine, evalExpr i.settings 0 keysOfNotes noted.machine = .ok (.ref 1) m' ∧
      noted.machine.heap.GrowsInto before.heap ∧ before.heap.get? 1 = none := by
  intro i calls
  have harrange : ∀ heap, .arrange heap ∉ calls := by
    intro heap h
    simp [calls, writeNotes, addKeys] at h
  have hset : ∀ settings, .adjust settings ∈ calls → settings.outside.GrowsContainers := by
    intro settings h
    simp [calls, writeNotes, addKeys] at h
  have hkeys : (noted.machine.heap.get? 0).map Container.keys =
      some [Text.ofString "b", Text.ofString "a"] := by decide +kernel
  have hkeys' : ((noted.perform addKeys).machine.heap.get? 0).map Container.keys =
      some [Text.ofString "b", Text.ofString "a", Text.ofString "c"] := by decide +kernel
  have hcall : (outcomeOf (evalExpr i.settings 0 keysOfNotes noted.machine)).1 =
      .ok (.ref 1) := by decide +kernel
  have hcallee : (outcomeOf (evalExpr i.settings 0 (.identifier somewhere "keys")
      { noted.machine with steps := noted.machine.steps + 1 })).1 =
      .ok (.native ⟨"keys", 1, .keys⟩) := by decide +kernel
  obtain ⟨hgrow, hnew⟩ := containers_only_grow i Outside.bare_growsContainers
  refine ⟨Outside.bare_growsContainers, harrange, hset, ?_, ?_⟩
  · obtain ⟨hagree, horder⟩ := hgrow calls harrange hset
    -- the moments after the first call and after the second one
    have hmoments : i.moments calls = (i.machine :: i.visited writeNotes) ++
        noted.machine :: (noted.visited addKeys ++ [(noted.perform addKeys).machine]) := rfl
    have hlast : (noted.perform addKeys).machine ∈ i.moments calls := by simp [hmoments]
    rw [hmoments] at horder
    have hlater := (List.pairwise_cons.1 (List.pairwise_append.1 horder).2.1).1
      (noted.perform addKeys).machine (by simp)
    obtain ⟨fields | items, hget, hmap⟩ := Option.map_eq_some_iff.1 hkeys
    · obtain ⟨fields', hget', hprefix⟩ := hlater.1 0 fields hget
      have hstart : ∀ a, i.machine.heap.get? a = none := fun _ => rfl
      obtain ⟨_, hvalues⟩ := hagree (fun a fields h => nomatch (hstart a).symm.trans h) _ hlast 0
        fields' hget'
      rw [hget'] at hkeys'
      have hlist : fields'.keys = [Text.ofString "b", Text.ofString "a", Text.ofString "c"] :=
        Option.some.inj hkeys'
      refine ⟨fields, fields', hget, hmap, hget', hlist, hprefix, (hvalues "c").1 ?_⟩
      rw [hlist]
      simp
    · cases hmap
  · obtain ⟨m', hcall⟩ := exists_eq_ok_of_outcomeOf hcall
    obtain ⟨n, hcallee⟩ := exists_eq_ok_of_outcomeOf hcallee
    obtain ⟨_, before, _, hgrown, _, _, _, _, _, hlist⟩ :=
      (hnew 0 somewhere noted.machine m' (.ref 1)).2.2 _ _ _ n rfl hcallee hcall
    exact ⟨before, m', hcall, hgrown, hlist.absent 1 rfl⟩

end Notes

end Scriptorium
