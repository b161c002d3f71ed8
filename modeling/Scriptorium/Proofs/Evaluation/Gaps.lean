/-
  Scriptorium.Proofs.Evaluation.Gaps: trees with parts missing.

  A tree that was built by hand may have holes anywhere.  Evaluation complains of a hole
  that it is to evaluate.  At three places, though, it looks at a part before it evaluates it
  or in place of that: a statement of a program, the target of an assignment and the name
  after a dot.  A hole there is a gap, and ends the evaluation in a defect.  From a sound
  state nothing else goes wrong, whatever the tree.  And no hole is passed over: where
  evaluation does not end at one, it does what it does with anything in its place.

  Main results:
    * `evalExpr_fair`, `evalNode_fair`: what the evaluation of any tree comes to.
    * `evalExpr_upToHoles`, `evalNode_upToHoles`: holes end an evaluation or play no part.
    * `missing_parts_end_evaluation`: both, for sessions.
    * `missing_parts_without_error`: the three defects.
-/

import Scriptorium.Proofs.Evaluation.Echo
import Scriptorium.Proofs.Evaluation.Program

namespace Scriptorium

/-! ## §1. Gaps. -/

/-- Whether the part misses something that evaluation takes for granted. -/
inductive Node.Lacks : Node → Defect → Prop where
  /-- A program with a statement that is not there. -/
  | statement {p : Program} (h : .expression .absent ∈ p.body) :
      Lacks (.program p) .absentStatement
  /-- An assignment without a target. -/
  | target (span : Span) (value : Expr) :
      Lacks (.ofExpr (.assign span .absent value)) .absentTarget
  /-- A dot without a name. -/
  | name (span : Span) (object : Expr) :
      Lacks (.ofExpr (.member span object .absent false)) .absentName

/-- Whether some part of the tree misses this. -/
def Node.HasGap (node : Node) (d : Defect) : Prop :=
  ∃ part ∈ node.visits fun _ => true, part.Lacks d

/-- Whether the stop is an error of a running script, or one of these defects. -/
def Stop.Fair (gap : Defect → Prop) : Stop → Prop
  | .error e => e.cause.kind.isRuntime = true
  | .outside _ => False
  | .defect d => gap d

/-- Whether the parts miss nothing but this. -/
def Covers (gap : Defect → Prop) (parts : List Node) : Prop :=
  ∀ part ∈ parts, ∀ d, part.Lacks d → gap d

section Covers

variable {gap : Defect → Prop} {part : Node} {parts more : List Node}

@[simp]
theorem covers_cons :
    Covers gap (part :: parts) ↔ (∀ d, part.Lacks d → gap d) ∧ Covers gap parts :=
  List.forall_mem_cons

@[simp]
theorem covers_append : Covers gap (parts ++ more) ↔ Covers gap parts ∧ Covers gap more :=
  List.forall_mem_append

end Covers

/-! ## §2. Whatever the tree, evaluation settles. -/

section Evaluation

variable {gap : Defect → Prop} (settings : Settings) (scope : ScopeId)

open Eval (Settles)

/-- Here it does not matter where an error is blamed. -/
theorem Eval.Safe.fair {α : Type} {n : Nat} {x : Eval α} {Q : Nat → α → Prop}
    (hx : Safe (fun _ => True) n x Q) : Settles (Stop.Fair gap) n x Q := by
  apply Settles.imp hx
  intro s hs
  cases s with
  | error e => exact hs.1.runtime
  | outside _ => exact hs
  | defect _ => exact hs.elim

/-- A complaint of a running script is fair, with or without a place. -/
theorem fair_locate {e : Error} (h : e.cause.Scripted ∧ e.pos = .unknown) (pos : Position) :
    (Stop.error (e.locate pos)).Fair gap := by
  show (e.locate pos).cause.kind.isRuntime = true
  rw [Error.cause_locate]
  exact h.1.runtime

theorem visit_fair {n : Nat} (pos : Position) :
    Settles (Stop.Fair gap) n (Eval.visit settings pos) fun _ _ => True :=
  Eval.Safe.fair (Eval.visit_safe settings trivial)

theorem lookup_fair {n : Nat} (name : Text) (pos : Position) :
    Settles (Stop.Fair gap) n (Eval.lookup scope name pos) Value.Sound :=
  Eval.lookup_settles fun _ he => fair_locate he pos

theorem applyOperator_fair {n : Nat} (span : Span) (operator : Text) (v w : Value) :
    Settles (Stop.Fair gap) n (applyOperator span operator v w) Value.Sound := by
  unfold applyOperator
  split
  · split
    · exact Settles.pure fun _ _ => trivial
    · exact Settles.throw rfl
  · exact Settles.pure fun _ _ => trivial

theorem dottedName_fair {n : Nat} {property : Expr} (h : property = .absent → gap .absentName) :
    Settles (Stop.Fair gap) n (dottedName property) Value.Sound := by
  cases property with
  | absent => exact Settles.throw (h rfl)
  | identifier span name => exact Settles.pure fun _ _ => trivial
  | _ => exact Settles.throw rfl

theorem callNative_fair {n : Nat} {span : Span} {fn : Native} {args : List Value}
    (hfn : fn ∈ Native.table) (hargs : ∀ v ∈ args, v.Sound n) :
    Settles (Stop.Fair gap) n (callNative settings scope span fn args) Value.Sound := by
  unfold callNative
  split
  · exact Settles.stop (Settles.throw rfl)
  · next hcount =>
    have hrun := Native.run_safe hfn settings scope hcount hargs
    have hblamed : Settles (Stop.Fair gap) n
        (Eval.blaming span.start (fn.action.run settings scope args)) Value.Sound := by
      refine Settles.blaming (Eval.safe_iff.1 hrun) (fun e he => fair_locate he span.start) ?_
      intro s hs hblames
      cases s with
      | error e => exact absurd rfl (hs e)
      | outside _ => exact hblames
      | defect _ => exact hblames.elim
    refine hblamed.bind ?_
    intro k v _ hv
    split
    · exact Settles.pure fun _ _ => trivial
    · exact Settles.pure fun _ hl => hv.mono hl

/-- A container and a key are computed one after the other, and then used together. -/
theorem containerAndKey_fair {n : Nat} {span : Span} {object property : Expr} {computed : Bool}
    {use : Value → Value → Eval Value}
    (hlacks : ∀ d, (Node.ofExpr (.member span object property computed)).Lacks d → gap d)
    (hobject : Settles (Stop.Fair gap) n (evalExpr settings scope object) Value.Sound)
    (hproperty : ∀ k, Settles (Stop.Fair gap) k (evalExpr settings scope property) Value.Sound)
    (huse : ∀ k container key, container.Sound k → key.Sound k →
      Settles (Stop.Fair gap) k (use container key) Value.Sound) :
    Settles (Stop.Fair gap) n (do
      let container ← evalExpr settings scope object
      let key ← if computed then evalExpr settings scope property else dottedName property
      use container key) Value.Sound := by
  refine hobject.bind ?_
  intro _ container _ hcontainer
  refine Settles.branch (fun _ => hproperty _) ?_ ?_
  · intro hcomputed
    apply dottedName_fair
    rintro rfl
    cases computed with
    | true => exact absurd rfl hcomputed
    | false => exact hlacks _ (.name span object)
  · intro _ key hk hkey
    exact huse _ container key (hcontainer.mono hk) hkey

mutual

/-- Whatever expression is evaluated from a sound state, it gives a sound value, fails as a
    script fails, or ends at a gap. -/
theorem evalExpr_fair (e : Expr) {n : Nat} (h : Covers gap e.parts) :
    Settles (Stop.Fair gap) n (evalExpr settings scope e) Value.Sound := by
  cases e with
  | absent =>
    rw [evalExpr]
    exact Settles.throw rfl
  | identifier span name =>
    rw [evalExpr]
    refine (visit_fair settings span.start).bind ?_
    intro _ _ _ _
    exact lookup_fair scope name span.start
  | number span x =>
    rw [evalExpr]
    exact (visit_fair settings _).bind fun _ _ _ _ => Settles.pure fun _ _ => trivial
  | string span t =>
    rw [evalExpr]
    exact (visit_fair settings _).bind fun _ _ _ _ => Settles.pure fun _ _ => trivial
  | binary span operator left right =>
    simp only [Expr.parts, Expr.visits, if_true, covers_cons, covers_append] at h
    rw [evalExpr]
    refine (visit_fair settings span.start).bind ?_
    intro _ _ _ _
    refine (evalExpr_fair left h.2.1).bind ?_
    intro _ x _ _
    refine (evalExpr_fair right h.2.2).bind ?_
    intro _ y _ _
    exact applyOperator_fair span operator x y
  | assign span target value =>
    simp only [Expr.parts, Expr.visits, if_true, covers_cons, covers_append] at h
    obtain ⟨hlacks, htarget, hvalue⟩ := h
    cases target with
    | absent =>
      simp only [evalExpr, Expr.kind?]
      refine (visit_fair settings span.start).bind ?_
      intro _ _ _ _
      exact Settles.throw (hlacks _ (.target span value))
    | identifier tspan name =>
      rw [evalExpr]
      refine (visit_fair settings span.start).bind ?_
      intro _ _ _ _
      refine (evalExpr_fair value hvalue).bind ?_
      intro _ v _ hv
      exact Eval.assign_settles hv fun _ he => fair_locate he tspan.start
    | member tspan object property computed =>
      simp only [Expr.visits, if_true, covers_cons, covers_append] at htarget
      rw [evalExpr]
      refine (visit_fair settings span.start).bind ?_
      intro _ _ _ _
      refine containerAndKey_fair settings scope htarget.1
        (evalExpr_fair object htarget.2.1)
        (fun _ => evalExpr_fair property htarget.2.2) ?_
      intro _ container key hcontainer hkey
      refine (evalExpr_fair value hvalue).bind ?_
      intro _ v hl hv
      -- container and key were computed before the value, in a smaller heap
      exact Eval.Safe.fair (writeMember_safe (hcontainer.mono hl) (hkey.mono hl) hv trivial)
    | _ =>
      -- anything else is no place, whatever it misses itself
      simp only [evalExpr, Expr.kind?]
      refine (visit_fair settings span.start).bind ?_
      intro _ _ _ _
      exact Settles.throw rfl
  | object span properties =>
    simp only [Expr.parts, Expr.visits, if_true, covers_cons] at h
    rw [evalExpr]
    refine (visit_fair settings span.start).bind ?_
    intro _ _ _ _
    refine (evalProperties_fair properties h.2 OrderedMap.all_empty).bind ?_
    intro _ fields _ hfields
    exact Eval.Safe.fair (Eval.alloc_safe (c := .object fields) hfields)
  | list span items =>
    simp only [Expr.parts, Expr.visits, if_true, covers_cons] at h
    rw [evalExpr]
    refine (visit_fair settings span.start).bind ?_
    intro _ _ _ _
    refine (evalExprs_fair items h.2).bind ?_
    intro _ values _ hvalues
    exact Eval.Safe.fair (Eval.alloc_safe (c := .list values) hvalues)
  | member span object property computed =>
    simp only [Expr.parts, Expr.visits, if_true, covers_cons, covers_append] at h
    rw [evalExpr]
    refine (visit_fair settings span.start).bind ?_
    intro _ _ _ _
    refine containerAndKey_fair settings scope h.1 (evalExpr_fair object h.2.1)
      (fun _ => evalExpr_fair property h.2.2) ?_
    intro _ container key hcontainer hkey
    exact Eval.Safe.fair (readMember_safe hcontainer hkey trivial)
  | call span callee args =>
    simp only [Expr.parts, Expr.visits, if_true, covers_cons, covers_append] at h
    rw [evalExpr]
    refine (visit_fair settings span.start).bind ?_
    intro _ _ _ _
    refine (evalExpr_fair callee h.2.1).bind ?_
    intro _ v _ hv
    refine (Eval.Safe.fair (asNative_safe hv trivial)).bind ?_
    intro _ fn _ hfn
    refine (evalExprs_fair args h.2.2).bind ?_
    intro _ values _ hvalues
    exact callNative_fair settings scope hfn hvalues

theorem evalExprs_fair (es : List Expr) {n : Nat}
    (h : Covers gap (Expr.visitsAll (fun _ => true) es)) :
    Settles (Stop.Fair gap) n (evalExprs settings scope es)
      fun k values => ∀ v ∈ values, v.Sound k := by
  cases es with
  | nil =>
    rw [evalExprs]
    exact Settles.pure fun _ _ => List.forall_mem_nil _
  | cons e rest =>
    simp only [Expr.visitsAll, covers_append] at h
    rw [evalExprs]
    refine (evalExpr_fair e h.1).bind ?_
    intro _ v _ hv
    refine (evalExprs_fair rest h.2).bind ?_
    intro _ values hk hvalues
    refine Settles.pure fun _ hl => List.forall_mem_cons.2 ⟨hv.mono (Nat.le_trans hk hl), ?_⟩
    exact fun w hw => (hvalues w hw).mono hl

theorem evalProperties_fair (ps : List Property) {n : Nat} {fields : OrderedMap Text Value}
    (h : Covers gap (Property.visitsAll (fun _ => true) ps))
    (hfields : fields.All (Value.Sound n)) :
    Settles (Stop.Fair gap) n (evalProperties settings scope ps fields)
      fun k fs => fs.All (Value.Sound k) := by
  cases ps with
  | nil =>
    rw [evalProperties]
    exact Settles.pure fun _ hk => hfields.imp fun _ hv => hv.mono hk
  | cons p rest =>
    obtain ⟨span, key, value⟩ := p
    simp only [Property.visitsAll, Property.visits, if_true, List.cons_append, covers_cons,
      covers_append] at h
    have hnext : ∀ k v, n ≤ k → v.Sound k → Settles (Stop.Fair gap) k
        (evalProperties settings scope rest (fields.insert key v))
          fun k fs => fs.All (Value.Sound k) := by
      intro k v hk hv
      refine evalProperties_fair rest h.2.2 ?_
      exact (hfields.imp fun _ hw => hw.mono hk).insert key v hv
    by_cases habsent : value = .absent
    · subst habsent
      rw [evalProperties]
      exact (lookup_fair scope key span.start).bind hnext
    · rw [evalProperties]
      · exact (evalExpr_fair value h.2.1).bind hnext
      · exact habsent

end

theorem evalStatement_fair {s : Statement} {n : Nat} (h : Covers gap s.parts) :
    Settles (Stop.Fair gap) n (evalStatement settings scope s) Value.Sound := by
  cases s with
  | expression e => exact evalExpr_fair settings scope e h
  | declaration span constant name value =>
    simp only [Statement.parts, Statement.visits, if_true, covers_cons] at h
    rw [evalStatement]
    refine (visit_fair settings span.start).bind ?_
    intro _ _ _ _
    refine Settles.get ?_
    intro m _ _
    dsimp only
    split
    · refine Settles.stop (Settles.located (fun _ he => by cases he) ?_)
      intro e he
      cases he
      exact fair_locate ⟨⟨rfl, rfl⟩, rfl⟩ span.start
    · refine Settles.branch (Q := Value.Sound) (fun _ => Settles.pure fun _ _ => trivial)
        (fun _ => evalExpr_fair settings scope value h.2) ?_
      intro _ v _ hv
      exact Eval.declare_settles hv fun _ he => fair_locate he span.start

theorem Statement.eq_absent_of_kind? {s : Statement} (h : s.kind? = none) :
    s = .expression .absent := by
  cases s with
  | declaration => cases h
  | expression e =>
    cases e with
    | absent => rfl
    | _ => cases h

/-- Statements, one after the other. -/
theorem evalBody_fair {body : List Statement} {n : Nat} (h : ∀ s ∈ body, Covers gap s.parts)
    (habsent : .expression .absent ∈ body → gap .absentStatement) (index : Nat) {last : Value}
    (hlast : last.Sound n) :
    Settles (Stop.Fair gap) n (evalBody settings scope index last body) Value.Sound := by
  induction body generalizing n index last with
  | nil => exact Settles.pure fun _ hk => hlast.mono hk
  | cons s rest ih =>
    obtain ⟨hs, hrest⟩ := List.forall_mem_cons.1 h
    rw [evalBody]
    cases hkind : s.kind? with
    | none =>
      rw [Statement.eq_absent_of_kind? hkind] at habsent
      exact Settles.throw (habsent List.mem_cons_self)
    | some kind =>
      refine Settles.bind (Settles.modify fun m hm _ => ⟨⟨hm.heap, hm.scopes⟩, Nat.le_refl _⟩) ?_
      intro _ _ _ _
      refine (evalStatement_fair settings scope hs).bind ?_
      intro _ v _ hv
      exact ih hrest (fun hmem => habsent (List.mem_cons_of_mem s hmem)) (index + 1) hv

/-- **Whatever tree is evaluated from a sound state**, it gives a sound value, fails as a
    script fails, or ends at one of its gaps. -/
theorem evalNode_fair (node : Node) {n : Nat} :
    Settles (Stop.Fair node.HasGap) n (evalNode settings scope node) Value.Sound := by
  have hcovers : Covers node.HasGap (node.visits fun _ => true) :=
    fun part hpart _ hlacks => ⟨part, hpart, hlacks⟩
  cases node with
  | program p =>
    simp only [Node.visits, if_true, covers_cons] at hcovers
    refine (visit_fair settings p.span.start).bind ?_
    intro _ _ _ _
    refine evalBody_fair settings scope ?_ (fun h => hcovers.1 _ (.statement h)) 0 trivial
    intro s hs part hpart
    exact hcovers.2 part (List.mem_flatMap.2 ⟨s, hs, hpart⟩)
  | statement s => exact evalStatement_fair settings scope hcovers
  | property p =>
    refine (visit_fair settings p.span.start).bind ?_
    intro _ _ _ _
    exact Settles.throw rfl

end Evaluation

/-! ## §3. Trees with holes filled.

A property without a value is shorthand, and a declaration may have none: these are no holes,
and they stay. -/

mutual

/-- Whether the second expression is the first, with anything in place of holes. -/
def Expr.FilledBy : Expr → Expr → Prop
  | .absent, _ => True
  | .binary span operator left right, filled =>
    ∃ left' right', filled = .binary span operator left' right' ∧
      left.FilledBy left' ∧ right.FilledBy right'
  | .assign span target value, filled =>
    ∃ target' value', filled = .assign span target' value' ∧
      target.FilledBy target' ∧ value.FilledBy value'
  | .object span properties, filled =>
    ∃ properties', filled = .object span properties' ∧ Property.AllFilledBy properties properties'
  | .list span items, filled =>
    ∃ items', filled = .list span items' ∧ Expr.AllFilledBy items items'
  | .member span object property computed, filled =>
    ∃ object' property', filled = .member span object' property' computed ∧
      object.FilledBy object' ∧ property.FilledBy property'
  | .call span callee args, filled =>
    ∃ callee' args', filled = .call span callee' args' ∧
      callee.FilledBy callee' ∧ Expr.AllFilledBy args args'
  | .identifier span name, filled => filled = .identifier span name
  | .number span x, filled => filled = .number span x
  | .string span t, filled => filled = .string span t

/-- Expressions, one by one. -/
def Expr.AllFilledBy : List Expr → List Expr → Prop
  | [], filled => filled = []
  | e :: rest, filled =>
    ∃ e' rest', filled = e' :: rest' ∧ e.FilledBy e' ∧ Expr.AllFilledBy rest rest'

/-- Properties, one by one. -/
def Property.AllFilledBy : List Property → List Property → Prop
  | [], filled => filled = []
  | .mk span key value :: rest, filled =>
    ∃ value' rest', filled = .mk span key value' :: rest' ∧
      (value = .absent → value' = .absent) ∧ value.FilledBy value' ∧
      Property.AllFilledBy rest rest'

end

/-- Whether the second statement is the first, with anything in place of holes. -/
def Statement.FilledBy : Statement → Statement → Prop
  | .expression e, filled => ∃ e', filled = .expression e' ∧ e.FilledBy e'
  | .declaration span constant name value, filled =>
    ∃ value', filled = .declaration span constant name value' ∧
      (value = .absent → value' = .absent) ∧ value.FilledBy value'

/-- Whether the second tree is the first, with anything in place of holes. -/
def Node.FilledBy : Node → Node → Prop
  | .program p, filled =>
    ∃ body, filled = .program ⟨p.span, body⟩ ∧ List.Forall₂ Statement.FilledBy p.body body
  | .statement s, filled => ∃ s', filled = .statement s' ∧ s.FilledBy s'
  | .property p, filled => filled = .property p

/-- The stops at holes. -/
inductive Stop.AtHole : Stop → Prop where
  | missing : AtHole (.error ⟨.missingNode, .unknown⟩)
  | statement : AtHole (.defect .absentStatement)
  | target : AtHole (.defect .absentTarget)
  | name : AtHole (.defect .absentName)

namespace Eval

variable {α β : Type}

/-- Whether the first computation stops at a hole, or does what the second does. -/
def UpToHoles (x y : Eval α) : Prop :=
  ∀ m, (∃ s m', x m = .error s m' ∧ s.AtHole) ∨ x m = y m

theorem UpToHoles.refl (x : Eval α) : x.UpToHoles x := fun _ => .inr rfl

theorem UpToHoles.stop {s : Stop} (hs : s.AtHole) (y : Eval α) : UpToHoles (throw s) y :=
  fun m => .inl ⟨s, m, rfl, hs⟩

/-- Computations in a row stop at a hole if one of them does. -/
theorem UpToHoles.bind {x y : Eval α} {f g : α → Eval β} (hx : x.UpToHoles y)
    (hf : ∀ a, (f a).UpToHoles (g a)) : (x >>= f).UpToHoles (y >>= g) := by
  intro m
  rcases hx m with ⟨s, m', hstop, hs⟩ | hsame
  · exact .inl ⟨s, m', bind_error hstop, hs⟩
  · cases he : y m with
    | ok a m' =>
      rw [bind_ok (hsame.trans he), bind_ok he]
      exact hf a m'
    | error s m' =>
      rw [bind_error (hsame.trans he), bind_error he]
      exact .inr rfl

theorem UpToHoles.branch {p : Prop} [Decidable p] {x y x' y' : Eval α} {f g : α → Eval β}
    (hx : x.UpToHoles x') (hy : y.UpToHoles y') (hf : ∀ a, (f a).UpToHoles (g a)) :
    UpToHoles (if p then x >>= f else y >>= f) (if p then x' >>= g else y' >>= g) := by
  by_cases hp : p
  · rw [if_pos hp, if_pos hp]
    exact hx.bind hf
  · rw [if_neg hp, if_neg hp]
    exact hy.bind hf

end Eval

section Filled

variable (settings : Settings) (scope : ScopeId)

open Eval (UpToHoles)

theorem Expr.FilledBy.eq_absent {e e' : Expr} (h : e.FilledBy e') (h' : e' = .absent) :
    e = .absent := by
  subst h'
  cases e <;> simp_all [Expr.FilledBy]

/-- A statement that is there looks the same with its holes filled. -/
theorem Statement.FilledBy.same_head {s s' : Statement} (h : s.FilledBy s')
    (hpresent : s ≠ .expression .absent) : s'.kind? = s.kind? ∧ s'.span = s.span := by
  cases s with
  | declaration span constant name value =>
    obtain ⟨_, rfl, _⟩ := h
    exact ⟨rfl, rfl⟩
  | expression e =>
    obtain ⟨e', rfl, he⟩ := h
    cases e with
    | absent => exact absurd rfl hpresent
    | identifier | number | string =>
      cases he
      exact ⟨rfl, rfl⟩
    | object | list =>
      obtain ⟨_, rfl, _⟩ := he
      exact ⟨rfl, rfl⟩
    | binary | assign | member | call =>
      obtain ⟨_, _, rfl, _⟩ := he
      exact ⟨rfl, rfl⟩

/-- An assignment is visited first, whatever its target is. -/
theorem evalExpr_assign (span : Span) (target value : Expr) :
    ∃ next, evalExpr settings scope (.assign span target value) =
      (do
        Eval.visit settings span.start
        next) := by
  cases target with
  | identifier | member =>
    rw [evalExpr]
    exact ⟨_, rfl⟩
  | _ =>
    simp only [evalExpr]
    exact ⟨_, rfl⟩

theorem dottedName_upToHoles {property property' : Expr} (h : property.FilledBy property') :
    (dottedName property).UpToHoles (dottedName property') := by
  cases property with
  | absent => exact .stop .name _
  | identifier | number | string =>
    cases h
    exact .refl _
  | object | list =>
    obtain ⟨_, rfl, _⟩ := h
    exact .refl _
  | binary | assign | member | call =>
    obtain ⟨_, _, rfl, _⟩ := h
    exact .refl _

mutual

/-- A hole in an expression ends its evaluation or plays no part in it. -/
theorem evalExpr_upToHoles (e : Expr) {e' : Expr} (h : e.FilledBy e') :
    (evalExpr settings scope e).UpToHoles (evalExpr settings scope e') := by
  cases e with
  | absent =>
    rw [evalExpr]
    exact .stop .missing _
  | identifier | number | string =>
    cases h
    exact .refl _
  | binary span operator left right =>
    obtain ⟨left', right', rfl, hleft, hright⟩ := h
    rw [evalExpr, evalExpr]
    refine (UpToHoles.refl _).bind fun _ => ?_
    refine (evalExpr_upToHoles left hleft).bind fun x => ?_
    exact (evalExpr_upToHoles right hright).bind fun y => .refl _
  | assign span target value =>
    obtain ⟨target', value', rfl, htarget, hvalue⟩ := h
    cases target with
    | absent =>
      -- both assignments are visited, and the first gets no further
      obtain ⟨next, hnext⟩ := evalExpr_assign settings scope span target' value'
      rw [hnext]
      simp only [evalExpr, Expr.kind?]
      exact (UpToHoles.refl _).bind fun _ => .stop .target _
    | identifier tspan name =>
      cases htarget
      rw [evalExpr, evalExpr]
      refine (UpToHoles.refl _).bind fun _ => ?_
      exact (evalExpr_upToHoles value hvalue).bind fun v => .refl _
    | member tspan object property computed =>
      obtain ⟨object', property', rfl, hobject, hproperty⟩ := htarget
      rw [evalExpr, evalExpr]
      refine (UpToHoles.refl _).bind fun _ => ?_
      refine (evalExpr_upToHoles object hobject).bind fun container => ?_
      refine UpToHoles.branch (evalExpr_upToHoles property hproperty)
        (dottedName_upToHoles hproperty) fun key => ?_
      exact (evalExpr_upToHoles value hvalue).bind fun v => .refl _
    | number | string =>
      cases htarget
      simp only [evalExpr]
      exact .refl _
    | object | list =>
      obtain ⟨_, rfl, _⟩ := htarget
      simp only [evalExpr]
      exact .refl _
    | binary | assign | call =>
      obtain ⟨_, _, rfl, _⟩ := htarget
      simp only [evalExpr]
      exact .refl _
  | object span properties =>
    obtain ⟨properties', rfl, hproperties⟩ := h
    rw [evalExpr, evalExpr]
    refine (UpToHoles.refl _).bind fun _ => ?_
    exact (evalProperties_upToHoles properties hproperties .empty).bind fun fields => .refl _
  | list span items =>
    obtain ⟨items', rfl, hitems⟩ := h
    rw [evalExpr, evalExpr]
    refine (UpToHoles.refl _).bind fun _ => ?_
    exact (evalExprs_upToHoles items hitems).bind fun values => .refl _
  | member span object property computed =>
    obtain ⟨object', property', rfl, hobject, hproperty⟩ := h
    rw [evalExpr, evalExpr]
    refine (UpToHoles.refl _).bind fun _ => ?_
    refine (evalExpr_upToHoles object hobject).bind fun container => ?_
    exact UpToHoles.branch (evalExpr_upToHoles property hproperty)
      (dottedName_upToHoles hproperty) fun key => .refl _
  | call span callee args =>
    obtain ⟨callee', args', rfl, hcallee, hargs⟩ := h
    rw [evalExpr, evalExpr]
    refine (UpToHoles.refl _).bind fun _ => ?_
    refine (evalExpr_upToHoles callee hcallee).bind fun v => ?_
    refine (UpToHoles.refl _).bind fun fn => ?_
    exact (evalExprs_upToHoles args hargs).bind fun values => .refl _

theorem evalExprs_upToHoles (es : List Expr) {es' : List Expr} (h : Expr.AllFilledBy es es') :
    (evalExprs settings scope es).UpToHoles (evalExprs settings scope es') := by
  cases es with
  | nil =>
    cases h
    exact .refl _
  | cons e rest =>
    obtain ⟨e', rest', rfl, he, hrest⟩ := h
    rw [evalExprs, evalExprs]
    refine (evalExpr_upToHoles e he).bind fun v => ?_
    exact (evalExprs_upToHoles rest hrest).bind fun values => .refl _

theorem evalProperties_upToHoles (ps : List Property) {ps' : List Property}
    (h : Property.AllFilledBy ps ps') (fields : OrderedMap Text Value) :
    (evalProperties settings scope ps fields).UpToHoles
      (evalProperties settings scope ps' fields) := by
  cases ps with
  | nil =>
    cases h
    exact .refl _
  | cons p rest =>
    obtain ⟨span, key, value⟩ := p
    obtain ⟨value', rest', rfl, hshorthand, hvalue, hrest⟩ := h
    have hnext := fun v => evalProperties_upToHoles rest hrest (fields.insert key v)
    by_cases habsent : value = .absent
    · -- shorthand is no hole: the name is looked up in both trees
      rw [hshorthand habsent, habsent, evalProperties, evalProperties]
      exact (UpToHoles.refl _).bind hnext
    · rw [evalProperties, evalProperties]
      · exact (evalExpr_upToHoles value hvalue).bind hnext
      · exact fun habsent' => habsent (hvalue.eq_absent habsent')
      · exact habsent

end

theorem evalStatement_upToHoles {s s' : Statement} (h : s.FilledBy s') :
    (evalStatement settings scope s).UpToHoles (evalStatement settings scope s') := by
  cases s with
  | expression e =>
    obtain ⟨e', rfl, he⟩ := h
    exact evalExpr_upToHoles settings scope e he
  | declaration span constant name value =>
    obtain ⟨value', rfl, hnone, hvalue⟩ := h
    by_cases habsent : value = .absent
    · -- a declaration may have no value
      rw [hnone habsent, habsent]
      exact .refl _
    · have hpresent : ∀ e : Expr, e ≠ .absent → e.isAbsent = false := by
        intro e he
        cases e with
        | absent => exact absurd rfl he
        | _ => rfl
      rw [evalStatement_declaration, evalStatement_declaration, hpresent value habsent,
        hpresent value' fun habsent' => habsent (hvalue.eq_absent habsent')]
      refine (UpToHoles.refl _).bind fun _ => ?_
      refine (UpToHoles.refl _).bind fun _ => ?_
      exact (evalExpr_upToHoles settings scope value hvalue).bind fun v => .refl _

/-- Statements, one after the other. -/
theorem evalBody_upToHoles {body body' : List Statement}
    (h : List.Forall₂ Statement.FilledBy body body') (index : Nat) (last : Value) :
    (evalBody settings scope index last body).UpToHoles
      (evalBody settings scope index last body') := by
  induction h generalizing index last with
  | nil => exact .refl _
  | @cons s s' rest rest' hs _ ih =>
    rw [evalBody, evalBody]
    by_cases habsent : s = .expression .absent
    · subst habsent
      exact .stop .statement _
    · obtain ⟨hkind, hspan⟩ := hs.same_head habsent
      rw [hkind, hspan]
      cases s.kind? with
      | none => exact .refl _
      | some kind =>
        refine (UpToHoles.refl _).bind fun _ => ?_
        refine (evalStatement_upToHoles settings scope hs).bind fun v => ?_
        exact ih (index + 1) v

/-- **A hole ends an evaluation or plays no part in it.** -/
theorem evalNode_upToHoles {node node' : Node} (h : node.FilledBy node') :
    (evalNode settings scope node).UpToHoles (evalNode settings scope node') := by
  cases node with
  | program p =>
    obtain ⟨body, rfl, hbody⟩ := h
    exact (UpToHoles.refl _).bind fun _ => evalBody_upToHoles settings scope hbody 0 .null
  | statement s =>
    obtain ⟨s', rfl, hs⟩ := h
    exact evalStatement_upToHoles settings scope hs
  | property p =>
    cases h
    exact .refl _

end Filled

/-! ## §4. Sessions. -/

namespace Interpreter

variable {i : Interpreter} {scope : ScopeId} {node node' : Node}

theorem evaluate_eq_of_run (h : evalNode i.settings scope node i.start =
    evalNode i.settings scope node' i.start) : i.evaluate scope node = i.evaluate scope node' := by
  have hrun : (evalNode i.settings scope node).run i.start =
      (evalNode i.settings scope node').run i.start := h
  unfold evaluate
  rw [hrun]

theorem evaluate_of_stop {s : Stop} {m : Machine}
    (h : evalNode i.settings scope node i.start = .error s m) :
    (i.evaluate scope node).1 = .error s := by
  obtain ⟨hfirst, _⟩ := Prod.mk.inj (i.outcome_eq scope node)
  rw [hfirst, h]

/-- What the evaluation of any tree from a sound state comes to. -/
theorem evaluate_fair (hi : i.machine.Sound) (scope : ScopeId) (node : Node) :
    (i.evaluate scope node).2.machine.Sound ∧
    ((∃ v, (i.evaluate scope node).1 = .ok v ∧ v ≠ .nothing) ∨
      ∃ s, (i.evaluate scope node).1 = .error s ∧ s.Fair node.HasGap) := by
  have hrun := evalNode_fair i.settings scope node (n := 0) i.start ⟨hi.heap, hi.scopes⟩
    (Nat.zero_le _)
  rcases evaluate_ensures hrun with ⟨v, hv, hsound, _, hvalue⟩ | ⟨s, hs, hsound, hfair⟩
  · exact ⟨hsound, .inl ⟨v, hv, hvalue.ne_nothing⟩⟩
  · exact ⟨hsound, .inr ⟨s, hs, hfair⟩⟩

end Interpreter

/-- **Missing parts end an evaluation.**  Let any tree, with holes anywhere, be evaluated in
    any scope of a session in which no value is missing and all functions are the language's
    own, under any limit.  No value is missing afterwards.  The evaluation gives a value that
    is there, or it fails as a running script does; or it ends in a defect, and then the
    tree has a program with an absent statement, an assignment without a target or a dot
    without a name, and the defect says which.  Put anything in place of holes: unless the
    evaluation ended in such a defect or complained of a missing part, nothing changes, be it
    the outcome, the heap, the scopes or what is printed and logged. -/
theorem missing_parts_end_evaluation (i : Interpreter) (hi : i.machine.Sound) (scope : ScopeId)
    (node : Node) :
    (i.evaluate scope node).2.machine.Sound ∧
    ((∃ v, (i.evaluate scope node).1 = .ok v ∧ v ≠ .nothing) ∨
      (∃ e, (i.evaluate scope node).1 = .error (.error e) ∧ e.cause.kind.isRuntime = true) ∨
      ∃ d, (i.evaluate scope node).1 = .error (.defect d) ∧ node.HasGap d) ∧
    (∀ node', node.FilledBy node' →
      (i.evaluate scope node).1 = .error (.error ⟨.missingNode, .unknown⟩) ∨
      (∃ d, (i.evaluate scope node).1 = .error (.defect d) ∧ node.HasGap d) ∨
      i.evaluate scope node = i.evaluate scope node') ∧
    Cause.missingNode.kind = .interpret ∧
    Cause.missingNode.message = "cannot evaluate a missing node" := by
  obtain ⟨hsound, hend⟩ := Interpreter.evaluate_fair hi scope node
  have hdefect : ∀ d, (i.evaluate scope node).1 = .error (.defect d) → node.HasGap d := by
    intro d hd
    rcases hend with ⟨v, hv, _⟩ | ⟨s, hs, hfair⟩
    · rw [hd] at hv
      cases hv
    · rw [hd] at hs
      cases hs
      exact hfair
  refine ⟨hsound, ?_, ?_, rfl, rfl⟩
  · rcases hend with hvalue | ⟨s, hs, hfair⟩
    · exact .inl hvalue
    · cases s with
      | error e => exact .inr (.inl ⟨e, hs, hfair⟩)
      | outside _ => exact hfair.elim
      | defect d => exact .inr (.inr ⟨d, hs, hfair⟩)
  · intro node' hfilled
    rcases evalNode_upToHoles i.settings scope hfilled i.start with ⟨s, m, hstop, hhole⟩ | hsame
    · have hs := Interpreter.evaluate_of_stop hstop
      cases hhole with
      | missing => exact .inl hs
      | statement | target | name => exact .inr (.inl ⟨_, hs, hdefect _ hs⟩)
    · exact .inr (.inr (Interpreter.evaluate_eq_of_run hsame))

/-- A value is to be stored under a number, which is no place for it: that the value is
    missing does not come up. -/
theorem missing_parts_end_evaluation_misplaced :
    let i := Interpreter.new ⟨0, .collect, .bare⟩ []
    let target := Expr.number .unknown 1
    i.machine.Sound ∧
    (i.evaluate 0 (.ofExpr (.assign .unknown target .absent))).1 =
      .error (.error ⟨.invalidTarget .numericLiteral, .unknown⟩) ∧
    ∀ value, i.evaluate 0 (.ofExpr (.assign .unknown target .absent)) =
      i.evaluate 0 (.ofExpr (.assign .unknown target value)) := by
  intro i target
  have hsound : i.machine.Sound := Interpreter.new_sound _ _
  have hend : (i.evaluate 0 (.ofExpr (.assign .unknown target .absent))).1 =
      .error (.error ⟨.invalidTarget .numericLiteral, .unknown⟩) := rfl
  refine ⟨hsound, hend, ?_⟩
  intro value
  obtain ⟨_, _, hfill, _⟩ := missing_parts_end_evaluation i hsound 0
    (.ofExpr (.assign .unknown target .absent))
  have hfilled : (Node.ofExpr (.assign .unknown target .absent)).FilledBy
      (.ofExpr (.assign .unknown target value)) :=
    ⟨_, rfl, _, rfl, target, value, rfl, rfl, trivial⟩
  rcases hfill _ hfilled with hmissing | ⟨d, hd, _⟩ | hsame
  · rw [hend] at hmissing
    cases hmissing
  · rw [hend] at hd
    cases hd
  · exact hsame

/-- Each of the three gaps ends an evaluation in a defect, which is neither a value nor an
    error. -/
theorem missing_parts_without_error :
    let i := Interpreter.new ⟨0, .collect, .bare⟩ []
    (i.evaluate 0 (.ofExpr (.assign .unknown .absent (.number .unknown 1)))).1 =
      .error (.defect .absentTarget) ∧
    (i.evaluate 0 (.ofExpr (.member .unknown (.object .unknown []) .absent false))).1 =
      .error (.defect .absentName) ∧
    (i.evaluate 0 (.program ⟨.unknown, [.expression .absent]⟩)).1 =
      .error (.defect .absentStatement) ∧
    ¬ ∀ (i : Interpreter) (scope : ScopeId) (node : Node), i.machine.Sound →
      (∃ v, (i.evaluate scope node).1 = .ok v) ∨
      ∃ e, (i.evaluate scope node).1 = .error (.error e) ∧ e.cause.kind.isRuntime = true := by
  intro i
  have htarget : (i.evaluate 0 (.ofExpr (.assign .unknown .absent (.number .unknown 1)))).1 =
      .error (.defect .absentTarget) := rfl
  refine ⟨htarget, rfl, rfl, ?_⟩
  intro hclaim
  rcases hclaim i 0 (.ofExpr (.assign .unknown .absent (.number .unknown 1)))
    (Interpreter.new_sound _ _) with ⟨v, hv⟩ | ⟨e, he, _⟩
  · rw [htarget] at hv
    cases hv
  · rw [htarget] at he
    cases he

end Scriptorium
