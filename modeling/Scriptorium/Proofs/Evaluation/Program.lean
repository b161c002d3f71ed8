/-
  Scriptorium.Proofs.Evaluation.Program: well-formed programs cannot go wrong.

  A program that is well-formed, and whose parts start at known places, is safe to
  evaluate from every sound state: no hole is met, no operator and no member name is one
  that evaluation does not know, and whatever fails is blamed on the start of a part.
  The proof has one case per form of expression and uses nothing about the steps but
  that they are safe.

  Main results: `evalExpr_safe`, `evalProgram_safe`.
-/

import Scriptorium.Proofs.Evaluation.Safe
import Scriptorium.Proofs.Parsing.Trees

namespace Scriptorium

/-! ## §1. Expressions. -/

section Evaluation

variable {place : Position → Prop} (settings : Settings) (scope : ScopeId)

open Eval (Safe)

/-- The operators of the grammar are those that numbers have. -/
theorem arithmetic?_isSome {operator : Text}
    (h : operator ∈ additiveOperators ++ multiplicativeOperators) (x y : Float) :
    ∃ z, arithmetic? operator x y = some z := by
  simp only [additiveOperators, multiplicativeOperators, List.cons_append, List.nil_append,
    List.mem_cons, List.not_mem_nil, or_false] at h
  rcases h with rfl | rfl | rfl | rfl | rfl <;> exact ⟨_, rfl⟩

theorem applyOperator_safe {n : Nat} {operator : Text}
    (h : operator ∈ additiveOperators ++ multiplicativeOperators) (span : Span) (v w : Value) :
    Safe place n (applyOperator span operator v w) Value.Sound := by
  unfold applyOperator
  split
  · next x y =>
    obtain ⟨z, hz⟩ := arithmetic?_isSome h x y
    rw [hz]
    exact Safe.pure fun _ _ => trivial
  · exact Safe.pure fun _ _ => trivial

theorem dottedName_safe {n : Nat} {property : Expr}
    (h : ∃ span name, property = .identifier span name) :
    Safe place n (dottedName property) Value.Sound := by
  obtain ⟨span, name, rfl⟩ := h
  exact Safe.pure fun _ _ => trivial

theorem asNative_safe {n : Nat} {span : Span} {v : Value} (hv : v.Sound n)
    (hpos : place span.start) :
    Safe place n (asNative span v) fun _ fn => fn ∈ Native.table := by
  unfold asNative
  split
  · exact Safe.pure fun _ _ => hv
  · exact Eval.failKind_safe hv (fun _ => ⟨rfl, rfl⟩) hpos

theorem callNative_safe {n : Nat} {span : Span} {fn : Native} {args : List Value}
    (hfn : fn ∈ Native.table) (hargs : ∀ v ∈ args, v.Sound n) (hpos : place span.start)
    (hknown : span.start.isKnown = true) :
    Safe place n (callNative settings scope span fn args) Value.Sound := by
  unfold callNative
  split
  · exact Safe.stop (Safe.fail ⟨rfl, rfl⟩ hpos)
  · next hcount =>
    -- the arity was checked, so the function finds the arguments it takes for granted
    have hrun := Native.run_safe hfn settings scope hcount hargs
    refine (Safe.blaming hpos hknown hrun).bind ?_
    intro k v _ hv
    split
    · exact Safe.pure fun _ _ => trivial
    · exact Safe.pure fun _ hl => hv.mono hl

/-- A container and a key are computed one after the other, and then used together. -/
theorem containerAndKey_safe {n : Nat} {object property : Expr} {computed : Bool}
    {use : Value → Value → Eval Value}
    (hobject : Safe place n (evalExpr settings scope object) Value.Sound)
    (hproperty : ∀ k, Safe place k (evalExpr settings scope property) Value.Sound)
    (hname : computed = false → ∃ span name, property = .identifier span name)
    (huse : ∀ k container key, container.Sound k → key.Sound k →
      Safe place k (use container key) Value.Sound) :
    Safe place n (do
      let container ← evalExpr settings scope object
      let key ← if computed then evalExpr settings scope property else dottedName property
      use container key) Value.Sound := by
  refine hobject.bind ?_
  intro _ container _ hcontainer
  refine Safe.branch (fun _ => hproperty _)
    (fun hc => dottedName_safe (hname (Bool.eq_false_iff.2 hc))) ?_
  intro _ key hk hkey
  exact huse _ container key (hcontainer.mono hk) hkey

mutual

/-- Well-formed expressions cannot go wrong. -/
theorem evalExpr_safe (e : Expr) {n : Nat} (hw : e.WellFormed) (hp : Placed place e.parts) :
    Safe place n (evalExpr settings scope e) Value.Sound := by
  cases e with
  | absent => exact hw.elim
  | identifier span name =>
    simp only [Expr.parts, Expr.visits, placed_cons] at hp
    rw [evalExpr]
    refine (Eval.visit_safe settings hp.1.1).bind ?_
    intro k _ _ _
    exact Eval.lookup_safe hp.1.1 hp.1.2
  | number span x =>
    simp only [Expr.parts, Expr.visits, placed_cons] at hp
    rw [evalExpr]
    exact (Eval.visit_safe settings hp.1.1).bind fun _ _ _ _ => Safe.pure fun _ _ => trivial
  | string span t =>
    simp only [Expr.parts, Expr.visits, placed_cons] at hp
    rw [evalExpr]
    exact (Eval.visit_safe settings hp.1.1).bind fun _ _ _ _ => Safe.pure fun _ _ => trivial
  | binary span operator left right =>
    simp only [Expr.parts, Expr.visits, if_true, placed_cons, placed_append] at hp
    obtain ⟨hoperator, hwl, hwr⟩ := hw
    rw [evalExpr]
    refine (Eval.visit_safe settings hp.1.1).bind ?_
    intro _ _ _ _
    refine (evalExpr_safe left hwl hp.2.1).bind ?_
    intro _ x _ _
    refine (evalExpr_safe right hwr hp.2.2).bind ?_
    intro _ y _ _
    exact applyOperator_safe hoperator span x y
  | assign span target value =>
    simp only [Expr.parts, Expr.visits, if_true, placed_cons, placed_append] at hp
    obtain ⟨hwt, hwv⟩ := hw
    obtain ⟨hpos, hpt, hpv⟩ := hp
    cases target with
    | absent => exact hwt.elim
    | identifier tspan name =>
      simp only [Expr.visits, placed_cons] at hpt
      rw [evalExpr]
      refine (Eval.visit_safe settings hpos.1).bind ?_
      intro _ _ _ _
      refine (evalExpr_safe value hwv hpv).bind ?_
      intro _ v _ hv
      exact Eval.assign_safe hv hpt.1.1 hpt.1.2
    | member tspan object property computed =>
      simp only [Expr.visits, if_true, placed_cons, placed_append] at hpt
      obtain ⟨hwo, hwp, hname⟩ := hwt
      rw [evalExpr]
      refine (Eval.visit_safe settings hpos.1).bind ?_
      intro _ _ _ _
      refine containerAndKey_safe settings scope (evalExpr_safe object hwo hpt.2.1)
        (fun _ => evalExpr_safe property hwp hpt.2.2) hname ?_
      intro _ container key hcontainer hkey
      refine (evalExpr_safe value hwv hpv).bind ?_
      intro _ v hl hv
      -- container and key were computed before the value, in a smaller heap
      exact writeMember_safe (hcontainer.mono hl) (hkey.mono hl) hv hpt.1.1
    | _ =>
      -- anything else is no place; the complaint is about the assignment
      simp only [evalExpr, Expr.kind?]
      refine (Eval.visit_safe settings hpos.1).bind ?_
      intro _ _ _ _
      exact Safe.fail ⟨rfl, rfl⟩ hpos.1
  | object span properties =>
    simp only [Expr.parts, Expr.visits, if_true, placed_cons] at hp
    rw [evalExpr]
    refine (Eval.visit_safe settings hp.1.1).bind ?_
    intro _ _ _ _
    refine (evalProperties_safe properties hw hp.2 OrderedMap.all_empty).bind ?_
    intro _ fields _ hfields
    exact Eval.alloc_safe (c := .object fields) hfields
  | list span items =>
    simp only [Expr.parts, Expr.visits, if_true, placed_cons] at hp
    rw [evalExpr]
    refine (Eval.visit_safe settings hp.1.1).bind ?_
    intro _ _ _ _
    refine (evalExprs_safe items hw hp.2).bind ?_
    intro _ values _ hvalues
    exact Eval.alloc_safe (c := .list values) hvalues
  | member span object property computed =>
    simp only [Expr.parts, Expr.visits, if_true, placed_cons, placed_append] at hp
    obtain ⟨hwo, hwp, hname⟩ := hw
    rw [evalExpr]
    refine (Eval.visit_safe settings hp.1.1).bind ?_
    intro _ _ _ _
    refine containerAndKey_safe settings scope (evalExpr_safe object hwo hp.2.1)
      (fun _ => evalExpr_safe property hwp hp.2.2) hname ?_
    intro _ container key hcontainer hkey
    exact readMember_safe hcontainer hkey hp.1.1
  | call span callee args =>
    simp only [Expr.parts, Expr.visits, if_true, placed_cons, placed_append] at hp
    obtain ⟨hwc, hwa⟩ := hw
    rw [evalExpr]
    refine (Eval.visit_safe settings hp.1.1).bind ?_
    intro _ _ _ _
    refine (evalExpr_safe callee hwc hp.2.1).bind ?_
    intro _ v _ hv
    refine (asNative_safe hv hp.1.1).bind ?_
    intro _ fn _ hfn
    refine (evalExprs_safe args hwa hp.2.2).bind ?_
    intro _ values _ hvalues
    exact callNative_safe settings scope hfn hvalues hp.1.1 hp.1.2

theorem evalExprs_safe (es : List Expr) {n : Nat} (hw : Expr.AllWellFormed es)
    (hp : Placed place (Expr.visitsAll (fun _ => true) es)) :
    Safe place n (evalExprs settings scope es) fun k values => ∀ v ∈ values, v.Sound k := by
  cases es with
  | nil => exact Safe.pure fun _ _ => List.forall_mem_nil _
  | cons e rest =>
    simp only [Expr.visitsAll, placed_append] at hp
    rw [evalExprs]
    refine (evalExpr_safe e hw.1 hp.1).bind ?_
    intro _ v _ hv
    refine (evalExprs_safe rest hw.2 hp.2).bind ?_
    intro _ values hk hvalues
    refine Safe.pure fun _ hl => List.forall_mem_cons.2 ⟨hv.mono (Nat.le_trans hk hl), ?_⟩
    exact fun w hw => (hvalues w hw).mono hl

theorem evalProperties_safe (ps : List Property) {n : Nat} {fields : OrderedMap Text Value}
    (hw : Property.AllWellFormed ps) (hp : Placed place (Property.visitsAll (fun _ => true) ps))
    (hfields : fields.All (Value.Sound n)) :
    Safe place n (evalProperties settings scope ps fields) fun k fs => fs.All (Value.Sound k) := by
  cases ps with
  | nil => exact Safe.pure fun _ hk => hfields.imp fun _ hv => hv.mono hk
  | cons p rest =>
    obtain ⟨span, key, value⟩ := p
    simp only [Property.visitsAll, Property.visits, if_true, List.cons_append, placed_cons,
      placed_append] at hp
    obtain ⟨hpos, hpv, hprest⟩ := hp
    obtain ⟨⟨_, hvalue⟩, hwrest⟩ := hw
    -- with or without a value of its own, the property adds one sound field
    have hnext : ∀ k v, n ≤ k → v.Sound k →
        Safe place k (evalProperties settings scope rest (fields.insert key v))
          fun k fs => fs.All (Value.Sound k) := by
      intro k v hk hv
      refine evalProperties_safe rest hwrest hprest ?_
      exact (hfields.imp fun _ hw => hw.mono hk).insert key v hv
    rcases hvalue with rfl | hwv
    · rw [evalProperties]
      exact (Eval.lookup_safe hpos.1 hpos.2).bind hnext
    · rw [evalProperties]
      · exact (evalExpr_safe value hwv hpv).bind hnext
      · rintro rfl
        exact hwv

end

/-! ## §2. Statements and programs. -/

theorem evalStatement_safe {s : Statement} {n : Nat} (hw : s.WellFormed)
    (hp : Placed place s.parts) : Safe place n (evalStatement settings scope s) Value.Sound := by
  cases s with
  | expression e => exact evalExpr_safe settings scope e hw hp
  | declaration span constant name value =>
    simp only [Statement.parts, Statement.visits, if_true, placed_cons] at hp
    obtain ⟨hpos, hpv⟩ := hp
    obtain ⟨_, hvalue⟩ := hw
    rw [evalStatement]
    refine (Eval.visit_safe settings hpos.1).bind ?_
    intro _ _ _ _
    refine Safe.get ?_
    intro m _ _
    dsimp only
    split
    · -- the name is taken: nothing is computed
      refine Safe.stop (Safe.located hpos.1 hpos.2 ?_ ?_)
      · intro _ h
        cases h
      · intro e he
        cases he
        exact ⟨⟨rfl, rfl⟩, rfl⟩
    · refine Safe.branch (Q := Value.Sound) (fun _ => Safe.pure fun _ _ => trivial) ?_ ?_
      · intro habsent
        -- well-formedness leaves a value out only where it is absent
        rcases hvalue with hwv | ⟨rfl, _⟩
        · exact evalExpr_safe settings scope value hwv hpv
        · exact absurd rfl habsent
      · intro _ v _ hv
        exact Eval.declare_safe hv hpos.1 hpos.2

theorem Expr.WellFormed.exists_kind? {e : Expr} (h : e.WellFormed) :
    ∃ kind, e.kind? = some kind := by
  cases e with
  | absent => exact h.elim
  | _ => exact ⟨_, rfl⟩

theorem Statement.WellFormed.exists_kind? {s : Statement} (h : s.WellFormed) :
    ∃ kind, s.kind? = some kind := by
  cases s with
  | declaration => exact ⟨_, rfl⟩
  | expression e => exact Expr.WellFormed.exists_kind? h

/-- Well-formed statements, one after the other, cannot go wrong. -/
theorem evalBody_safe {body : List Statement} {n : Nat} (hw : ∀ s ∈ body, s.WellFormed)
    (hp : ∀ s ∈ body, Placed place s.parts) (index : Nat) {last : Value} (hlast : last.Sound n) :
    Safe place n (evalBody settings scope index last body) Value.Sound := by
  induction body generalizing n index last with
  | nil => exact Safe.pure fun _ hk => hlast.mono hk
  | cons s rest ih =>
    obtain ⟨hws, hwrest⟩ := List.forall_mem_cons.1 hw
    obtain ⟨hps, hprest⟩ := List.forall_mem_cons.1 hp
    obtain ⟨kind, hkind⟩ := hws.exists_kind?
    rw [evalBody, hkind]
    refine Safe.bind (Safe.modify fun m hm _ => ⟨⟨hm.heap, hm.scopes⟩, Nat.le_refl _⟩) ?_
    intro _ _ _ _
    refine (evalStatement_safe settings scope hws hps).bind ?_
    intro _ v _ hv
    exact ih hwrest hprest (index + 1) hv

/-- **Well-formed programs cannot go wrong** where every part has its place. -/
theorem evalProgram_safe {p : Program} {n : Nat} (hw : p.WellFormed)
    (hp : Placed place p.parts) : Safe place n (evalProgram settings scope p) Value.Sound := by
  simp only [Program.parts, Node.visits, if_true, placed_cons] at hp
  obtain ⟨hpos, hbody⟩ := hp
  refine (Eval.visit_safe settings hpos.1).bind ?_
  intro _ _ _ _
  refine evalBody_safe settings scope hw ?_ 0 trivial
  intro s hs part hpart
  exact hbody part (List.mem_flatMap.2 ⟨s, hs, hpart⟩)

end Evaluation

end Scriptorium
