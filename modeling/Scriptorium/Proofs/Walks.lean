/-
  Scriptorium.Proofs.Walks: what a walk through a tree meets.

  A part of a tree is reached on a route: for every step it has the number of the part to go
  into, among all that stand or could stand inside, in the order of writing.  On this view a
  tree of any kind of parts is a tree of labels and spans, and walks and the rewriting of spans
  are described without a case for every kind.

  Routes are compared like words: a route comes before its continuations, and of two that part
  ways the one with the smaller number comes first.  A walk takes the routes in this order.

  Main results:
    * `Node.visits_eq`: a walk meets a part that is present, and goes on inside if it enters it.
    * `exists_routes`: the routes of a walk.
    * `Node.ext_at?`: labels and spans on all routes make up the tree.
    * `Node.eq_clearSpans_iff`: clearing spans sets those of the parts that a walk meets.
    * `walk_meets_entered_parts`: what a walk meets, and what clearing spans does.
-/

import Mathlib.Tactic.Choose
import Scriptorium.Proofs.Grammar
import Scriptorium.Tree.Walk

namespace Scriptorium

/-! ## §1. Parts inside parts. -/

/-- What stands inside an expression, present or not, in the order of writing. -/
def Expr.inner : Expr → List Node
  | .absent | .identifier .. | .number .. | .string .. => []
  | .binary _ _ left right => [.ofExpr left, .ofExpr right]
  | .assign _ target value => [.ofExpr target, .ofExpr value]
  | .object _ properties => properties.map .property
  | .list _ items => items.map .ofExpr
  | .member _ container property _ => [.ofExpr container, .ofExpr property]
  | .call _ callee args => .ofExpr callee :: args.map .ofExpr

/-- The way from a tree to one of its parts. -/
abbrev Route := List Nat

namespace Node

/-- What stands inside a part, present or not, in the order of writing. -/
def inner : Node → List Node
  | .program p => p.body.map .statement
  | .statement (.declaration _ _ _ value) => [.ofExpr value]
  | .statement (.expression e) => e.inner
  | .property p => [.ofExpr p.value]

/-- Whether there is a part at all. -/
def isPresent (n : Node) : Bool := n.kind?.isSome

/-- What the route leads to. -/
def at? (n : Node) : Route → Option Node
  | [] => some n
  | i :: route => n.inner[i]?.bind fun part => part.at? route

/-- Where there is no part, nothing stands inside. -/
theorem inner_of_absent {n : Node} (h : n.isPresent = false) : n.inner = [] := by
  cases n with
  | program | property => cases h
  | statement s =>
    cases s with
    | declaration => cases h
    | expression e =>
      cases e with
      | absent => rfl
      | _ => cases h

theorem sizeOf_ofExpr (e : Expr) : sizeOf (ofExpr e) = 1 + (1 + sizeOf e) := by
  simp only [ofExpr, statement.sizeOf_spec, Statement.expression.sizeOf_spec]

/-- What stands inside an expression is smaller. -/
theorem sizeOf_lt_ofExpr_of_mem_inner {e : Expr} {part : Node} (h : part ∈ e.inner) :
    sizeOf part < sizeOf (ofExpr e) := by
  rw [sizeOf_ofExpr]
  cases e with
  | absent | identifier | number | string => cases h
  | binary _ _ left right | assign _ left right | member _ left right _ =>
    simp only [Expr.inner, List.mem_cons, List.not_mem_nil, or_false] at h
    simp only [Expr.binary.sizeOf_spec, Expr.assign.sizeOf_spec, Expr.member.sizeOf_spec]
    rcases h with rfl | rfl
    · rw [sizeOf_ofExpr]
      omega
    · rw [sizeOf_ofExpr]
      omega
  | object _ properties =>
    obtain ⟨p, hp, rfl⟩ := List.mem_map.1 h
    have hlt := List.sizeOf_lt_of_mem hp
    simp only [property.sizeOf_spec, Expr.object.sizeOf_spec]
    omega
  | list _ items =>
    obtain ⟨item, hitem, rfl⟩ := List.mem_map.1 h
    have hlt := List.sizeOf_lt_of_mem hitem
    rw [sizeOf_ofExpr, Expr.list.sizeOf_spec]
    omega
  | call _ callee args =>
    rw [Expr.call.sizeOf_spec]
    rcases List.mem_cons.1 h with rfl | h
    · rw [sizeOf_ofExpr]
      omega
    · obtain ⟨arg, harg, rfl⟩ := List.mem_map.1 h
      have hlt := List.sizeOf_lt_of_mem harg
      rw [sizeOf_ofExpr]
      omega

/-- What stands inside a part is smaller. -/
theorem sizeOf_lt_of_mem_inner {n part : Node} (h : part ∈ n.inner) : sizeOf part < sizeOf n := by
  have hspan : ∀ span : Span, 0 < sizeOf span := by
    intro span
    cases span
    rw [Span.mk.sizeOf_spec]
    omega
  cases n with
  | program p =>
    obtain ⟨s, hs, rfl⟩ := List.mem_map.1 h
    have hlt := List.sizeOf_lt_of_mem hs
    cases p
    rw [statement.sizeOf_spec, program.sizeOf_spec, Program.mk.sizeOf_spec]
    dsimp only at hlt
    omega
  | property p =>
    cases p with
    | mk span key value =>
      have := hspan span
      cases List.mem_singleton.1 h
      rw [sizeOf_ofExpr, property.sizeOf_spec, Property.mk.sizeOf_spec, Property.value]
      omega
  | statement s =>
    cases s with
    | declaration span constant name value =>
      have := hspan span
      cases List.mem_singleton.1 h
      rw [sizeOf_ofExpr, statement.sizeOf_spec, Statement.declaration.sizeOf_spec]
      omega
    | expression e => exact sizeOf_lt_ofExpr_of_mem_inner h

/-- What holds of a part if it holds of all that stands inside holds of every part. -/
theorem induction {P : Node → Prop} (h : ∀ n, (∀ part ∈ n.inner, P part) → P n) (n : Node) :
    P n :=
  h n fun part hpart =>
    have := sizeOf_lt_of_mem_inner hpart
    induction h part
termination_by sizeOf n

end Node

/-! ## §2. What a walk meets. -/

section Visits

variable (enter : Node → Bool)

theorem Expr.visitsAll_eq (items : List Expr) :
    Expr.visitsAll enter items = (items.map Node.ofExpr).flatMap (Node.visits enter) := by
  induction items with
  | nil => rfl
  | cons e items ih =>
    rw [Expr.visitsAll, ih]
    rfl

theorem Property.visitsAll_eq (properties : List Property) :
    Property.visitsAll enter properties =
      (properties.map Node.property).flatMap (Node.visits enter) := by
  induction properties with
  | nil => rfl
  | cons p properties ih =>
    rw [Property.visitsAll, ih]
    rfl

/-- **A walk** meets a part that is present and, if it enters it, goes on with what stands
    inside, from the first to the last. -/
theorem Node.visits_eq (n : Node) :
    n.visits enter =
      if n.isPresent then
        n :: if enter n then n.inner.flatMap (Node.visits enter) else []
      else [] := by
  cases n with
  | program p =>
    show _ :: _ = _ :: ite _ ((p.body.map Node.statement).flatMap _) _
    rw [List.flatMap_map]
    rfl
  | property p =>
    cases p with
    | mk span key value =>
      show _ :: _ = _ :: ite _ (_ ++ []) _
      rw [List.append_nil]
      rfl
  | statement s =>
    cases s with
    | declaration span constant name value =>
      show _ :: _ = _ :: ite _ (_ ++ []) _
      rw [List.append_nil]
      rfl
    | expression e =>
      show e.visits enter = _
      cases e with
      | absent => rfl
      | identifier | number | string =>
        rw [Expr.visits]
        exact (congrArg _ (ite_self _)).symm
      | binary _ _ left right | assign _ left right | member _ left right _ =>
        rw [Expr.visits]
        show _ :: _ = _ :: ite _ (_ ++ (_ ++ [])) _
        rw [List.append_nil]
        rfl
      | object _ properties =>
        rw [Expr.visits, Property.visitsAll_eq]
        rfl
      | list _ items =>
        rw [Expr.visits, Expr.visitsAll_eq]
        rfl
      | call _ callee args =>
        rw [Expr.visits, Expr.visitsAll_eq]
        rfl

end Visits

/-- Whether a walk gets to the end of the route: a part is there, and every part on the way to
    it was entered. -/
structure Node.Meets (enter : Node → Bool) (root : Node) (route : Route) : Prop where
  present : ∃ part, root.at? route = some part ∧ part.isPresent = true
  entered : ∀ above, above <+: route → above ≠ route →
    ∃ part, root.at? above = some part ∧ enter part = true

namespace Node.Meets

variable {enter : Node → Bool} {root : Node} {i : Nat} {route : Route}

theorem nil_iff : root.Meets enter [] ↔ root.isPresent = true := by
  constructor
  · intro ⟨⟨part, hpart, hpresent⟩, _⟩
    cases hpart
    exact hpresent
  · intro hpresent
    refine ⟨⟨root, rfl, hpresent⟩, fun above habove hne => ?_⟩
    exact absurd (List.prefix_nil.1 habove) hne

/-- Going on inside: the root was entered, and from there it is a walk through a part. -/
theorem cons_iff : root.Meets enter (i :: route) ↔
    enter root = true ∧ ∃ part, root.inner[i]? = some part ∧ part.Meets enter route := by
  constructor
  · intro ⟨⟨goal, hgoal, hpresent⟩, hentered⟩
    obtain ⟨_, hroot, henter⟩ := hentered [] List.nil_prefix (List.cons_ne_nil _ _).symm
    cases hroot
    obtain ⟨part, hpart, hbelow⟩ := Option.bind_eq_some_iff.1 hgoal
    refine ⟨henter, part, hpart, ⟨goal, hbelow, hpresent⟩, fun above habove hne => ?_⟩
    obtain ⟨met, hmet, hyes⟩ := hentered (i :: above) (List.cons_prefix_cons.2 ⟨rfl, habove⟩)
      fun heq => hne (List.cons.inj heq).2
    rw [at?, hpart] at hmet
    exact ⟨met, hmet, hyes⟩
  · intro ⟨henter, part, hpart, ⟨goal, hgoal, hpresent⟩, hentered⟩
    have hstep : ∀ rest, root.at? (i :: rest) = part.at? rest := by
      intro rest
      rw [at?, hpart]
      rfl
    refine ⟨⟨goal, (hstep route).trans hgoal, hpresent⟩, fun above habove hne => ?_⟩
    rcases List.prefix_cons_iff.1 habove with rfl | ⟨rest, rfl, hrest⟩
    · exact ⟨root, rfl, henter⟩
    · rw [hstep]
      exact hentered rest hrest fun heq => hne (congrArg _ heq)

end Node.Meets

/-! ## §3. The routes of a walk. -/

/-- The routes that go on through the parts, of which the first has the number `i`. -/
def routesThrough (below : Node → List Route) : (i : Nat) → List Node → List Route
  | _, [] => []
  | i, part :: parts => (below part).map (i :: ·) ++ routesThrough below (i + 1) parts

section Routes

variable {below : Node → List Route} {parts : List Node}

theorem mem_routesThrough {i : Nat} {route : Route} :
    route ∈ routesThrough below i parts ↔
      ∃ j part rest, parts[j]? = some part ∧ rest ∈ below part ∧ route = (i + j) :: rest := by
  induction parts generalizing i with
  | nil => simp [routesThrough]
  | cons first parts ih =>
    rw [routesThrough, List.mem_append, List.mem_map, ih]
    constructor
    · rintro (⟨rest, hrest, rfl⟩ | ⟨j, part, rest, hpart, hrest, rfl⟩)
      · exact ⟨0, first, rest, rfl, hrest, rfl⟩
      · exact ⟨j + 1, part, rest, hpart, hrest, by rw [Nat.add_right_comm, Nat.add_assoc]⟩
    · intro ⟨j, part, rest, hpart, hrest, hroute⟩
      cases j with
      | zero =>
        cases hpart
        exact .inl ⟨rest, hrest, hroute.symm⟩
      | succ j =>
        refine .inr ⟨j, part, rest, hpart, hrest, ?_⟩
        rw [hroute, Nat.add_right_comm, Nat.add_assoc]

/-- The routes through the parts are in order if those below each of them are. -/
theorem routesThrough_sorted (h : ∀ part ∈ parts, (below part).Pairwise (· < ·)) (i : Nat) :
    (routesThrough below i parts).Pairwise (· < ·) := by
  induction parts generalizing i with
  | nil => exact .nil
  | cons first parts ih =>
    obtain ⟨hfirst, hparts⟩ := List.forall_mem_cons.1 h
    rw [routesThrough, List.pairwise_append]
    refine ⟨?_, ih hparts (i + 1), ?_⟩
    · rw [List.pairwise_map]
      exact hfirst.imp fun hlt => List.cons_lt_cons_iff.2 (.inr ⟨rfl, hlt⟩)
    · -- the later parts have greater numbers
      intro route hroute later hlater
      obtain ⟨rest, _, rfl⟩ := List.mem_map.1 hroute
      obtain ⟨j, _, rest', _, _, rfl⟩ := mem_routesThrough.1 hlater
      exact List.cons_lt_cons_iff.2 (.inl (by omega))

/-- The routes through the parts of `root`, from the part with the number `i` on, lead to what
    is met in these parts. -/
theorem map_at?_routesThrough {enter : Node → Bool} {root : Node}
    (h : ∀ part ∈ parts, (below part).map part.at? = (part.visits enter).map some) {i : Nat}
    (hparts : ∀ j, root.inner[i + j]? = parts[j]?) :
    (routesThrough below i parts).map root.at? =
      (parts.flatMap (Node.visits enter)).map some := by
  induction parts generalizing i with
  | nil => rfl
  | cons first parts ih =>
    obtain ⟨hfirst, hrest⟩ := List.forall_mem_cons.1 h
    have hstep : root.at? ∘ (i :: ·) = first.at? := by
      funext rest
      show root.inner[i]?.bind _ = _
      rw [show root.inner[i]? = some first from hparts 0]
      rfl
    have hnext : ∀ j, root.inner[i + 1 + j]? = parts[j]? := by
      intro j
      rw [Nat.add_assoc, Nat.add_comm 1]
      exact hparts (j + 1)
    rw [routesThrough, List.map_append, List.map_map, hstep, hfirst, ih hrest hnext,
      List.flatMap_cons, List.map_append]

end Routes

/-- **The routes of a walk**, in the order of the parts that it meets. -/
theorem exists_routes (enter : Node → Bool) (root : Node) :
    ∃ routes : List Route, routes.Pairwise (· < ·) ∧
      routes.map root.at? = (root.visits enter).map some ∧
      ∀ route, route ∈ routes ↔ root.Meets enter route := by
  induction root using Node.induction with
  | h root ih =>
    by_cases hpresent : root.isPresent = true
    · rw [root.visits_eq enter, if_pos hpresent]
      by_cases henter : enter root = true
      · choose! below hsorted hleads hmem using ih
        rw [if_pos henter]
        refine ⟨[] :: routesThrough below 0 root.inner, ?_, ?_, ?_⟩
        · refine List.pairwise_cons.2 ⟨?_, routesThrough_sorted hsorted 0⟩
          intro route hroute
          obtain ⟨j, _, rest, _, _, rfl⟩ := mem_routesThrough.1 hroute
          exact List.nil_lt_cons _ _
        · rw [List.map_cons, List.map_cons, map_at?_routesThrough hleads (by simp)]
          rfl
        · intro route
          cases route with
          | nil => simp [Node.Meets.nil_iff, hpresent]
          | cons i route =>
            rw [List.mem_cons, mem_routesThrough, Node.Meets.cons_iff]
            constructor
            · rintro (hnil | ⟨j, part, rest, hpart, hrest, heq⟩)
              · cases hnil
              · obtain ⟨rfl, rfl⟩ := List.cons.inj heq
                rw [Nat.zero_add]
                exact ⟨henter, part, hpart, (hmem part (List.mem_of_getElem? hpart) _).1 hrest⟩
            · intro ⟨_, part, hpart, hmeets⟩
              refine .inr ⟨i, part, route, hpart, ?_, by rw [Nat.zero_add]⟩
              exact (hmem part (List.mem_of_getElem? hpart) _).2 hmeets
      · rw [if_neg henter]
        refine ⟨[[]], List.pairwise_singleton _ _, rfl, fun route => ?_⟩
        cases route with
        | nil => simp [Node.Meets.nil_iff, hpresent]
        | cons i route => simp [Node.Meets.cons_iff, henter]
    · rw [root.visits_eq enter, if_neg hpresent]
      refine ⟨[], .nil, rfl, fun route => ?_⟩
      cases route with
      | nil => simp [Node.Meets.nil_iff, hpresent]
      | cons i route =>
        -- nothing stands inside
        have hnone := root.inner_of_absent (Bool.not_eq_true _ ▸ hpresent)
        simp [Node.Meets.cons_iff, hnone]

/-! ## §4. Labels and spans. -/

/-- What a part is, apart from its span and from what stands inside it. -/
inductive Label where
  | absent
  | identifier (name : Text)
  | number (value : Float)
  | string (text : Text)
  | binary (operator : Text)
  | assign
  | object
  | list
  | member (computed : Bool)
  | call
  | declaration (constant : Bool) (name : Text)
  | property (key : Text)
  | program

/-- The label of an expression. -/
def Expr.label : Expr → Label
  | .absent => .absent
  | .identifier _ name => .identifier name
  | .number _ value => .number value
  | .string _ text => .string text
  | .binary _ operator _ _ => .binary operator
  | .assign .. => .assign
  | .object .. => .object
  | .list .. => .list
  | .member _ _ _ computed => .member computed
  | .call .. => .call

namespace Node

/-- The label of a part. -/
def label : Node → Label
  | .program _ => .program
  | .statement (.declaration _ constant name _) => .declaration constant name
  | .statement (.expression e) => e.label
  | .property p => .property p.key

end Node

/-- Label, span and what stands inside make up an expression. -/
theorem Expr.ext_inner {e e' : Expr} (hlabel : e.label = e'.label) (hspan : e.span = e'.span)
    (hinner : e.inner = e'.inner) : e = e' := by
  have hexprs : ∀ {es es' : List Expr}, es.map Node.ofExpr = es'.map Node.ofExpr → es = es' :=
    fun h => (List.map_inj_right fun _ _ heq => by cases heq; rfl).1 h
  have hproperties : ∀ {ps ps' : List Property}, ps.map Node.property = ps'.map Node.property →
      ps = ps' :=
    fun h => (List.map_inj_right fun _ _ heq => by cases heq; rfl).1 h
  cases e with
  | absent =>
    cases e' with
    | absent => rfl
    | _ => cases hlabel
  | identifier =>
    cases e' with
    | identifier =>
      cases hlabel
      cases hspan
      rfl
    | _ => cases hlabel
  | number =>
    cases e' with
    | number =>
      cases hlabel
      cases hspan
      rfl
    | _ => cases hlabel
  | string =>
    cases e' with
    | string =>
      cases hlabel
      cases hspan
      rfl
    | _ => cases hlabel
  | binary =>
    cases e' with
    | binary =>
      cases hlabel
      cases hspan
      cases hinner
      rfl
    | _ => cases hlabel
  | assign =>
    cases e' with
    | assign =>
      cases hspan
      cases hinner
      rfl
    | _ => cases hlabel
  | member =>
    cases e' with
    | member =>
      cases hlabel
      cases hspan
      cases hinner
      rfl
    | _ => cases hlabel
  | object =>
    cases e' with
    | object =>
      cases hspan
      rw [hproperties hinner]
    | _ => cases hlabel
  | list =>
    cases e' with
    | list =>
      cases hspan
      rw [hexprs hinner]
    | _ => cases hlabel
  | call =>
    cases e' with
    | call =>
      cases hspan
      obtain ⟨hcallee, hargs⟩ := List.cons.inj hinner
      cases hcallee
      rw [hexprs hargs]
    | _ => cases hlabel

namespace Node

/-- Label, span and what stands inside make up a part. -/
theorem ext_inner {n n' : Node} (hlabel : n.label = n'.label) (hspan : n.span = n'.span)
    (hinner : n.inner = n'.inner) : n = n' := by
  cases n with
  | program p =>
    cases n' with
    | program p' =>
      have hbody : p.body = p'.body :=
        (List.map_inj_right fun _ _ heq => by cases heq; rfl).1 hinner
      cases p
      cases p'
      cases hspan
      cases hbody
      rfl
    | property => cases hlabel
    | statement s' =>
      cases s' with
      | declaration => cases hlabel
      | expression e' => cases e' <;> cases hlabel
  | property p =>
    cases n' with
    | property p' =>
      cases p
      cases p'
      cases hlabel
      cases hspan
      cases hinner
      rfl
    | program => cases hlabel
    | statement s' =>
      cases s' with
      | declaration => cases hlabel
      | expression e' => cases e' <;> cases hlabel
  | statement s =>
    cases n' with
    | program | property =>
      cases s with
      | declaration => cases hlabel
      | expression e => cases e <;> cases hlabel
    | statement s' =>
      cases s with
      | declaration =>
        cases s' with
        | declaration =>
          cases hlabel
          cases hspan
          cases hinner
          rfl
        | expression e' => cases e' <;> cases hlabel
      | expression e =>
        cases s' with
        | declaration => cases e <;> cases hlabel
        | expression e' => rw [Expr.ext_inner hlabel hspan hinner]

/-- **Labels and spans on all routes make up the tree.** -/
theorem ext_at? {n n' : Node}
    (h : ∀ route, (n.at? route).map (fun part => (part.label, part.span)) =
      (n'.at? route).map fun part => (part.label, part.span)) : n = n' := by
  induction n using Node.induction generalizing n' with
  | h n ih =>
    obtain ⟨hlabel, hspan⟩ := Prod.mk.inj (Option.some.inj (h []))
    refine ext_inner hlabel hspan (List.ext_getElem? fun i => ?_)
    have hpart := h [i]
    cases hi : n.inner[i]? with
    | none =>
      cases hi' : n'.inner[i]? with
      | none => rfl
      | some part' =>
        simp only [at?, hi, hi'] at hpart
        cases hpart
    | some part =>
      cases hi' : n'.inner[i]? with
      | none =>
        simp only [at?, hi, hi'] at hpart
        cases hpart
      | some part' =>
        -- below the two parts the routes go on alike
        refine congrArg some (ih part (List.mem_of_getElem? hi) fun route => ?_)
        have hroute := h (i :: route)
        simp only [at?, hi, hi'] at hroute
        exact hroute

end Node

/-! ## §5. Clearing spans. -/

section MapSpan

variable (f : Span → Span)

theorem Expr.mapSpanAll_eq_map (items : List Expr) :
    Expr.mapSpanAll f items = items.map (Expr.mapSpan f) := by
  induction items with
  | nil => rfl
  | cons e items ih => rw [Expr.mapSpanAll, ih, List.map_cons]

theorem Property.mapSpanAll_eq_map (properties : List Property) :
    Property.mapSpanAll f properties = properties.map (Property.mapSpan f) := by
  induction properties with
  | nil => rfl
  | cons p properties ih => rw [Property.mapSpanAll, ih, List.map_cons]

namespace Node

/-- Rewriting spans leaves labels alone. -/
theorem label_mapSpan (n : Node) : (n.mapSpan f).label = n.label := by
  cases n with
  | program => rfl
  | property p => cases p; rfl
  | statement s =>
    cases s with
    | declaration => rfl
    | expression e => cases e <;> rfl

/-- Rewriting the spans of a part rewrites those of all that stands inside. -/
theorem inner_mapSpan (n : Node) : (n.mapSpan f).inner = n.inner.map (mapSpan f) := by
  cases n with
  | program p =>
    show (p.body.map (Statement.mapSpan f)).map Node.statement = (p.body.map _).map _
    rw [List.map_map, List.map_map]
    rfl
  | property p => cases p; rfl
  | statement s =>
    cases s with
    | declaration => rfl
    | expression e =>
      cases e with
      | object _ properties =>
        show (Property.mapSpanAll f properties).map Node.property = _
        rw [Property.mapSpanAll_eq_map]
        simp [inner, Expr.inner, mapSpan]
      | list _ items =>
        show (Expr.mapSpanAll f items).map ofExpr = _
        rw [Expr.mapSpanAll_eq_map]
        simp [inner, Expr.inner, mapSpan, ofExpr, Statement.mapSpan]
      | call _ callee args =>
        show ofExpr _ :: (Expr.mapSpanAll f args).map ofExpr = _
        rw [Expr.mapSpanAll_eq_map]
        simp [inner, Expr.inner, mapSpan, ofExpr, Statement.mapSpan]
      | _ => rfl

/-- What stands on a route after spans were rewritten. -/
theorem at?_mapSpan (n : Node) (route : Route) :
    (n.mapSpan f).at? route = (n.at? route).map (mapSpan f) := by
  induction route generalizing n with
  | nil => rfl
  | cons i route ih =>
    rw [at?, at?, inner_mapSpan, List.getElem?_map]
    cases n.inner[i]? with
    | none => rfl
    | some part => exact ih part

end Node

end MapSpan

namespace Node

theorem span_clearSpans (n : Node) : n.clearSpans.span = .unknown := by
  cases n with
  | program => rfl
  | property p => cases p; rfl
  | statement s =>
    cases s with
    | declaration => rfl
    | expression e => cases e <;> rfl

/-- On every route there is the same after spans were cleared, without its span. -/
theorem at?_clearSpans (n : Node) (route : Route) :
    (n.clearSpans.at? route).map (fun part => (part.label, part.span)) =
      (n.at? route).map fun part => (part.label, .unknown) := by
  unfold clearSpans
  rw [at?_mapSpan, Option.map_map]
  cases n.at? route with
  | none => rfl
  | some part =>
    show some (Node.label (mapSpan _ part), part.clearSpans.span) = _
    rw [label_mapSpan, span_clearSpans]
    rfl

/-- A walk that enters every part takes every route to a part. -/
theorem meets_all_iff {root : Node} {route : Route} :
    root.Meets (fun _ => true) route ↔
      ∃ part, root.at? route = some part ∧ part.isPresent = true := by
  refine ⟨Meets.present, fun hpart => ⟨hpart, ?_⟩⟩
  intro above habove hne
  clear hne
  obtain ⟨part, hpart, _⟩ := hpart
  -- a route that leads somewhere leads somewhere all the way
  induction above generalizing root route with
  | nil => exact ⟨root, rfl, rfl⟩
  | cons i above ih =>
    obtain ⟨rest, rfl⟩ := habove
    rw [List.cons_append, at?] at hpart
    obtain ⟨next, hnext, hpart⟩ := Option.bind_eq_some_iff.1 hpart
    obtain ⟨met, hmet, henter⟩ := ih (List.prefix_append above rest) hpart
    refine ⟨met, ?_, henter⟩
    rw [at?, hnext]
    exact hmet

theorem span_of_absent {n : Node} (h : n.isPresent = false) : n.span = .unknown := by
  cases n with
  | program | property => cases h
  | statement s =>
    cases s with
    | declaration => cases h
    | expression e =>
      cases e with
      | absent => rfl
      | _ => cases h

/-- **Clearing spans sets the span of each part that a walk meets**, and nothing else. -/
theorem eq_clearSpans_iff {root tree : Node} : tree = root.clearSpans ↔ ∀ route,
    (tree.at? route).map label = (root.at? route).map label ∧
    (root.Meets (fun _ => true) route → (tree.at? route).map span = some .unknown) ∧
    (¬ root.Meets (fun _ => true) route →
      (tree.at? route).map span = (root.at? route).map span) := by
  have hunset : ∀ route, ¬ root.Meets (fun _ => true) route →
      (root.at? route).map span = (root.at? route).map fun _ => .unknown := by
    intro route hunmet
    rw [meets_all_iff] at hunmet
    cases hpart : root.at? route with
    | none => rfl
    | some part =>
      have habsent : part.isPresent = false := by
        by_contra hpresent
        exact hunmet ⟨part, hpart, by simpa using hpresent⟩
      exact congrArg some (span_of_absent habsent)
  constructor
  · rintro rfl route
    have hface := root.at?_clearSpans route
    have hlabel := congrArg (Option.map Prod.fst) hface
    have hspan := congrArg (Option.map Prod.snd) hface
    simp only [Option.map_map] at hlabel hspan
    refine ⟨hlabel, fun hmet => ?_, fun hunmet => hspan.trans (hunset route hunmet).symm⟩
    obtain ⟨⟨part, hpart, _⟩, _⟩ := hmet
    rw [hpart] at hspan
    exact hspan
  · intro h
    refine ext_at? fun route => ?_
    obtain ⟨hlabel, hmet, hunmet⟩ := h route
    rw [root.at?_clearSpans route]
    have hspan : (tree.at? route).map span = (root.at? route).map fun _ => .unknown := by
      by_cases hmeets : root.Meets (fun _ => true) route
      · rw [hmet hmeets]
        obtain ⟨⟨part, hpart, _⟩, _⟩ := hmeets
        rw [hpart]
        rfl
      · exact (hunmet hmeets).trans (hunset route hmeets)
    cases ht : tree.at? route with
    | none =>
      rw [ht] at hlabel
      cases hr : root.at? route with
      | none => rfl
      | some part =>
        rw [hr] at hlabel
        cases hlabel
    | some part' =>
      rw [ht] at hlabel hspan
      cases hr : root.at? route with
      | none =>
        rw [hr] at hlabel
        cases hlabel
      | some part =>
        rw [hr] at hlabel hspan
        exact congrArg some (Prod.ext (Option.some.inj hlabel) (Option.some.inj hspan))

end Node

/-- **A walk meets the parts whose surroundings it enters, each of them once and in order.**
    Whatever the tree and whichever parts `enter` says yes to, the walk follows routes in their
    order, so a part comes before those inside it and these in the order of writing, and no route
    is taken twice.  It takes a route if and only if a part is there and every part on the way
    was entered.  The tree without spans is the one that has the same parts on the same routes,
    all with unknown spans, and clearing the spans again changes nothing. -/
theorem walk_meets_entered_parts (root : Node) :
    (∀ enter : Node → Bool, ∃ routes : List Route, routes.Pairwise (· < ·) ∧
      routes.map root.at? = (root.visits enter).map some ∧
      ∀ route, route ∈ routes ↔ root.Meets enter route) ∧
    (∀ tree, tree = root.clearSpans ↔ ∀ route,
      (tree.at? route).map (fun part => (part.label, part.span)) =
        (root.at? route).map fun part => (part.label, .unknown)) ∧
    root.clearSpans.clearSpans = root.clearSpans := by
  refine ⟨fun enter => exists_routes enter root, fun tree => ?_, ?_⟩
  · constructor
    · intro htree route
      rw [htree]
      exact root.at?_clearSpans route
    · intro h
      exact Node.ext_at? fun route => (h route).trans (root.at?_clearSpans route).symm
  · -- clearing again looks at the labels only, and these are the same
    refine Node.ext_at? fun route => ?_
    have hlabels := congrArg (Option.map fun face => (face.1, Span.unknown))
      (root.at?_clearSpans route)
    rw [Option.map_map, Option.map_map] at hlabels
    rw [Node.at?_clearSpans, Node.at?_clearSpans]
    exact hlabels

end Scriptorium
