/-
  Scriptorium.Proofs.Evaluation.Upkeep: properties of states that depend on containers.

  An `Upkeep` is a custody of which only the containers matter: the values that may come up
  are those that refer to known containers, and to any function.  What was counted, printed
  and logged plays no part.

  Main results:
    * `evalExpr_keeps`, `evalBody_keeps`: what every step keeps, every evaluation keeps.
    * `holds_evaluate`: so does every evaluation in a session.
-/

import Scriptorium.Proofs.Evaluation.Custody

namespace Scriptorium

/-! ## §1. Values at hand. -/

/-- Whether the value, if it refers to a container, refers to a known one. -/
def Value.Within (known : Address → Prop) (v : Value) : Prop := ∀ a, v = .ref a → known a

/-- Whether all members of the container refer to known ones at most. -/
def Container.Within (known : Address → Prop) (c : Container) : Prop :=
  ∀ v, c.Holds v → v.Within known

/-- A value that refers to nothing is at hand everywhere. -/
theorem Value.Within.of_ne {known : Address → Prop} {v : Value} (h : ∀ a, v ≠ .ref a) :
    v.Within known :=
  fun a ha => absurd ha (h a)

/-! ## §2. Upkeep. -/

/-- A property of states, and the containers that may come up where it holds, such that
    no step of an evaluation in the scope breaks it. -/
structure Upkeep (scope : ScopeId) where
  holds : Machine → Prop
  known : Address → Prop
  /-- Nothing depends on what was counted, printed and logged, and how often the clock was
      read. -/
  noted : ∀ m steps readings earlier output log, holds m →
    holds { m with steps, readings, earlier, output, log }
  /-- Names stand for values at hand. -/
  lookup : ∀ m name v, holds m → m.scopes.lookup scope name = .ok v → v.Within known
  /-- A name may be declared for a value at hand. -/
  declare : ∀ m name v constant f, holds m → v.Within known →
    m.scopes.declare scope name v constant = .ok f → holds { m with scopes := f }
  /-- A value at hand may be assigned to a name. -/
  assign : ∀ m name v f, holds m → v.Within known →
    m.scopes.assign scope name v = .ok f → holds { m with scopes := f }
  /-- A container may be added, and is known from then on. -/
  alloc : ∀ m c, holds m → c.Within known →
    holds { m with heap := (m.heap.alloc c).2 } ∧ known m.heap.size
  /-- The members of known containers are at hand. -/
  read : ∀ m a c, holds m → known a → m.heap.get? a = some c → c.Within known
  /-- The contents of known containers may be replaced. -/
  write : ∀ m a c, holds m → known a → c.Within known →
    holds { m with heap := m.heap.set a c }

namespace Upkeep

variable {scope : ScopeId} (u : Upkeep scope) {α : Type}

/-- An upkeep is a custody of the containers. -/
def custody : Custody scope where
  holds := u.holds
  leads := fun _ _ => True
  fits := Value.Within u.known
  refl := fun _ => trivial
  trans := fun _ _ _ _ _ => trivial
  plain := fun _ hplain _ => .of_ne hplain
  noted := fun m steps readings log hm =>
    ⟨u.noted m steps readings m.earlier m.output log hm, trivial⟩
  printed := fun m _ output hm _ _ =>
    ⟨u.noted m m.steps m.readings m.earlier output m.log hm, trivial⟩
  lookup := u.lookup
  declare := fun m name v constant f hm hv hf => ⟨u.declare m name v constant f hm hv hf, trivial⟩
  assign := fun m name v f hm hv hf => ⟨u.assign m name v f hm hv hf, trivial⟩
  alloc := by
    intro m c hm _ hc
    obtain ⟨hholds, hknown⟩ := u.alloc m c hm hc
    refine ⟨⟨hholds, trivial⟩, ?_⟩
    intro a ha
    cases ha
    exact hknown
  read := fun m a c hm ha hc => u.read m a c hm (ha a rfl) hc
  write := fun m a _ c hm ha _ _ hc => ⟨u.write m a c hm (ha a rfl) hc, trivial⟩

/-- Whether the computation keeps the property, however it ends, and gives a result of this
    sort. -/
def Keeps (x : Eval α) (Q : α → Prop) : Prop :=
  ∀ m, u.holds m → x.Ensures m (fun a m' => u.holds m' ∧ Q a) fun _ m' => u.holds m'

variable {u}

theorem Keeps.of_custody {x : Eval α} {Q : α → Prop} (hx : u.custody.Keeps x Q) : u.Keeps x Q :=
  fun m hm => (hx m hm).imp (fun _ _ ⟨hm', ha⟩ => ⟨hm'.holds, ha⟩) fun _ _ hm' => hm'.holds

theorem visit_keeps (settings : Settings) (pos : Position) :
    u.Keeps (Eval.visit settings pos) fun _ => True := by
  intro m hm
  have hcounted := u.noted m (m.steps + 1) m.readings m.earlier m.output m.log hm
  unfold Eval.Ensures
  rw [Eval.visit_eq]
  by_cases hover : 0 < settings.stepLimit ∧ settings.stepLimit ≤ m.steps
  · rw [if_pos hover]
    exact hcounted
  · rw [if_neg hover]
    exact ⟨hcounted, trivial⟩

theorem checkUndeclared_keeps {name : Text} {pos : Position} :
    u.Keeps (checkUndeclared scope name pos) fun _ => True :=
  .of_custody (Custody.checkUndeclared_keeps (c := u.custody))

variable {settings : Settings} (hhost : u.custody.Tolerates settings.outside)

include hhost

/-- The evaluation of an expression keeps what every step keeps. -/
theorem evalExpr_keeps (e : Expr) :
    u.Keeps (evalExpr settings scope e) (Value.Within u.known) :=
  .of_custody ((Custody.recordExpr_sustains hhost e).keeps
    (recordExpr_records scope settings.stepLimit e))

/-- So does that of statements, one after the other. -/
theorem evalBody_keeps (body : List Statement) (index : Nat) {last : Value}
    (hlast : last.Within u.known) :
    u.Keeps (evalBody settings scope index last body) (Value.Within u.known) :=
  .of_custody ((Custody.recordBody_sustains hhost body index hlast).keeps
    (recordBody_records scope settings.stepLimit body index last))

omit hhost in
/-- In a session, the property holds after an evaluation if it held before. -/
theorem holds_evaluate (u : Upkeep scope) (i : Interpreter)
    (hhost : u.custody.Tolerates i.settings.outside) (node : Node) (h : u.holds i.machine) :
    u.holds (i.evaluate scope node).2.machine :=
  Custody.holds_evaluate i hhost node
    (u.noted i.machine 0 i.machine.readings (i.machine.earlier ++ i.machine.output) [] [] h)

end Upkeep

end Scriptorium
