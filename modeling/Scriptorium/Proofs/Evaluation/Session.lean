/-
  Scriptorium.Proofs.Evaluation.Session: sessions in which scripts are evaluated.

  A session is reachable if it comes about from a new one by opening scopes and by
  evaluating scripts that can be read, each of them in any scope and with any limit and
  sink, and with anything outside.  Whether an evaluation succeeds makes no difference: what
  it did stays.  Every reachable session is sound, because a new one is and every step keeps
  it so; and from a sound session no script that can be read goes wrong.

  Main results:
    * `Reachable.sound`: the states that sessions reach are sound.
    * `parsed_programs_cannot_go_wrong`: what evaluations come to, and where errors are.
-/

import Scriptorium.Proofs.Evaluation.Echo
import Scriptorium.Proofs.Evaluation.Program
import Scriptorium.Proofs.Parsing.Errors

namespace Scriptorium

/-! ## §1. Evaluations from sound states. -/

namespace Interpreter

/-- Opens a scope inside another one. -/
def extend (i : Interpreter) (parent : ScopeId) : ScopeId × Interpreter :=
  let (scope, scopes) := i.machine.scopes.add .empty (some parent)
  (scope, { i with machine := { i.machine with scopes } })

/-- A script that can be read, evaluated from a sound state, gives a sound value or is
    to blame for an error at one of its tokens.  The state stays sound. -/
theorem evaluate_safe {i : Interpreter} (hi : i.machine.Sound) (scope : ScopeId) {source : Text}
    {p : Program} (hp : Program.parse source = .ok p) :
    ∃ tokens, tokenize source = .ok tokens ∧
      (i.evaluate scope (.program p)).2.machine.Sound ∧
      ((∃ v, (i.evaluate scope (.program p)).1 = .ok v ∧ v ≠ .nothing) ∨
        ∃ e, (i.evaluate scope (.program p)).1 = .error (.error e) ∧ e.cause.Scripted ∧
          ∃ t ∈ tokens, t.pos = e.pos) := by
  obtain ⟨tokens, htokens, hplaced⟩ := placed_of_parse hp
  -- no value is at hand when a script starts, so any heap will do
  have hsafe := evalProgram_safe i.settings scope (n := 0) (wellFormed_of_parse hp) hplaced
  refine ⟨tokens, htokens, ?_⟩
  have hrun : (evalNode i.settings scope (.program p)).Ensures i.start _ _ :=
    hsafe i.start ⟨hi.heap, hi.scopes⟩ (Nat.zero_le _)
  rcases evaluate_ensures hrun with
    ⟨v, hv, hsound, _, hvalue⟩ | ⟨s, hs, hsound, hblames⟩
  · exact ⟨hsound, .inl ⟨v, hv, hvalue.ne_nothing⟩⟩
  · refine ⟨hsound, .inr ?_⟩
    cases s with
    | error e => exact ⟨e, hs, hblames⟩
    | outside _ => exact hblames.elim
    | defect _ => exact hblames.elim

/-! ## §2. Reachable sessions. -/

/-- The sessions that come about from new ones. -/
inductive Reachable : Interpreter → Prop where
  /-- A new session. -/
  | new (settings : Settings) (allowed : List Text) : Reachable (.new settings allowed)
  /-- Limit, sink and what lies outside may be others for every evaluation. -/
  | adjust {i} (settings : Settings) (before : Reachable i) : Reachable { i with settings }
  /-- Another global scope. -/
  | freshScope {i} (before : Reachable i) : Reachable i.freshScope.2
  /-- A scope inside another one. -/
  | extend {i} (parent : ScopeId) (before : Reachable i) : Reachable (i.extend parent).2
  /-- The evaluation of a script that can be read, whatever comes of it. -/
  | evaluate {i source p} (scope : ScopeId) (read : Program.parse source = .ok p)
      (before : Reachable i) : Reachable (i.evaluate scope (.program p)).2

/-- Every reachable session is sound. -/
theorem Reachable.sound {i : Interpreter} (h : i.Reachable) : i.machine.Sound := by
  induction h with
  | new settings allowed => exact new_sound settings allowed
  | adjust _ _ ih => exact ih
  | freshScope _ ih => exact ⟨ih.heap, ih.scopes.add (globalNames_sound _ _) none⟩
  | extend parent _ ih => exact ⟨ih.heap, ih.scopes.add Table.all_empty (some parent)⟩
  | evaluate scope hread _ ih =>
    -- sound after a value and after a stop alike
    obtain ⟨_, _, hsound, _⟩ := evaluate_safe ih scope hread
    exact hsound

end Interpreter

/-! ## §3. What evaluations come to. -/

/-- Whether the value is stored in the state: bound to a name, or in a container. -/
inductive Machine.Stores (m : Machine) : Value → Prop where
  | binding {scope name v} (bound : (m.scopes.names scope).values.get? name = some v) :
      Stores m v
  | field {a fields key v} (object : m.heap.get? a = some (.object fields))
      (member : fields.get? key = some v) : Stores m v
  | item {a items v} (list : m.heap.get? a = some (.list items)) (member : v ∈ items) :
      Stores m v

theorem Machine.Sound.ne_nothing_of_stores {m : Machine} (hm : m.Sound) {v : Value}
    (h : m.Stores v) : v ≠ .nothing := by
  cases h with
  | @binding scope name v hbound => exact (hm.scopes scope name v hbound).ne_nothing
  | @field a fields key v hobject hmember =>
    have hsound : fields.All (Value.Sound m.heap.size) := hm.heap a _ hobject
    exact (hsound key v hmember).ne_nothing
  | @item a items v hlist hmember =>
    have hsound : ∀ v ∈ items, v.Sound m.heap.size := hm.heap a _ hlist
    exact (hsound v hmember).ne_nothing

/-- **Programs that were read cannot go wrong internally, and every failure is located.**
    In a reachable session no value is missing from a binding or a container.  Evaluating
    a script that can be read, in any scope, gives a value that is there, or it stops with
    an error of a running script, none of those that only a broken tree leads to, at the
    place of one of its tokens; it never ends in a defect.  A script that cannot be read
    is refused with a tokenizing error at its first faulty symbol, or with a parse error
    at the place of one of its tokens.  Line and column of every error are positive. -/
theorem parsed_programs_cannot_go_wrong :
    (∀ i : Interpreter, i.Reachable →
      (∀ v, i.machine.Stores v → v ≠ .nothing) ∧
      ∀ scope source p, Program.parse source = .ok p →
        ∃ tokens, tokenize source = .ok tokens ∧
          ((∃ v, (i.evaluate scope (.program p)).1 = .ok v ∧ v ≠ .nothing) ∨
            ∃ e, (i.evaluate scope (.program p)).1 = .error (.error e) ∧
              e.cause.kind.isRuntime = true ∧ e.cause.isInternal = false ∧
              (∃ t ∈ tokens, t.pos = e.pos) ∧ 1 ≤ e.pos.line ∧ 1 ≤ e.pos.column)) ∧
    (∀ source e, Program.parse source = .error e →
      (e.cause.kind = .tokenize ∧ e.Faulty source ∨
        e.cause.kind = .parse ∧ ∃ tokens, tokenize source = .ok tokens ∧
          ∃ t ∈ tokens, t.pos = e.pos) ∧ 1 ≤ e.pos.line ∧ 1 ≤ e.pos.column) := by
  constructor
  · intro i hi
    refine ⟨fun v hv => hi.sound.ne_nothing_of_stores hv, ?_⟩
    intro scope source p hp
    obtain ⟨tokens, htokens, _, hvalue | ⟨e, he, hcause, t, ht, hpos⟩⟩ :=
      Interpreter.evaluate_safe hi.sound scope hp
    · exact ⟨tokens, htokens, .inl hvalue⟩
    · have hplace := inText_of_tokenize htokens t ht
      rw [hpos] at hplace
      refine ⟨tokens, htokens, .inr ⟨e, he, hcause.runtime, hcause.notInternal, ?_, hplace⟩⟩
      exact ⟨t, ht, hpos⟩
  · intro source e he
    rcases refused_of_parse he with hfaulty | ⟨tokens, htokens, hkind, t, ht, hpos⟩
    · refine ⟨.inl ⟨hfaulty.kind_eq, hfaulty⟩, ?_⟩
      obtain ⟨before, _, _, _, _, hpos, _⟩ := hfaulty
      rw [hpos]
      exact (Text.ofSymbols before).placeAfter_inText
    · have hplace := inText_of_tokenize htokens t ht
      rw [hpos] at hplace
      exact ⟨.inr ⟨hkind, tokens, htokens, t, ht, hpos⟩, hplace⟩

/-- A script of two lines, evaluated twice in a session whose sink takes one write.  The first
    line is printed, and the second one fails; after that the first line fails too. -/
theorem parsed_programs_cannot_go_wrong_twice :
    let source : Text := "print(null);\nprint(null)"
    let sink : Sink := ⟨fun before t => if before.isEmpty then (t, none) else ([], some "full")⟩
    let i := Interpreter.new ⟨9, sink, .bare⟩ ["print"]
    ∃ p, Program.parse source = .ok p ∧
      let j := (i.evaluate 0 (.program p)).2
      (i.evaluate 0 (.program p)).1 = .error (.error ⟨.printFailed "full", ⟨2, 1⟩⟩) ∧
      j.machine.output = "null\n" ∧
      ∃ tokens, tokenize source = .ok tokens ∧
        ((∃ v, (j.evaluate 0 (.program p)).1 = .ok v ∧ v ≠ .nothing) ∨
          ∃ e, (j.evaluate 0 (.program p)).1 = .error (.error e) ∧
            e.cause.kind.isRuntime = true ∧ e.cause.isInternal = false ∧
            (∃ t ∈ tokens, t.pos = e.pos) ∧ 1 ≤ e.pos.line ∧ 1 ≤ e.pos.column) := by
  intro source sink i
  have hresult : (Program.parse source).toOption.map
      (fun p => (i.evaluate 0 (.program p)).1) =
        some (.error (.error ⟨.printFailed "full", ⟨2, 1⟩⟩)) := by decide +kernel
  have houtput : (Program.parse source).toOption.map
      (fun p => (i.evaluate 0 (.program p)).2.machine.output) = some "null\n" := by
    decide +kernel
  cases hp : Program.parse source with
  | error e =>
    rw [hp] at hresult
    cases hresult
  | ok p =>
    rw [hp] at hresult houtput
    refine ⟨p, rfl, Option.some.inj hresult, Option.some.inj houtput, ?_⟩
    exact (parsed_programs_cannot_go_wrong.1 _ (.evaluate 0 hp (.new _ _))).2 0 source p hp

end Scriptorium
