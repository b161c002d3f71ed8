/-
  Scriptorium.Proofs.Evaluation.Limit: what the step limit does to a run.

  The visits of a record are numbered by the counter, without gaps, so the visit at which a
  run is cut is the one after as many others as the limit allows.  All that limits do follows
  from the record of the run without one: where it has more visits than the limit, the run is
  cut; where it has not, nothing changes.  The number of its visits, if it comes to its end,
  is the cost of the tree, whatever scopes and heap hold.

  Main results:
    * `limit_cuts_run`: the step limit only cuts a run short, in every session.
    * `budget_of_tree`: which limit suffices is a matter of the tree.
-/

import Scriptorium.Proofs.Evaluation.Visits

namespace Scriptorium

/-! ## §1. Where a record is cut. -/

namespace Record

variable {α : Type} {r : Record α} {m : Machine} {cost : Nat} {limit : Int}

/-- A record that no limit is too small for. -/
theorem Tallied.cutAt_of_le (h : r.Tallied m cost)
    (hlimit : limit ≤ 0 ∨ (m.steps + r.visits.length : Nat) ≤ limit) :
    r.cutAt limit = r.ending := by
  have hnone : r.visits.find? (fun v => decide (0 < limit ∧ limit ≤ v.state.steps)) = none := by
    rw [List.find?_eq_none]
    intro v hv hover
    obtain ⟨hpos, hle⟩ := of_decide_eq_true hover
    obtain ⟨k, hk, rfl⟩ := List.getElem_of_mem hv
    have hsteps := h.numbered k _ (List.getElem?_eq_getElem hk)
    omega
  unfold cutAt
  rw [hnone]

/-- The visit at which a record is cut is the one that bears the limit as its number. -/
theorem Tallied.cutAt_of_visit (h : r.Tallied m cost) (hpos : 0 < limit) {k : Nat} {v : Visit}
    (hk : limit = (m.steps + k : Nat)) (hv : r.visits[k]? = some v) :
    r.cutAt limit = .error (.error ⟨.stepLimit limit, v.part.span.start⟩)
      { v.state with steps := v.state.steps + 1 } := by
  have hfind : r.visits.find? (fun v => decide (0 < limit ∧ limit ≤ v.state.steps)) = some v := by
    obtain ⟨hlt, hget⟩ := List.getElem?_eq_some_iff.1 hv
    rw [List.find?_eq_some_iff_getElem]
    refine ⟨?_, k, hlt, hget, ?_⟩
    · have hsteps := h.numbered k v hv
      rw [decide_eq_true_eq]
      omega
    · -- the visits before it have smaller numbers
      intro j hj
      have hsteps := h.numbered j _ (List.getElem?_eq_getElem (Nat.lt_trans hj hlt))
      rw [Bool.not_eq_true', decide_eq_false_iff_not]
      omega
  unfold cutAt
  rw [hfind]

end Record

/-! ## §2. Sessions. -/

namespace Interpreter

/-- The session under another limit. -/
def withLimit (i : Interpreter) (limit : Int) : Interpreter :=
  { i with settings := i.settings.withLimit limit }

/-- The record of an evaluation that has no limit. -/
def record (i : Interpreter) (scope : ScopeId) (node : Node) : Record Value :=
  recordNode i.settings scope node i.start

/-- The session after evaluations, one after the other, whatever comes of them. -/
def evaluateAll (i : Interpreter) (calls : List (ScopeId × Node)) : Interpreter :=
  calls.foldl (fun i call => (i.evaluate call.1 call.2).2) i

theorem settings_evaluateAll (i : Interpreter) (calls : List (ScopeId × Node)) :
    (i.evaluateAll calls).settings = i.settings := by
  unfold evaluateAll
  induction calls generalizing i with
  | nil => rfl
  | cons call calls ih => rw [List.foldl_cons, ih, settings_evaluate]

section Record

variable (i : Interpreter) (hquiet : i.settings.outside.Quiet) (scope : ScopeId) (node : Node)

include hquiet

theorem record_tallied : (i.record scope node).Tallied i.start node.cost :=
  (recordNode_records scope 0 node).tallied hquiet i.start

omit hquiet in
/-- An evaluation under a limit is the record cut there. -/
theorem outcome_withLimit (limit : Int) :
    (i.withLimit limit).outcome scope node = outcomeOf ((i.record scope node).cutAt limit) := by
  have hcut : evalNode (i.settings.withLimit limit) scope node i.start =
      (i.record scope node).cutAt limit := (recordNode_records scope limit node).cut i.start
  rw [outcome_eq, ← hcut]
  rfl

/-- A run for which the limit suffices is the run without a limit. -/
theorem outcome_of_le {limit : Int}
    (h : limit ≤ 0 ∨ ((i.record scope node).visits.length : Int) ≤ limit) :
    (i.withLimit limit).outcome scope node = outcomeOf (i.record scope node).ending := by
  rw [i.outcome_withLimit scope node limit, (i.record_tallied hquiet scope node).cutAt_of_le]
  show limit ≤ 0 ∨ ((0 + (i.record scope node).visits.length : Nat) : Int) ≤ limit
  rw [Nat.zero_add]
  exact h

/-- A run for which the limit does not suffice is cut at the visit after as many others. -/
theorem outcome_of_visit {limit : Nat} (hpos : 0 < limit) {v : Visit}
    (hv : (i.record scope node).visits[limit]? = some v) :
    (i.withLimit limit).outcome scope node =
      (.error (.error ⟨.stepLimit limit, v.part.span.start⟩),
        { v.state with steps := limit + 1 }) := by
  have htallied := i.record_tallied hquiet scope node
  have hsteps : v.state.steps = limit := (htallied.numbered limit v hv).trans (Nat.zero_add limit)
  have hlimit : (limit : Int) = (i.start.steps + limit : Nat) := by
    show (limit : Int) = (0 + limit : Nat)
    rw [Nat.zero_add]
  rw [i.outcome_withLimit scope node limit,
    htallied.cutAt_of_visit (Int.natCast_pos.2 hpos) hlimit hv, hsteps]
  rfl

/-- The run without a limit is the record. -/
theorem outcome_unlimited :
    (i.withLimit 0).outcome scope node = outcomeOf (i.record scope node).ending :=
  i.outcome_of_le hquiet scope node (.inl (Int.le_refl 0))

theorem outcome_unlimited_state :
    ((i.withLimit 0).outcome scope node).2 = (i.record scope node).after := by
  rw [i.outcome_unlimited hquiet]
  unfold Record.after
  cases (i.record scope node).ending with
  | ok v m => rfl
  | error s m => rfl

/-- Its counter tells how many visits it made. -/
theorem outcome_unlimited_steps :
    ((i.withLimit 0).outcome scope node).2.steps = (i.record scope node).visits.length := by
  rw [i.outcome_unlimited_state hquiet, (i.record_tallied hquiet scope node).counted]
  exact Nat.zero_add _

end Record

end Interpreter

/-! ## §3. What limits do. -/

/-- The script `print("a")`, and on the next line `print("b")`. -/
def printTwice : Node := .program ⟨⟨⟨1, 1⟩, ⟨2, 11⟩⟩, [
  .expression (.call ⟨⟨1, 1⟩, ⟨1, 11⟩⟩ (.identifier ⟨⟨1, 1⟩, ⟨1, 6⟩⟩ "print")
    [.string ⟨⟨1, 7⟩, ⟨1, 10⟩⟩ "a"]),
  .expression (.call ⟨⟨2, 1⟩, ⟨2, 11⟩⟩ (.identifier ⟨⟨2, 1⟩, ⟨2, 6⟩⟩ "print")
    [.string ⟨⟨2, 7⟩, ⟨2, 10⟩⟩ "b"])]⟩

/-- A session in which the script was evaluated once. -/
def afterPrinting : Interpreter :=
  (Interpreter.new ⟨0, .collect, .bare⟩ []).evaluateAll [(0, printTwice)]

/-- A function of the host that has something evaluated itself sets the counter back, and then
    a limit of three does not stop a script that costs five. -/
example :
    let reset : HostFunction := fun _ _ => do
      modify fun m => { m with steps := 0 }
      return .null
    let i := Interpreter.new ⟨3, .collect, { Outside.bare with functions := fun _ => reset }⟩ []
    let scopes := i.machine.scopes.bind 0 "f" ⟨.native ⟨"f", 0, .host 0⟩, false⟩
    let call : Statement := .expression (.call .unknown (.identifier .unknown "f") [])
    let node : Node := .program ⟨.unknown, [call, call]⟩
    node.cost = 5 ∧
      ({ i with machine := { i.machine with scopes } }.outcome 0 node).1 = .ok .null := by
  cbv

/-- **The budget of a tree is a number that can be read off it.**  Whatever heap and scopes
    hold, if the functions of the host leave the counter alone, the run without a limit makes
    at most as many visits as the tree costs, and exactly as many if it gives a value.  Hence
    no run complains about a limit that is not smaller than the cost, and each ends as without
    a limit; and a run that gives a value without a limit does not under a smaller one. -/
theorem budget_of_tree (i : Interpreter) (hquiet : i.settings.outside.Quiet) (scope : ScopeId)
    (node : Node) :
    let run := fun n : Int => (i.withLimit n).outcome scope node
    (run 0).2.steps ≤ node.cost ∧
    (∀ v, (run 0).1 = .ok v → (run 0).2.steps = node.cost) ∧
    (∀ n : Int, n ≤ 0 ∨ node.cost ≤ n →
      run n = run 0 ∧ ∀ s, (run n).1 = .error s → s.isLimit = false) ∧
    ∀ n : Nat, 0 < n → n < node.cost → ∀ v, (run 0).1 = .ok v →
      ∃ pos, (run n).1 = .error (.error ⟨.stepLimit n, pos⟩) := by
  intro run
  have htallied := i.record_tallied hquiet scope node
  have hfree : run 0 = outcomeOf (i.record scope node).ending :=
    i.outcome_unlimited hquiet scope node
  have hsteps : (run 0).2.steps = (i.record scope node).visits.length :=
    i.outcome_unlimited_steps hquiet scope node
  have hspent : ∀ v, (run 0).1 = .ok v → (i.record scope node).visits.length = node.cost := by
    intro v hv
    rw [hfree] at hv
    cases hending : (i.record scope node).ending with
    | ok a m => exact htallied.spent a m hending
    | error s m =>
      rw [hending] at hv
      cases hv
  refine ⟨?_, ?_, ?_, ?_⟩
  · rw [hsteps]
    exact htallied.bounded
  · intro v hv
    rw [hsteps]
    exact hspent v hv
  · intro n hn
    have henough : n ≤ 0 ∨ ((i.record scope node).visits.length : Int) ≤ n := by
      have hbounded := htallied.bounded
      omega
    have hrun : run n = outcomeOf (i.record scope node).ending :=
      i.outcome_of_le hquiet scope node henough
    refine ⟨hrun.trans hfree.symm, ?_⟩
    intro s hs
    rw [hrun] at hs
    cases hending : (i.record scope node).ending with
    | ok a m =>
      rw [hending] at hs
      cases hs
    | error s' m =>
      rw [hending] at hs
      cases hs
      exact htallied.unlimited s m hending
  · intro n hpos hlt v hv
    rw [← hspent v hv] at hlt
    have hrun := i.outcome_of_visit hquiet scope node hpos (List.getElem?_eq_getElem hlt)
    exact ⟨_, congrArg Prod.fst hrun⟩

/-- The script costs seven: under the limit seven it gives a value, under six it does not. -/
theorem budget_of_tree_printTwice :
    printTwice.cost = 7 ∧ (∃ v, ((afterPrinting.withLimit 0).outcome 0 printTwice).1 = .ok v) ∧
    (afterPrinting.withLimit 7).outcome 0 printTwice =
      (afterPrinting.withLimit 0).outcome 0 printTwice ∧
    ∃ pos, ((afterPrinting.withLimit 6).outcome 0 printTwice).1 =
      .error (.error ⟨.stepLimit 6, pos⟩) := by
  have hvalue : ((afterPrinting.withLimit 0).outcome 0 printTwice).1 = .ok .null := by cbv
  have hquiet : afterPrinting.settings.outside.Quiet := by
    unfold afterPrinting
    rw [Interpreter.settings_evaluateAll]
    exact Outside.bare_quiet
  obtain ⟨_, _, henough, htight⟩ := budget_of_tree afterPrinting hquiet 0 printTwice
  refine ⟨by decide, ⟨.null, hvalue⟩, (henough 7 (.inr (by decide))).1, ?_⟩
  exact htight 6 (by decide) (by decide) .null hvalue

end Scriptorium
