/-
  Scriptorium.Proofs.Relayout: layout does not matter.

  Two texts with the same signs, tokens without their places, are read to programs that
  differ in their places only, or are refused with the same words.  Programs that differ in
  their places only are evaluated to outcomes that differ in places only: those of an error,
  and those in the log.

  For the first, the parsers run side by side and all places are seen as one.  For the
  second, each program is evaluated beside its copy without places, which the two have in
  common.

  Main results:
    * `parse_relayout`: reading two texts with the same signs.
    * `outcome_clearSpans`: evaluating a tree and its copy without places.
    * `layout_irrelevant`: both, for two texts with the same signs.
-/

import Scriptorium.Proofs.Evaluation.Parallel
import Scriptorium.Proofs.Parsing.Parallel
import Scriptorium.Proofs.Printing.Writing

namespace Scriptorium

/-! ## §1. Reading. -/

/-- All places look the same. -/
def Views.blind : Views where
  left := fun _ => .unknown
  right := fun _ => .unknown
  moved := fun _ _ => rfl

/-- With all places alike, tokens look the same if their signs do. -/
theorem tokens_of_signs {ts us : List Token} (h : ts.map Token.sign = us.map Token.sign) :
    List.Forall₂ Views.blind.Tokens ts us := by
  induction ts generalizing us with
  | nil =>
    cases us with
    | nil => exact .nil
    | cons u us => cases h
  | cons t ts ih =>
    cases us with
    | nil => cases h
    | cons u us =>
      obtain ⟨hsign, hrest⟩ := List.cons.inj h
      obtain ⟨hkind, hlexeme⟩ := Sign.mk.inj hsign
      exact .cons ⟨hkind.symm, hlexeme.symm, rfl⟩ (ih hrest)

/-- **Two texts with the same signs** are read to programs that are the same without their
    places, or refused with errors of one kind and the same words. -/
theorem parse_relayout {source source' : Text} {tokens tokens' : List Token}
    (h : tokenize source = .ok tokens) (h' : tokenize source' = .ok tokens')
    (hsigns : tokens.map Token.sign = tokens'.map Token.sign) :
    (∃ p p', Program.parse source = .ok p ∧ Program.parse source' = .ok p' ∧
      p.clearSpans = p'.clearSpans) ∨
    ∃ e e', Program.parse source = .error e ∧ Program.parse source' = .error e' ∧
      Views.SameWords e e' := by
  obtain ⟨ts, stop, hscan, rfl⟩ := tokenize_eq_ok_iff.1 h
  obtain ⟨us, stop', hscan', rfl⟩ := tokenize_eq_ok_iff.1 h'
  obtain ⟨hrest, _⟩ := Feed.ofTokens_append stop hscan.kind_ne_endOfInput
  obtain ⟨hrest', _⟩ := Feed.ofTokens_append stop' hscan'.kind_ne_endOfInput
  -- the end of the input is the last sign of both
  have hsame : ts.map Token.sign = us.map Token.sign := by
    rw [List.map_append, List.map_append] at hsigns
    exact (List.append_inj' hsigns rfl).1
  have hrests : Views.blind.Rests [] (Feed.ofTokens (ts ++ [.atEnd stop]))
      (Feed.ofTokens (us ++ [.atEnd stop'])) := by
    refine ⟨⟨us, ?_, ?_⟩, .inl ⟨rfl, rfl⟩⟩
    · rw [hrest', List.append_nil]
    · rw [hrest]
      exact tokens_of_signs hsame
  obtain ⟨hok, herror⟩ := parseStatements_along _ _ hrests
  unfold Program.parse
  rw [h, h']
  simp only [bind, Except.bind, Program.ofTokens, Program.ofFeed]
  cases hbody : parseStatements (Feed.ofTokens (ts ++ [.atEnd stop])) with
  | error e =>
    obtain ⟨e', he', hwords⟩ := herror e hbody
    rw [he']
    exact .inr ⟨e, e', rfl, rfl, hwords⟩
  | ok body =>
    obtain ⟨body', g', hnone, _, hbodies, hread⟩ := hok body hbody
    rw [hread, parseStatements_of_rest hnone]
    refine .inl ⟨_, _, rfl, rfl, ?_⟩
    have hcleared : body.map (Statement.mapSpan fun _ => .unknown) =
        (body' ++ []).map (Statement.mapSpan fun _ => .unknown) := by
      rw [List.append_nil]
      exact hbodies
    exact congrArg (Program.mk .unknown) hcleared

/-! ## §2. Evaluation. -/

/-- A record of a statement without its place. -/
def Begun.unplaced (b : Begun) : Begun := { b with pos := .unknown }

/-- The state with no places in its log. -/
def Machine.unplaced (m : Machine) : Machine := { m with log := m.log.map Begun.unplaced }

/-- A stop without the place of its error. -/
def Stop.unplaced : Stop → Stop
  | .error e => .error (.unplaced e.cause)
  | .outside message => .outside message
  | .defect d => .defect d

/-- An outcome, and the state that is left, without places. -/
def unplaced : Except Stop Value × Machine → Except Stop Value × Machine
  | (.ok v, m) => (.ok v, m.unplaced)
  | (.error s, m) => (.error s.unplaced, m.unplaced)

/-- Whether the computation makes nothing of places: in states that differ in the places of
    their logs only, it gives the same value or stops in the same way, and leaves states that
    differ in places only. -/
def Eval.OverlooksPlaces {α : Type} (x : Eval α) : Prop :=
  ∀ m m', m'.unplaced = m.unplaced → x.Ensures m
    (fun a n => ∃ n', x m' = .ok a n' ∧ n'.unplaced = n.unplaced)
    fun s n => ∃ n', x m' = .error s n' ∧ n'.unplaced = n.unplaced

/-- Whether the functions of the host make nothing of places, as those do not that go by what
    they are handed. -/
def Outside.OverlooksPlaces (o : Outside) : Prop :=
  ∀ handle scope args, (o.functions handle scope args).OverlooksPlaces

/-- Functions that always fail look at nothing. -/
theorem Outside.bare_overlooksPlaces : Outside.bare.OverlooksPlaces :=
  fun _ _ _ _ m' h => ⟨m', rfl, h⟩

/-- The second run differs from the first in places only. -/
def Pairing.blind : Pairing where
  moved := .forget
  printed := []
  paced := True
  logs := fun log log' => log'.map Begun.unplaced = log.map Begun.unplaced

/-- Then the states of the two are the same without their places. -/
theorem Pairing.beside_blind_iff {m m' : Machine} :
    blind.Beside m m' ↔ m'.unplaced = m.unplaced := by
  constructor
  · intro h
    have hearlier : m'.earlier = m.earlier := (h.earlier.trans (List.append_nil _)).symm
    have houtput : m'.output = m.output := h.output
    have hlog : m'.log.map Begun.unplaced = m.log.map Begun.unplaced := h.log
    unfold Machine.unplaced
    rw [h.heap, h.scopes, h.steps trivial, h.readings, hearlier, houtput, hlog]
  · intro h
    obtain ⟨hheap, hscopes, hsteps, hreadings, hearlier, houtput, hlog⟩ := Machine.mk.inj h
    refine ⟨hheap, hscopes, hreadings, fun _ => hsteps, houtput, ?_, hlog⟩
    exact hearlier.symm.trans (List.append_nil _).symm

/-- **Functions that make nothing of places** do the same in both runs. -/
theorem Pairing.blind_fits {settings : Settings} (hhost : settings.outside.OverlooksPlaces) :
    blind.Fits settings where
  paced := fun _ => trivial
  host := by
    intro handle scope args m m' hm
    have hrun := hhost handle scope args m m' (beside_blind_iff.1 hm)
    unfold Eval.Ensures at hrun ⊢
    cases hx : settings.outside.functions handle scope args m with
    | ok v n =>
      rw [hx] at hrun
      obtain ⟨n', hy, hn⟩ := hrun
      exact ⟨n', hy, beside_blind_iff.2 hn⟩
    | error s n =>
      rw [hx] at hrun
      obtain ⟨n', hy, hn⟩ := hrun
      exact ⟨s, n', hy, blind.told_of_places (fun _ _ => trivial) hx, beside_blind_iff.2 hn⟩

theorem Stop.Matches.unplaced_eq {s s' : Stop} (h : s.Matches Relocation.forget.tells s') :
    s'.unplaced = s.unplaced := by
  cases h with
  | @error e e' told =>
    have hcause : e'.cause = e.cause := told
    show Stop.error (.unplaced e'.cause) = Stop.error (.unplaced e.cause)
    rw [hcause]
  | outside message => rfl
  | defect d => rfl

/-- **A tree and its copy without places** come to outcomes that differ in places only. -/
theorem outcome_clearSpans {i : Interpreter} (hhost : i.settings.outside.OverlooksPlaces)
    (scope : ScopeId) (node : Node) :
    unplaced (i.outcome scope node.clearSpans) = unplaced (i.outcome scope node) := by
  have hparallel : Pairing.blind.Parallel Relocation.forget.tells
      (evalNode i.settings scope node) (evalNode i.settings scope node.clearSpans) := by
    refine evalNode_parallel (Pairing.blind_fits hhost) ?_ node
    intro log log' k kind pos hlog
    show (log' ++ _).map Begun.unplaced = (log ++ _).map Begun.unplaced
    rw [List.map_append, List.map_append, hlog]
    rfl
  have hrun := hparallel i.start i.start (Pairing.beside_blind_iff.2 rfl)
  rw [i.outcome_eq, i.outcome_eq]
  unfold Eval.Ensures at hrun
  cases hx : evalNode i.settings scope node i.start with
  | ok a n =>
    rw [hx] at hrun
    obtain ⟨n', hy, hn⟩ := hrun
    rw [hy]
    show (Except.ok a, n'.unplaced) = (Except.ok a, n.unplaced)
    rw [Pairing.beside_blind_iff.1 hn]
  | error s n =>
    rw [hx] at hrun
    obtain ⟨s', n', hy, hs, hn⟩ := hrun
    rw [hy]
    show (Except.error s'.unplaced, n'.unplaced) = (Except.error s.unplaced, n.unplaced)
    rw [Pairing.beside_blind_iff.1 hn, hs.unplaced_eq]

/-! ## §3. Two texts. -/

/-- **Layout does not matter.**  Two texts whose tokens have the same kinds and texts, in the
    same order, are both read, to programs that are the same without their places, or both
    refused, with errors of one kind and the same words.  In any session whose host functions
    make nothing of places, in any scope, with its heap and its limit, the two programs come to
    the same value or to stops for the same cause, so with the same kind, words and name; they
    leave the same heap, scopes, counter and output, and logs of the same statements.  The same
    is true of any two trees that are the same without their places, in particular of a tree
    and its copy without places. -/
theorem layout_irrelevant :
    (∀ (source source' : Text) (tokens tokens' : List Token),
      tokenize source = .ok tokens → tokenize source' = .ok tokens' →
      tokens.map Token.sign = tokens'.map Token.sign →
      (∃ p p', Program.parse source = .ok p ∧ Program.parse source' = .ok p' ∧
        p.clearSpans = p'.clearSpans ∧
        ∀ (i : Interpreter) (scope : ScopeId), i.settings.outside.OverlooksPlaces →
          unplaced (i.outcome scope (.program p)) = unplaced (i.outcome scope (.program p'))) ∨
      ∃ e e', Program.parse source = .error e ∧ Program.parse source' = .error e' ∧
        e'.cause.kind = e.cause.kind ∧ e'.cause.message = e.cause.message) ∧
    (∀ (i : Interpreter) (scope : ScopeId) (node node' : Node),
      i.settings.outside.OverlooksPlaces → node.clearSpans = node'.clearSpans →
      unplaced (i.outcome scope node) = unplaced (i.outcome scope node')) ∧
    ∀ (i : Interpreter) (scope : ScopeId) (node : Node), i.settings.outside.OverlooksPlaces →
      unplaced (i.outcome scope node) = unplaced (i.outcome scope node.clearSpans) := by
  have htrees : ∀ (i : Interpreter) (scope : ScopeId) (node node' : Node),
      i.settings.outside.OverlooksPlaces → node.clearSpans = node'.clearSpans →
      unplaced (i.outcome scope node) = unplaced (i.outcome scope node') := by
    intro i scope node node' hhost hsame
    rw [← outcome_clearSpans hhost scope node, hsame, outcome_clearSpans hhost]
  refine ⟨?_, htrees, fun i scope node hhost => (outcome_clearSpans hhost scope node).symm⟩
  intro source source' tokens tokens' h h' hsigns
  rcases parse_relayout h h' hsigns with ⟨p, p', hp, hp', hsame⟩ | hrefused
  · refine .inl ⟨p, p', hp, hp', hsame, fun i scope hhost => ?_⟩
    exact htrees i scope _ _ hhost (congrArg Node.program hsame)
  · exact .inr hrefused

/-- The script `x;` on one line, and spread over two lines, in a new session. -/
theorem layout_irrelevant_two_lines : ∃ tokens tokens' p p',
    tokenize "x;" = .ok tokens ∧ tokenize "\n x ;" = .ok tokens' ∧
    tokens.map Token.sign = tokens'.map Token.sign ∧ tokens ≠ tokens' ∧
    Program.parse "x;" = .ok p ∧ Program.parse "\n x ;" = .ok p' ∧
    p.clearSpans = p'.clearSpans ∧
    let i := Interpreter.new ⟨0, .collect, .bare⟩ []
    unplaced (i.outcome 0 (.program p)) = unplaced (i.outcome 0 (.program p')) := by
  let name : Token := ⟨.identifier, "x", ⟨1, 1⟩⟩
  let semicolon : Token := ⟨.semicolon, ";", ⟨1, 2⟩⟩
  have h : tokenize "x;" = .ok [name, semicolon, .atEnd ⟨1, 3⟩] := by
    unfold tokenize Cursor.ofText
    rw [Text.symbols_ofString, Cursor.scan_of_token rfl (by decide),
      Cursor.scan_of_token rfl (by decide), Cursor.scan_of_end rfl rfl]
    rfl
  have h' : tokenize "\n x ;" = .ok [⟨.identifier, "x", ⟨2, 2⟩⟩, ⟨.semicolon, ";", ⟨2, 4⟩⟩,
      .atEnd ⟨2, 5⟩] := by
    unfold tokenize Cursor.ofText
    rw [Text.symbols_ofString, Cursor.scan_of_token rfl (by decide),
      Cursor.scan_of_token rfl (by decide), Cursor.scan_of_end rfl rfl]
    rfl
  have hexpression : Derives unmarked (.expression (.identifier .unknown "x")) [name] :=
    .value (.sum (.term (.factor (.callee (.base (.name (t := name) rfl))))))
  have hclause : Clause.Derived unmarked
      [(.expression (.identifier .unknown "x"), [name, semicolon])] :=
    .cons (.ended hexpression rfl) .nil
  have hderives : DerivesProgram unmarked _ [name, semicolon, .atEnd ⟨1, 3⟩] ⟨.unknown, _⟩ :=
    ⟨hclause, ⟨.atEnd ⟨1, 3⟩, rfl, rfl⟩, rfl⟩
  obtain ⟨q, hq, _⟩ := hderives.parse (g := fun _ => .unknown) (fun _ => rfl) h
    (List.pairwise_singleton _ _)
  rcases layout_irrelevant.1 _ _ _ _ h h' rfl with ⟨p, p', hp, hp', hsame, hruns⟩ | ⟨e, e', he, _⟩
  · exact ⟨_, _, p, p', h, h', rfl, by decide, hp, hp', hsame, hruns _ 0 Outside.bare_overlooksPlaces⟩
  · rw [hq] at he
    cases he

end Scriptorium
