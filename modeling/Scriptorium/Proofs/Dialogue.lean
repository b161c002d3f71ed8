/-
  Scriptorium.Proofs.Dialogue: what a session at the prompt comes to.

  A session at the prompt has one parser and one interpreter for all of its lines.  The parser
  is left with an index and with no tokens after each line that it was given, whether it could
  read the line or not; but it is set to the first token of the next one, so it reads that as a
  parser does which was given nothing before.  A line that is blank, asks to leave, is a
  command or cannot be read does not get to the interpreter.  Hence the interpreter is where it
  would be if only the lines that can be read had been evaluated, one after the other.

  Main results:
    * `Parser.produce_eq`: a parser reads a text as a new one does.
    * `interpreter_handle`: one line.
    * `interpreter_afterLines`: any number of lines.
    * `session_is_its_readable_lines`: state and replies of a session.
-/

import Scriptorium.Repl
import Scriptorium.Proofs.Evaluation.Allowance

namespace Scriptorium

/-! ## §1. Parsers and interpreters that are used again. -/

/-- **A parser reads a text as a new one does**, whatever it was given before. -/
theorem Parser.produce_eq (p : Parser) (source : Text) :
    (p.produce source).1 = Program.parse source := by
  unfold produce Program.parse
  cases tokenize source with
  | error e => rfl
  | ok tokens =>
    -- the index was set to the first token, so the feed has all of them
    have hfeed : Program.ofTokens tokens = Program.ofFeed (Feed.atIndex tokens 0) := rfl
    simp only [bind, Except.bind]
    rw [hfeed]
    cases Program.ofFeed (Feed.atIndex tokens 0) with
    | ok program => rfl
    | error e => rfl

namespace Interpreter

theorem evaluateAll_append (i : Interpreter) (calls calls' : List (ScopeId × Node)) :
    i.evaluateAll (calls ++ calls') = (i.evaluateAll calls).evaluateAll calls' :=
  List.foldl_append

theorem global_evaluate (i : Interpreter) (scope : ScopeId) (node : Node) :
    (i.evaluate scope node).2.global = i.global := by
  unfold evaluate
  split
  · rfl
  · rfl

theorem global_evaluateAll (i : Interpreter) (calls : List (ScopeId × Node)) :
    (i.evaluateAll calls).global = i.global := by
  induction calls generalizing i with
  | nil => rfl
  | cons call calls ih =>
    show ((i.evaluate call.1 call.2).2.evaluateAll calls).global = _
    rw [ih, global_evaluate]

end Interpreter

namespace Repl

/-! ## §2. One line. -/

/-- Whether the line is no script: nothing stands on it, or a request to leave, or a
    command. -/
def IsRemark (line : Text) : Prop :=
  line.trim = [] ∨ line.trim = Text.ofString "exit" ∨ line.trim = Text.ofString ":quit" ∨
    line.trim.startsWith ":" = true

instance (line : Text) : Decidable (IsRemark line) :=
  inferInstanceAs (Decidable (_ ∨ _ ∨ _ ∨ _))

/-- The program on a line, if the line is a script and a new parser can read it. -/
def program? (line : Text) : Option Program :=
  if IsRemark line then none else (Parser.new.produce line.trim).1.toOption

variable {s : Session} {line : Text}

/-- A line is a script unless it is a remark. -/
theorem ofLine_eq_script_iff {code : Text} :
    Request.ofLine line = .script code ↔ ¬ IsRemark line ∧ code = line.trim := by
  unfold Request.ofLine IsRemark
  simp only [List.isEmpty_iff, Bool.or_eq_true, decide_eq_true_eq]
  grind

/-- It asks to leave in two ways. -/
theorem ofLine_eq_leave_iff :
    Request.ofLine line = .leave ↔
      line.trim = Text.ofString "exit" ∨ line.trim = Text.ofString ":quit" := by
  have hblank : line.trim = [] →
      ¬ (line.trim = Text.ofString "exit" ∨ line.trim = Text.ofString ":quit") := by
    intro h
    rw [h]
    decide
  unfold Request.ofLine
  simp only [List.isEmpty_iff, Bool.or_eq_true, decide_eq_true_eq]
  grind

/-- A line that is no script changes nothing, and nothing is complained of. -/
theorem handle_remark (h : IsRemark line) (s : Session) :
    (handle s line).2 = s ∧ (handle s line).1.err = [] := by
  unfold handle
  cases hrequest : Request.ofLine line with
  | blank => exact ⟨rfl, rfl⟩
  | leave => exact ⟨rfl, rfl⟩
  | command code => exact ⟨rfl, rfl⟩
  | script code => exact absurd h (ofLine_eq_script_iff.1 hrequest).1

theorem handle_script (h : ¬ IsRemark line) (s : Session) :
    handle s line = evaluate s line.trim := by
  unfold handle
  rw [ofLine_eq_script_iff.2 ⟨h, rfl⟩]

/-- A script that cannot be read leaves a complaint, and the interpreter as it was. -/
theorem evaluate_refused {code : Text} {e : Error} (he : Program.parse code = .error e)
    (s : Session) :
    (evaluate s code).1 = ⟨false, [], "<repl>: " ++ e.text ++ "\n"⟩ ∧
      (evaluate s code).2.interpreter = s.interpreter := by
  have hread : (s.parser.produce code).1 = .error e := (s.parser.produce_eq code).trans he
  unfold evaluate
  dsimp only
  rw [hread]
  exact ⟨rfl, rfl⟩

/-- A script that can be read is evaluated. -/
theorem evaluate_read {code : Text} {p : Program} (hp : Program.parse code = .ok p)
    (s : Session) :
    let run := s.interpreter.evaluate s.interpreter.global (.program p)
    (evaluate s code).1 = report run ∧ (evaluate s code).2.interpreter = run.2 := by
  have hread : (s.parser.produce code).1 = .ok p := (s.parser.produce_eq code).trans hp
  unfold evaluate
  dsimp only
  rw [hread]
  exact ⟨rfl, rfl⟩

/-- The reply to an evaluation lets the session go on. -/
theorem leaves_report (run : Except Stop Value × Interpreter) :
    (report run).leaves = false := by
  unfold report
  split
  · rfl
  · rfl

/-- The session ends just with the two lines that ask for it. -/
theorem leaves_handle (s : Session) (line : Text) :
    (handle s line).1.leaves = true ↔
      line.trim = Text.ofString "exit" ∨ line.trim = Text.ofString ":quit" := by
  have hstays : ∀ code, ¬ (evaluate s code).1.leaves = true := by
    intro code hleaves
    cases hp : Program.parse code with
    | ok p =>
      rw [(evaluate_read hp s).1, leaves_report] at hleaves
      cases hleaves
    | error e =>
      rw [(evaluate_refused hp s).1] at hleaves
      cases hleaves
  rw [← ofLine_eq_leave_iff]
  unfold handle
  cases Request.ofLine line with
  | leave => exact iff_of_true rfl rfl
  | blank => exact iff_of_false (fun h => nomatch h) fun h => nomatch h
  | command code => exact iff_of_false (fun h => nomatch h) fun h => nomatch h
  | script code => exact iff_of_false (hstays code) fun h => nomatch h

/-- What is replied to a line depends on the interpreter alone. -/
theorem reply_of_interpreter_eq {s' : Session} (h : s.interpreter = s'.interpreter)
    (line : Text) : (handle s line).1 = (handle s' line).1 := by
  unfold handle
  cases Request.ofLine line with
  | blank => rfl
  | leave => rfl
  | command code =>
    dsimp only
    rw [h]
  | script code =>
    dsimp only
    cases hp : Program.parse code with
    | ok p => rw [(evaluate_read hp s).1, (evaluate_read hp s').1, h]
    | error e => rw [(evaluate_refused hp s).1, (evaluate_refused hp s').1]

/-! ## §3. Any number of lines. -/

/-- The session after lines, one after the other, also past the end of the session. -/
def afterLines (s : Session) (lines : List Text) : Session :=
  lines.foldl (fun s line => (handle s line).2) s

/-- The evaluations of the programs on the lines. -/
def readings (scope : ScopeId) (lines : List Text) : List (ScopeId × Node) :=
  (lines.filterMap program?).map fun p => (scope, .program p)

theorem readings_cons (scope : ScopeId) (line : Text) (lines : List Text) :
    readings scope (line :: lines) = readings scope [line] ++ readings scope lines := by
  unfold readings
  rw [← List.map_append, ← List.filterMap_append, List.singleton_append]

/-- **One line**: the interpreter is where the program on it leaves it, if there is one. -/
theorem interpreter_handle (s : Session) (line : Text) :
    (handle s line).2.interpreter =
      s.interpreter.evaluateAll (readings s.interpreter.global [line]) := by
  unfold readings
  rw [List.filterMap_cons]
  by_cases hremark : IsRemark line
  · have hnone : program? line = none := if_pos hremark
    rw [hnone, (handle_remark hremark s).1]
    rfl
  · rw [handle_script hremark]
    unfold program?
    rw [if_neg hremark, Parser.produce_eq]
    cases hp : Program.parse line.trim with
    | ok p =>
      rw [(evaluate_read hp s).2]
      rfl
    | error e =>
      rw [(evaluate_refused hp s).2]
      rfl

theorem global_handle (s : Session) (line : Text) :
    (handle s line).2.interpreter.global = s.interpreter.global := by
  rw [interpreter_handle, Interpreter.global_evaluateAll]

/-- **Any number of lines**: the interpreter is where their programs leave it. -/
theorem interpreter_afterLines (s : Session) (lines : List Text) :
    (afterLines s lines).interpreter =
      s.interpreter.evaluateAll (readings s.interpreter.global lines) := by
  induction lines generalizing s with
  | nil => rfl
  | cons line lines ih =>
    show (afterLines (handle s line).2 lines).interpreter = _
    rw [ih, readings_cons, Interpreter.evaluateAll_append, global_handle, interpreter_handle]

/-- The replies to the lines are those to each of them after the lines before it. -/
theorem getElem?_handleAll (s : Session) (lines : List Text) (k : Nat) :
    (handleAll s lines)[k]? =
      lines[k]?.map fun line => (handle (afterLines s (lines.take k)) line).1 := by
  induction lines generalizing s k with
  | nil => rfl
  | cons line lines ih =>
    cases k with
    | zero => rfl
    | succ k => exact ih (handle s line).2 k

end Repl

/-! ## §4. State and replies. -/

open Repl in
/-- **A session at the prompt is the session of its readable lines.**  Whatever lines were
    typed, and whatever the parser was left with before, the interpreter is where it gets by
    evaluating, one after the other, just the programs that a new parser reads on each of the
    lines that are scripts.  The reply to each line is the one that a session gives which has
    done no more than that, and has a new parser.  It says that the session ends exactly for
    `exit` and `:quit`.  Blank lines, these two and commands change nothing at all.  A script
    that cannot be read leaves the interpreter alone, prints nothing, and its error is the only
    complaint.  If the evaluation of a script stops, what it printed by then is printed, and
    the stop is the only complaint; if it gives a value, there is no complaint, and the text of
    the value is the last line that is printed. -/
theorem session_is_its_readable_lines (s : Session) (lines : List Text) :
    let session := afterLines s lines
    let scope := s.interpreter.global
    let replay := s.interpreter.evaluateAll
      ((lines.filterMap program?).map fun p => (scope, .program p))
    session.interpreter = replay ∧
    (∀ k, (handleAll s lines)[k]? =
      lines[k]?.map fun line => (handle (afterLines s (lines.take k)) line).1) ∧
    ∀ line,
      let reply := (handle session line).1
      let next := (handle session line).2
      let result := (Parser.new.produce line.trim).1
      reply = (handle (.begin replay) line).1 ∧
      (reply.leaves = true ↔
        line.trim = Text.ofString "exit" ∨ line.trim = Text.ofString ":quit") ∧
      (IsRemark line → next = session ∧ reply.err = []) ∧
      (¬ IsRemark line →
        (∀ e, result = .error e →
          next.interpreter = session.interpreter ∧
          reply.out = [] ∧ reply.err = "<repl>: " ++ e.text ++ "\n") ∧
        ∀ p, result = .ok p →
          let run := replay.evaluate scope (.program p)
          next.interpreter = run.2 ∧
          (∀ stop, run.1 = .error stop →
            reply.out = run.2.printed ∧ reply.err = "<repl>: " ++ stop.text ++ "\n") ∧
          ∀ v, run.1 = .ok v →
            reply.out = run.2.printed ++ run.2.text v ++ "\n" ∧ reply.err = []) := by
  intro session scope replay
  have hstate : session.interpreter = replay := interpreter_afterLines s lines
  refine ⟨hstate, getElem?_handleAll s lines, ?_⟩
  intro line reply next result
  have hresult : result = Program.parse line.trim := Parser.new.produce_eq line.trim
  refine ⟨reply_of_interpreter_eq hstate line, leaves_handle session line,
    fun hremark => handle_remark hremark session, ?_⟩
  intro hscript
  have hhandle : handle session line = evaluate session line.trim := handle_script hscript session
  rw [hresult]
  constructor
  · intro e he
    obtain ⟨hreply, hnext⟩ := evaluate_refused he session
    rw [← hhandle] at hreply hnext
    exact ⟨hnext, congrArg Reply.out hreply, congrArg Reply.err hreply⟩
  · intro p hp run
    have hrun : session.interpreter.evaluate session.interpreter.global (.program p) = run := by
      rw [hstate, Interpreter.global_evaluateAll]
    obtain ⟨hreply, hnext⟩ := evaluate_read hp session
    rw [← hhandle, hrun] at hreply hnext
    refine ⟨hnext, ?_, ?_⟩
    · intro stop hstop
      show (handle session line).1.out = _ ∧ (handle session line).1.err = _
      rw [hreply, report, hstop]
      exact ⟨rfl, rfl⟩
    · intro v hv
      show (handle session line).1.out = _ ∧ (handle session line).1.err = _
      rw [hreply, report, hv]
      exact ⟨rfl, rfl⟩

/-- Lines of which two are scripts that can be read: the second of them prints and stops.  The
    parser complains about the third token of the line after the first script. -/
def mixed : List Text := ["let x = 2", "x + )", " exit ", ":env", "x = 3; print(x); y"]

/-- The parser is left at an index of its own, and still `x` has the value that it got before
    the stop, as it has if only the two scripts were evaluated. -/
theorem session_is_its_readable_lines_mixed :
    let s := Repl.Session.begin (Interpreter.new ⟨0, .collect, .bare⟩ [])
    let scope := s.interpreter.global
    let replay := s.interpreter.evaluateAll
      ((mixed.filterMap Repl.program?).map fun p => (scope, .program p))
    (mixed.filterMap Repl.program?).length = 2 ∧
    (Repl.afterLines s (mixed.take 2)).parser.index = 2 ∧
    (Repl.afterLines s mixed).interpreter = replay ∧
    ¬ Repl.IsRemark " x\t" ∧
    (∃ p, (Parser.new.produce (Text.trim " x\t")).1 = .ok p ∧
      (replay.evaluate scope (.program p)).1 = .ok (.number 3)) ∧
    (Repl.handle (Repl.afterLines s mixed) " x\t").1.err = [] := by
  intro s scope replay
  have hscript : ¬ Repl.IsRemark " x\t" := by decide +kernel
  have hvalue : (replay.evaluateSource scope (Text.trim " x\t")).1 = .ok (.number 3) := by
    decide +kernel
  obtain ⟨hstate, _, hreplies⟩ := session_is_its_readable_lines s mixed
  obtain ⟨_, _, _, hreply⟩ := hreplies " x\t"
  refine ⟨by decide +kernel, by decide +kernel, hstate, hscript, ?_⟩
  cases hp : Program.parse (Text.trim " x\t") with
  | ok p =>
    have hproduced := (Parser.new.produce_eq (Text.trim " x\t")).trans hp
    rw [Interpreter.evaluateSource_of_read hp] at hvalue
    obtain ⟨_, _, hgiven⟩ := (hreply hscript).2 p hproduced
    exact ⟨⟨p, hproduced, hvalue⟩, (hgiven _ hvalue).2⟩
  | error e =>
    rw [Interpreter.evaluateSource_of_refused hp] at hvalue
    cases hvalue

end Scriptorium
