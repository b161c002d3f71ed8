/-
  Scriptorium.Proofs.Parsing.Descent: the parse functions over a list with an index.

  A feed cannot be read beyond its end.  A list of tokens with an index into it can, so here
  the parse functions are followed on such a list: every look is at the index, a look where
  there is no token is an arrival of its own (`outside`), and so is a call that lies deeper
  than allowed (`tooDeep`).  What a parse function does is written down as a `Routine`, and
  routines have two readings: on feeds, where they are the parse functions, and by index.

  That the descent ends is seen on the routines alone.  Each procedure has a rank, and before
  a routine has consumed a token it enters procedures of smaller rank only; behind a token
  it may enter any.  So the number of tokens that are left, and then the rank, goes down from
  call to call.

  Main results:
    * `Procedure.read_eq`: the routines are the parse functions.
    * `Procedure.routine_guarded`, `Procedure.advances_routine`: the check on the routines.
    * `Routine.walk_tells`: one routine by index, if what it enters behaves.
    * `descent_progresses`: every parse function ends, inside the list and further on.
-/

import Scriptorium.Proofs.Parsing.Prompt

namespace Scriptorium

/-! ## §1. Procedures. -/

/-- A parse function, with what it is given besides its feed. -/
inductive Procedure where
  | expression
  | operand
  | properties
  | items
  | additive
  | additiveTail (start : Position) (left : Expr)
  | multiplicative
  | multiplicativeTail (start : Position) (left : Expr)
  | call
  | callTail (start : Position) (callee : Expr)
  | arguments
  | argumentList
  | member
  | memberTail (start : Position) (object : Expr)
  | primary
  | terminator
  | declaration
  | statement
  | statements

/-- The feed when all its tokens are consumed. -/
def Feed.drained (f : Feed) : Feed := ⟨[], f.stop, Token.endFrom f.lastEnd f.rest⟩

namespace Procedure

/-- What the parse function leaves of a feed, or its complaint.  The loop over the statements
    goes on to the end of the feed. -/
def read : Procedure → Reader
  | .expression, f => (parseExpression f).left
  | .operand, f => (parseOperand f).left
  | .properties, f => (parseProperties f).left
  | .items, f => (parseItems f).left
  | .additive, f => (parseAdditive f).left
  | .additiveTail start left, f => (parseAdditiveTail start left f).left
  | .multiplicative, f => (parseMultiplicative f).left
  | .multiplicativeTail start left, f => (parseMultiplicativeTail start left f).left
  | .call, f => (parseCall f).left
  | .callTail start callee, f => (parseCallTail start callee f).left
  | .arguments, f => (parseArguments f).left
  | .argumentList, f => (parseArgumentList f).left
  | .member, f => (parseMember f).left
  | .memberTail start object, f => (parseMemberTail start object f).left
  | .primary, f => (parsePrimary f).left
  | .terminator, f => (parseTerminator f).left
  | .declaration, f => (parseVarDeclaration f).left
  | .statement, f => (parseStatement f).left
  | .statements, f => (parseStatements f).map fun _ => f.drained

/-- Whether the procedure consumes a token whenever it succeeds.  The loops may end at once,
    and the end of the input is a terminator. -/
def advances : Procedure → Bool
  | .additiveTail .. | .multiplicativeTail .. | .callTail .. | .memberTail .. => false
  | .terminator | .statements => false
  | _ => true

/-- How far up in the descent the procedure stands.  Those that enter others only behind a
    token stand at the bottom. -/
def rank : Procedure → Nat
  | .primary => 1
  | .member => 2
  | .call => 3
  | .multiplicative => 4
  | .additive => 5
  | .operand => 6
  | .expression => 7
  | .items | .argumentList | .statement => 8
  | .arguments | .statements => 9
  | _ => 0

theorem rank_lt (p : Procedure) : p.rank < 10 := by
  cases p <;> simp [rank]

end Procedure

/-! ## §2. Routines. -/

/-- The steps of a parse function, without the trees that it builds. -/
inductive Routine where
  /-- Succeeds. -/
  | done
  /-- Complains about the token that comes next. -/
  | refuse (complaint : Token → Cause)
  /-- Has a procedure done, and goes on if that succeeds. -/
  | enter (p : Procedure) (next : Routine)
  /-- Consumes what comes next, whatever it is, and goes on by whether it is of the kind.  The
      end of the input is seen and stays. -/
  | eat (kind : TokenKind) (yes no : Routine)
  /-- Consumes a number if that comes next; it succeeds behind one that writes a number, and
      complains about any other. -/
  | onNumber (otherwise : Routine)
  /-- Consumes a token of the kind if that comes next. -/
  | onToken (kind : TokenKind) (behind : Token → Routine) (otherwise : Routine)
  /-- Consumes one of the operators if that comes next. -/
  | onOperator (operators : List Text) (behind otherwise : Routine)
  /-- Looks for a token of the kind and consumes nothing. -/
  | ifNext (kind : TokenKind) (yes no : Routine)
  /-- Looks for the end of the input. -/
  | ifEnded (yes no : Routine)

namespace Routine

/-- Consumes a token of the kind or complains about the one that is there. -/
def expect (kind : TokenKind) (what : Expectation) (behind : Token → Routine) : Routine :=
  .onToken kind behind (.refuse (.expected what))

/-- Ends with a procedure. -/
def finish (p : Procedure) : Routine := .enter p .done

/-- What follows the keyword of a declaration. -/
def declaring (constant : Bool) : Routine :=
  .expect .identifier .declarationName fun name =>
    .onToken .equals (fun _ => .enter .expression (.finish .terminator))
      (if constant then .refuse fun _ => .constantWithoutValue name.lexeme
        else .finish .terminator)

/-- The routine on feeds. -/
def read : Routine → Reader
  | .done => .done
  | .refuse complaint => .refuse complaint
  | .enter p next => p.read.seq next.read
  | .eat kind yes no => .eat kind yes.read no.read
  | .onNumber otherwise => .onToken .number .numeral otherwise.read
  | .onToken kind behind otherwise => .onToken kind (fun t => (behind t).read) otherwise.read
  | .onOperator operators behind otherwise => .onOperator operators behind.read otherwise.read
  | .ifNext kind yes no => .ifNext kind yes.read no.read
  | .ifEnded yes no => .ifEnded yes.read no.read

end Routine

/-- What the procedure does.  What a loop has read so far makes no difference to it, so the
    next round is entered with nothing. -/
def Procedure.routine : Procedure → Routine
  | .expression => .enter .operand (.onToken .equals (fun _ => .finish .expression) .done)
  | .operand =>
    .onToken .openBrace (fun _ => .finish .properties)
      (.onToken .openBracket (fun _ => .finish .items) (.finish .additive))
  | .properties =>
    .onToken .closeBrace (fun _ => .done) (.ifEnded (.refuse (.expected .objectEnd))
      (.expect .identifier .objectKey fun _ => .onToken .comma (fun _ => .finish .properties)
        (.ifNext .closeBrace (.finish .properties) (.expect .colon .propertyColon fun _ =>
          .enter .expression (.ifNext .closeBrace (.finish .properties)
            (.expect .comma .propertyEnd fun _ => .finish .properties))))))
  | .items =>
    .onToken .closeBracket (fun _ => .done) (.ifEnded (.refuse (.expected .listEnd))
      (.enter .expression (.ifNext .closeBracket (.finish .items)
        (.expect .comma .itemEnd fun _ => .finish .items))))
  | .additive => .enter .multiplicative (.finish (.additiveTail .unknown .absent))
  | .additiveTail .. =>
    .onOperator additiveOperators
      (.enter .multiplicative (.finish (.additiveTail .unknown .absent))) .done
  | .multiplicative => .enter .call (.finish (.multiplicativeTail .unknown .absent))
  | .multiplicativeTail .. =>
    .onOperator multiplicativeOperators
      (.enter .call (.finish (.multiplicativeTail .unknown .absent))) .done
  | .call => .enter .member (.finish (.callTail .unknown .absent))
  | .callTail .. =>
    .onToken .openParen
      (fun _ => .enter .arguments (.finish (.callTail .unknown .absent))) .done
  | .arguments => .onToken .closeParen (fun _ => .done) (.finish .argumentList)
  | .argumentList =>
    .enter .expression (.onToken .comma (fun _ => .finish .argumentList)
      (.expect .closeParen .argumentsEnd fun _ => .done))
  | .member => .enter .primary (.finish (.memberTail .unknown .absent))
  | .memberTail .. =>
    .onToken .dot
      (fun _ => .onToken .identifier (fun _ => .finish (.memberTail .unknown .absent))
        (.refuse .dotWithoutName))
      (.onToken .openBracket
        (fun _ => .enter .expression (.expect .closeBracket .computedEnd fun _ =>
          .finish (.memberTail .unknown .absent))) .done)
  | .primary =>
    .onToken .identifier (fun _ => .done) (.onNumber
      (.onToken .string (fun _ => .done) (.onToken .openParen
        (fun _ => .enter .expression (.expect .closeParen .groupEnd fun _ => .done))
        (.refuse .unexpectedToken))))
  | .terminator =>
    .onToken .semicolon (fun _ => .done) (.ifEnded .done (.refuse (.expected .declarationEnd)))
  | .declaration => .eat .constKeyword (.declaring true) (.declaring false)
  | .statement =>
    .ifNext .letKeyword (.finish .declaration) (.ifNext .constKeyword (.finish .declaration)
      (.enter .expression (.onToken .semicolon (fun _ => .done) .done)))
  | .statements => .ifEnded .done (.enter .statement (.finish .statements))

/-! ## §3. The routines are the parse functions. -/

@[simp]
theorem Reader.seq_done (r : Reader) : r.seq .done = r := by
  funext f
  unfold seq done
  cases r f with
  | error e => rfl
  | ok f' => rfl

@[simp]
theorem Routine.read_finish (p : Procedure) : (finish p).read = p.read :=
  Reader.seq_done p.read

theorem Routine.read_declaring (constant : Bool) :
    (declaring constant).read = Reader.declaration constant := by
  have hread := funext fun f => Reader.parseDeclaration_left .unknown constant f
  simp only [declaring, expect, read, read_finish]
  cases constant with
  | false =>
    simp only [Bool.false_eq_true, if_false, read_finish] at hread ⊢
    exact hread.symm
  | true => exact hread.symm

/-- The end of the feed is the same before and behind what was consumed. -/
theorem Feed.Took.drained_eq {f f' : Feed} {used : List Token} (h : f.Took used f') :
    f'.drained = f.drained := by
  unfold Feed.drained
  rw [h.rest, h.stop, h.lastEnd, Token.endFrom_append]

/-- The loop over the statements: it is at its end, or one statement is read and then the
    others. -/
theorem Procedure.read_statements : Procedure.statements.read =
    Reader.ifEnded .done (Procedure.statement.read.seq Procedure.statements.read) := by
  funext f
  unfold Reader.ifEnded Reader.seq Procedure.read
  dsimp only
  rw [parseStatements]
  split
  · next hempty =>
    have hrest : f.rest = [] := List.isEmpty_iff.1 hempty
    show Except.ok f.drained = Except.ok f
    unfold Feed.drained
    rw [hrest, Token.endFrom_nil, ← hrest]
  · cases hs : parseStatement f with
    | error e => rfl
    | ok parsed =>
      obtain ⟨s, f₁, hlt⟩ := parsed
      obtain ⟨used, htook, _⟩ := parseStatement_spells ⟨hlt, hs⟩
      show Except.map (fun _ => f.drained) (parseStatements f₁ >>= fun rest => .ok (s :: rest)) =
        (parseStatements f₁).map fun _ => f₁.drained
      rw [htook.drained_eq]
      cases parseStatements f₁ with
      | error e => rfl
      | ok body => rfl

/-- **Every parse function is its routine**, with the procedures that it enters. -/
theorem Procedure.read_eq (p : Procedure) : p.read = p.routine.read := by
  cases p <;> simp only [routine, Routine.expect, Routine.read, Routine.read_finish]
  case expression => exact Reader.expression_eq
  case operand => exact Reader.operand_eq
  case properties => exact Reader.properties_eq
  case items => exact Reader.items_eq
  case additive => exact Reader.additive_eq
  case additiveTail start left => exact funext fun f => Reader.parseAdditiveTail_left f start left
  case multiplicative => exact Reader.multiplicative_eq
  case multiplicativeTail start left =>
    exact funext fun f => Reader.parseMultiplicativeTail_left f start left
  case call => exact Reader.call_eq
  case callTail start callee => exact funext fun f => Reader.parseCallTail_left f start callee
  case arguments => exact Reader.arguments_eq
  case argumentList => exact Reader.argumentList_eq
  case member => exact Reader.member_eq
  case memberTail start object =>
    exact funext fun f => Reader.parseMemberTail_left f start object
  case primary => exact Reader.primary_eq
  case terminator => exact Reader.terminator_eq
  case declaration =>
    rw [Routine.read_declaring, Routine.read_declaring]
    exact Reader.varDeclaration_eq
  case statement =>
    have hstatement := Reader.statement_eq
    rw [Reader.bare_eq] at hstatement
    exact hstatement
  case statements => exact Procedure.read_statements

/-! ## §4. The check on the routines. -/

namespace Routine

/-- Whether the routine has consumed a token whenever it succeeds. -/
def advances : Routine → Bool
  | .done => false
  | .refuse _ => true
  | .enter p next => p.advances || next.advances
  | .eat _ yes no => yes.advances && no.advances
  | .onNumber otherwise => otherwise.advances
  | .onToken _ _ otherwise => otherwise.advances
  | .onOperator _ _ otherwise => otherwise.advances
  | .ifNext _ yes no => yes.advances && no.advances
  | .ifEnded yes no => yes.advances && no.advances

/-- Whether the routine enters only procedures below the bound before it has consumed a token,
    and never consumes the end of the input.  Behind a token it may enter all there are. -/
def Guarded (bound : Nat) : Routine → Prop
  | .done => True
  | .refuse _ => True
  | .enter p next => p.rank < bound ∧ next.Guarded (if p.advances then 10 else bound)
  | .eat _ yes no => yes.Guarded bound ∧ no.Guarded bound
  | .onNumber otherwise => otherwise.Guarded bound
  | .onToken kind behind otherwise =>
    kind ≠ .endOfInput ∧ (∀ t, (behind t).Guarded 10) ∧ otherwise.Guarded bound
  | .onOperator _ behind otherwise => behind.Guarded 10 ∧ otherwise.Guarded bound
  | .ifNext _ yes no => yes.Guarded bound ∧ no.Guarded bound
  | .ifEnded yes no => yes.Guarded bound ∧ no.Guarded bound

end Routine

/-- What follows the keyword of a declaration enters nothing before the name. -/
theorem Routine.declaring_guarded (constant : Bool) : (declaring constant).Guarded 0 := by
  cases constant <;> simp [declaring, expect, finish, Guarded, Procedure.rank, Procedure.advances]

/-- Every procedure enters those below its own rank until it has consumed a token. -/
theorem Procedure.routine_guarded (p : Procedure) : p.routine.Guarded p.rank := by
  cases p with
  | declaration => exact ⟨Routine.declaring_guarded true, Routine.declaring_guarded false⟩
  | _ => simp [routine, Routine.expect, Routine.finish, Routine.Guarded, rank, advances]

/-- A procedure advances as its routine does. -/
theorem Procedure.advances_routine (p : Procedure) : p.routine.advances = p.advances := by
  cases p <;> rfl

/-! ## §5. Reading by index. -/

/-- Where reading by index comes to. -/
inductive Arrival where
  /-- Success, with the index at this place. -/
  | reached (index : Nat)
  /-- A complaint about the token at this place. -/
  | refused (index : Nat)
  /-- A look at a place where there is nothing to see. -/
  | outside (index : Nat)
  /-- A call inside too many others. -/
  | tooDeep
deriving DecidableEq, Repr

/-- Goes on from the index that was reached. -/
def Arrival.andThen (a : Arrival) (next : Nat → Arrival) : Arrival :=
  match a with
  | .reached j => next j
  | other => other

/-- What is seen from an index: the token there, and where the token before it ends.  From the
    first token its own beginning is seen instead. -/
def seen? (tokens : List Token) (i : Nat) : Option (Token × Position) := do
  let t ← tokens[i]?
  let before ← tokens[i - 1]?
  return (t, if i = 0 then t.pos else before.stop)

/-- Looks from the index, and goes on with the token there. -/
def lookFrom (tokens : List Token) (i : Nat) (next : Token → Arrival) : Arrival :=
  match seen? tokens i with
  | some (t, _) => next t
  | none => .outside i

/-- Follows a routine from an index.  `enter` has a procedure done. -/
def Routine.walk (tokens : List Token) (enter : Procedure → Nat → Arrival) :
    Routine → Nat → Arrival
  | .done, i => lookFrom tokens i fun _ => .reached i
  | .refuse _, i => lookFrom tokens i fun _ => .refused i
  | .enter p next, i => (enter p i).andThen (next.walk tokens enter)
  | .eat kind yes no, i => lookFrom tokens i fun t =>
    let behind := if t.kind = .endOfInput then i else i + 1
    if t.kind = kind then yes.walk tokens enter behind else no.walk tokens enter behind
  | .onNumber otherwise, i => lookFrom tokens i fun t =>
    if t.kind = .number then
      match Number.ofText? t.lexeme with
      | some _ => lookFrom tokens (i + 1) fun _ => .reached (i + 1)
      | none => .refused i
    else otherwise.walk tokens enter i
  | .onToken kind behind otherwise, i => lookFrom tokens i fun t =>
    if t.kind = kind then (behind t).walk tokens enter (i + 1)
    else otherwise.walk tokens enter i
  | .onOperator operators behind otherwise, i => lookFrom tokens i fun t =>
    if t.kind = .binaryOperator ∧ operators.contains t.lexeme then behind.walk tokens enter (i + 1)
    else otherwise.walk tokens enter i
  | .ifNext kind yes no, i => lookFrom tokens i fun t =>
    if t.kind = kind then yes.walk tokens enter i else no.walk tokens enter i
  | .ifEnded yes no, i => lookFrom tokens i fun t =>
    if t.kind = .endOfInput then yes.walk tokens enter i else no.walk tokens enter i

/-- Follows a procedure from an index, with at most `depth` calls inside one another. -/
def Procedure.walk (tokens : List Token) : (depth : Nat) → Procedure → Nat → Arrival
  | 0, _, _ => .tooDeep
  | depth + 1, p, i => p.routine.walk tokens (walk tokens depth) i

/-! ## §6. Feeds at an index. -/

/-- Whether the end of the input is the last token of the list, and no other one is it. -/
def EndsOnce (tokens : List Token) : Prop :=
  ∃ before stop, tokens = before ++ [stop] ∧ stop.kind = .endOfInput ∧
    ∀ t ∈ before, t.kind ≠ .endOfInput

namespace Feed

variable {tokens : List Token} {t : Token} {i : Nat}

theorem atIndex_zero (tokens : List Token) : atIndex tokens 0 = ofTokens tokens := rfl

/-- The token at the index can be consumed, and then the index is the next one; or it is the
    end of the input, and nothing is left. -/
theorem atIndex_cases (hend : EndsOnce tokens) (ht : tokens[i]? = some t) :
    (t.kind ≠ .endOfInput ∧ i + 1 < tokens.length ∧
      (atIndex tokens i).Took [t] (atIndex tokens (i + 1))) ∨
    (t.kind = .endOfInput ∧ i + 1 = tokens.length ∧
      (atIndex tokens i).rest = [] ∧ (atIndex tokens i).stop = t.pos) := by
  obtain ⟨before, stop, rfl, hstop, hbefore⟩ := hend
  obtain ⟨g, hg, _, hlast⟩ := ofTokens_took hbefore stop []
  have hrest : (ofTokens (before ++ [stop])).rest = before := by
    rw [hg.rest, (hlast hstop).1, List.append_nil]
  by_cases hi : i < before.length
  · left
    rw [List.getElem?_append_left hi, List.getElem?_eq_getElem hi] at ht
    obtain rfl := Option.some.inj ht
    refine ⟨hbefore _ (List.getElem_mem hi), by simp; omega, ?_, rfl, ?_⟩
    · show (ofTokens _).rest.drop i = [before[i]] ++ (ofTokens _).rest.drop (i + 1)
      rw [hrest]
      exact List.drop_eq_getElem_cons hi
    · show Token.endFrom _ ((ofTokens _).rest.take (i + 1)) = _
      rw [hrest, List.take_succ_eq_append_getElem hi, Token.endFrom_append]
      rfl
  · right
    -- the only index that is left is the last one
    have hlt : i < (before ++ [stop]).length := (List.getElem?_eq_some_iff.1 ht).1
    have hi' : i = before.length := by simp at hlt; omega
    subst hi'
    rw [List.getElem?_concat_length] at ht
    obtain rfl := Option.some.inj ht
    refine ⟨hstop, by simp, ?_, ?_⟩
    · show (ofTokens _).rest.drop before.length = []
      rw [hrest, List.drop_length]
    · show (ofTokens _).stop = _
      rw [← hg.stop, (hlast hstop).2]

/-- What comes next at the index is the token there. -/
theorem peek_atIndex (hend : EndsOnce tokens) (ht : tokens[i]? = some t) :
    (atIndex tokens i).peek.kind = t.kind ∧ (atIndex tokens i).peek.pos = t.pos := by
  rcases atIndex_cases hend ht with ⟨_, _, htook⟩ | ⟨hk, _, hrest, hstop⟩
  · rw [htook.peek_eq]
    exact ⟨rfl, rfl⟩
  · rw [peek_eq_atEnd hrest, hstop, hk]
    exact ⟨rfl, rfl⟩

/-- The feed is at its end where the end of the input stands. -/
theorem isEmpty_atIndex (hend : EndsOnce tokens) (ht : tokens[i]? = some t) :
    (atIndex tokens i).rest.isEmpty = decide (t.kind = .endOfInput) := by
  rcases atIndex_cases hend ht with ⟨hk, _, htook⟩ | ⟨hk, _, hrest, _⟩
  · rw [htook.rest, decide_eq_false hk]
    rfl
  · rw [hrest, decide_eq_true hk]
    rfl

/-- A token that can be consumed is not the last one. -/
theorem took_atIndex (hend : EndsOnce tokens) (ht : tokens[i]? = some t)
    (hk : t.kind ≠ .endOfInput) :
    i + 1 < tokens.length ∧ (atIndex tokens i).Took [t] (atIndex tokens (i + 1)) := by
  rcases atIndex_cases hend ht with ⟨_, hlt, htook⟩ | ⟨hk', _⟩
  · exact ⟨hlt, htook⟩
  · exact absurd hk' hk

/-- What is consumed at the index is the token there, and then the index is the next one; at
    the end of the input it stays. -/
theorem eat_atIndex (hend : EndsOnce tokens) (ht : tokens[i]? = some t) :
    ∃ j, j = (if t.kind = .endOfInput then i else i + 1) ∧ i ≤ j ∧ j < tokens.length ∧
      (atIndex tokens i).eat.feed = atIndex tokens j := by
  rcases atIndex_cases hend ht with ⟨hk, hlt, htook⟩ | ⟨hk, hlast, hrest, _⟩
  · obtain ⟨_, heat⟩ := htook.eat
    refine ⟨i + 1, (if_neg hk).symm, by omega, hlt, ?_⟩
    rw [heat]
  · exact ⟨i, (if_pos hk).symm, Nat.le_refl i, by omega, feed_eat_of_rest hrest⟩

/-- An operator comes next at the index if the token there is one. -/
theorem isOperator_peek_atIndex (hend : EndsOnce tokens) (ht : tokens[i]? = some t)
    {operators : List Text} (h : (atIndex tokens i).peek.IsOperator operators) :
    t.IsOperator operators := by
  rcases atIndex_cases hend ht with ⟨_, _, htook⟩ | ⟨_, _, hrest, _⟩
  · rw [htook.peek_eq] at h
    exact h
  · rw [peek_eq_atEnd hrest] at h
    exact nomatch h.1

end Feed

/-- From every index of the list its token is seen, and the place where the feed there says
    that the last token ended. -/
theorem seen?_eq {tokens : List Token} (hend : EndsOnce tokens) {i : Nat}
    (hi : i < tokens.length) :
    ∃ t, tokens[i]? = some t ∧ seen? tokens i = some (t, (Feed.atIndex tokens i).lastEnd) := by
  have ht : tokens[i]? = some tokens[i] := List.getElem?_eq_getElem hi
  refine ⟨tokens[i], ht, ?_⟩
  unfold seen?
  cases i with
  | zero =>
    have hfirst : (Feed.atIndex tokens 0).lastEnd = (Feed.atIndex tokens 0).peek.pos := by
      show (Feed.ofTokens tokens).lastEnd = (Feed.ofTokens tokens).peek.pos
      unfold Feed.ofTokens Feed.peek
      dsimp only
      cases tokens.takeWhile fun t => t.kind ≠ .endOfInput with
      | nil => rfl
      | cons u rest => rfl
    rw [hfirst, (Feed.peek_atIndex hend ht).2]
    simp [ht]
  | succ k =>
    have hk : tokens[k]? = some tokens[k] := List.getElem?_eq_getElem (by omega)
    -- the token before is not the last one, so it was consumed
    rcases Feed.atIndex_cases hend hk with ⟨_, _, htook⟩ | ⟨_, hlast, _⟩
    · rw [htook.lastEnd]
      simp [ht, hk]
    · omega

theorem lookFrom_eq {tokens : List Token} (hend : EndsOnce tokens) {i : Nat} {t : Token}
    (ht : tokens[i]? = some t) (next : Token → Arrival) : lookFrom tokens i next = next t := by
  obtain ⟨u, hu, hseen⟩ := seen?_eq hend (List.getElem?_eq_some_iff.1 ht).1
  rw [ht] at hu
  obtain rfl := Option.some.inj hu
  unfold lookFrom
  rw [hseen]

/-! ## §7. Routines by index are the parse functions. -/

/-- Whether reading by index, begun at `i`, comes to where the reading of the feed does: to the
    same index, further on if `moved`, or to a complaint about the token there. -/
inductive Arrival.Tells (tokens : List Token) (i : Nat) (moved : Bool) :
    Arrival → Except Error Feed → Prop where
  | reached {j : Nat} (le : i ≤ j) (further : moved = true → i < j) (inside : j < tokens.length) :
      Tells tokens i moved (.reached j) (.ok (Feed.atIndex tokens j))
  | refused {k : Nat} {t : Token} {e : Error} (le : i ≤ k) (there : tokens[k]? = some t)
      (pos : e.pos = t.pos) : Tells tokens i moved (.refused k) (.error e)

section Tells

variable {tokens : List Token} {i j : Nat} {moved moved' : Bool} {a : Arrival}
  {r : Except Error Feed}

/-- What is told from an index on is told from before it. -/
theorem Arrival.Tells.before (h : a.Tells tokens j moved' r) (hij : i ≤ j)
    (hmoved : moved = true → i < j ∨ moved' = true) : a.Tells tokens i moved r := by
  cases h with
  | reached le further inside =>
    refine .reached (by omega) ?_ inside
    intro hm
    rcases hmoved hm with hlt | hm'
    · omega
    · have := further hm'
      omega
  | refused le there pos => exact .refused (by omega) there pos

/-- What is told about two readings is told about one after the other. -/
theorem Arrival.Tells.andThen {next : Nat → Arrival} {s : Reader} (h : a.Tells tokens i moved r)
    (hnext : ∀ j, i ≤ j → (moved = true → i < j) → j < tokens.length →
      (next j).Tells tokens j moved' (s (Feed.atIndex tokens j))) :
    (a.andThen next).Tells tokens i (moved || moved') (r >>= s) := by
  cases h with
  | reached le further inside =>
    refine (hnext _ le further inside).before le fun hmoved => ?_
    cases hm : moved with
    | true => exact .inl (further hm)
    | false => exact .inr (by simpa [hm] using hmoved)
  | refused le there pos => exact .refused le there pos

/-- **A routine by index does what it does on the feed**, if the procedures that it enters do.
    These need to be known only below the measure that the routine is guarded for. -/
theorem Routine.walk_tells (hend : EndsOnce tokens) {enter : Procedure → Nat → Arrival}
    (measure : Nat)
    (henter : ∀ q j, j < tokens.length → 10 * (tokens.length - (j + 1)) + q.rank < measure →
      (enter q j).Tells tokens j q.advances (q.read (Feed.atIndex tokens j))) (r : Routine) :
    ∀ {bound i : Nat}, r.Guarded bound → i < tokens.length →
      10 * (tokens.length - (i + 1)) + bound ≤ measure →
      (r.walk tokens enter i).Tells tokens i r.advances (r.read (Feed.atIndex tokens i)) := by
  -- behind a token any procedure may be entered, for less is left than the bound can add
  induction r with
  | done =>
    intro bound i _ hi _
    have ht : tokens[i]? = some tokens[i] := List.getElem?_eq_getElem hi
    unfold walk
    rw [lookFrom_eq hend ht]
    exact .reached (Nat.le_refl i) (fun h => nomatch h) hi
  | refuse complaint =>
    intro bound i _ hi _
    have ht : tokens[i]? = some tokens[i] := List.getElem?_eq_getElem hi
    unfold walk
    rw [lookFrom_eq hend ht]
    exact .refused (Nat.le_refl i) ht (Feed.peek_atIndex hend ht).2
  | enter p next ih =>
    intro bound i hguard hi hmeasure
    obtain ⟨hrank, hnext⟩ := hguard
    refine (henter p i hi (by omega)).andThen fun j hij hfurther hj => ih hnext hj ?_
    cases hadv : p.advances with
    | false =>
      rw [if_neg Bool.false_ne_true]
      omega
    | true =>
      have hlt := hfurther hadv
      rw [if_pos rfl]
      omega
  | eat kind yes no ihYes ihNo =>
    intro bound i hguard hi hmeasure
    have ht : tokens[i]? = some tokens[i] := List.getElem?_eq_getElem hi
    -- the index is the next one, or the same at the end of the input
    obtain ⟨j, hj, hij, hlt, hfeed⟩ := Feed.eat_atIndex hend ht
    unfold walk read Reader.eat advances
    rw [lookFrom_eq hend ht, (Feed.peek_atIndex hend ht).1, hfeed]
    simp only [← hj]
    split
    · refine (ihYes hguard.1 hlt (by omega)).before hij fun h => .inr ?_
      exact (Bool.and_eq_true_iff.1 h).1
    · refine (ihNo hguard.2 hlt (by omega)).before hij fun h => .inr ?_
      exact (Bool.and_eq_true_iff.1 h).2
  | onNumber otherwise ihOtherwise =>
    intro bound i hguard hi hmeasure
    have ht : tokens[i]? = some tokens[i] := List.getElem?_eq_getElem hi
    unfold walk read Reader.onToken advances
    rw [lookFrom_eq hend ht]
    by_cases hk : tokens[i].kind = .number
    · obtain ⟨hlt, htook⟩ := Feed.took_atIndex hend ht (by rw [hk]; decide)
      rw [if_pos hk, htook.eat? hk]
      dsimp only
      rw [Reader.numeral]
      cases Number.ofText? tokens[i].lexeme with
      | some value =>
        have hnext : tokens[i + 1]? = some tokens[i + 1] := List.getElem?_eq_getElem hlt
        dsimp only
        rw [lookFrom_eq hend hnext]
        exact .reached (Nat.le_succ i) (fun _ => Nat.lt_succ_self i) hlt
      | none =>
        dsimp only
        exact .refused (Nat.le_refl i) ht rfl
    · rw [if_neg hk, Feed.eat?_eq_none_of_peek (by rw [(Feed.peek_atIndex hend ht).1]; exact hk)]
      exact ihOtherwise hguard hi hmeasure
  | onToken kind behind otherwise ihBehind ihOtherwise =>
    intro bound i hguard hi hmeasure
    obtain ⟨hkind, hbehind, hotherwise⟩ := hguard
    have ht : tokens[i]? = some tokens[i] := List.getElem?_eq_getElem hi
    unfold walk read Reader.onToken advances
    rw [lookFrom_eq hend ht]
    by_cases hk : tokens[i].kind = kind
    · obtain ⟨hlt, htook⟩ := Feed.took_atIndex hend ht (by rw [hk]; exact hkind)
      rw [if_pos hk, htook.eat? hk]
      exact (ihBehind _ (hbehind _) hlt (by omega)).before (by omega) fun _ => .inl (by omega)
    · rw [if_neg hk, Feed.eat?_eq_none_of_peek (by rw [(Feed.peek_atIndex hend ht).1]; exact hk)]
      exact ihOtherwise hotherwise hi hmeasure
  | onOperator operators behind otherwise ihBehind ihOtherwise =>
    intro bound i hguard hi hmeasure
    obtain ⟨hbehind, hotherwise⟩ := hguard
    have ht : tokens[i]? = some tokens[i] := List.getElem?_eq_getElem hi
    unfold walk read Reader.onOperator advances
    rw [lookFrom_eq hend ht]
    simp only [List.contains_iff_mem]
    by_cases hop : tokens[i].kind = .binaryOperator ∧ tokens[i].lexeme ∈ operators
    · obtain ⟨hlt, htook⟩ := Feed.took_atIndex hend ht (by rw [hop.1]; decide)
      rw [if_pos hop, htook.eatOperator? hop]
      exact (ihBehind hbehind hlt (by omega)).before (by omega) fun _ => .inl (by omega)
    · rw [if_neg hop, Feed.eatOperator?_eq_none fun h =>
        hop (Feed.isOperator_peek_atIndex hend ht h)]
      exact ihOtherwise hotherwise hi hmeasure
  | ifNext kind yes no ihYes ihNo =>
    intro bound i hguard hi hmeasure
    have ht : tokens[i]? = some tokens[i] := List.getElem?_eq_getElem hi
    unfold walk read Reader.ifNext advances
    rw [lookFrom_eq hend ht, (Feed.peek_atIndex hend ht).1]
    split
    · refine (ihYes hguard.1 hi hmeasure).before (Nat.le_refl i) fun h => .inr ?_
      exact (Bool.and_eq_true_iff.1 h).1
    · refine (ihNo hguard.2 hi hmeasure).before (Nat.le_refl i) fun h => .inr ?_
      exact (Bool.and_eq_true_iff.1 h).2
  | ifEnded yes no ihYes ihNo =>
    intro bound i hguard hi hmeasure
    have ht : tokens[i]? = some tokens[i] := List.getElem?_eq_getElem hi
    unfold walk read Reader.ifEnded advances
    rw [lookFrom_eq hend ht, Feed.isEmpty_atIndex hend ht]
    simp only [decide_eq_true_eq]
    split
    · refine (ihYes hguard.1 hi hmeasure).before (Nat.le_refl i) fun h => .inr ?_
      exact (Bool.and_eq_true_iff.1 h).1
    · refine (ihNo hguard.2 hi hmeasure).before (Nat.le_refl i) fun h => .inr ?_
      exact (Bool.and_eq_true_iff.1 h).2

/-- **A procedure by index does what it does on the feed**, at any depth above its measure. -/
theorem Procedure.walk_tells (hend : EndsOnce tokens) (depth : Nat) : ∀ (p : Procedure) {i : Nat},
    i < tokens.length → 10 * (tokens.length - (i + 1)) + p.rank < depth →
    (p.walk tokens depth i).Tells tokens i p.advances (p.read (Feed.atIndex tokens i)) := by
  induction depth with
  | zero =>
    intro p i _ hdepth
    omega
  | succ depth ih =>
    intro p i hi hdepth
    -- the procedures that are entered have a smaller measure, hence enough depth left
    have htells := Routine.walk_tells hend (10 * (tokens.length - (i + 1)) + p.rank)
      (fun q j hj hmeasure => ih q hj (by omega)) p.routine p.routine_guarded hi (Nat.le_refl _)
    rw [p.advances_routine, ← p.read_eq] at htells
    exact htells

end Tells

/-! ## §8. Deeper calls change nothing. -/

section Deeper

variable {tokens : List Token}

theorem lookFrom_deeper {i : Nat} {next next' : Token → Arrival}
    (hnext : ∀ t, next t ≠ .tooDeep → next' t = next t) (h : lookFrom tokens i next ≠ .tooDeep) :
    lookFrom tokens i next' = lookFrom tokens i next := by
  unfold lookFrom at h ⊢
  cases hseen : seen? tokens i with
  | none => rfl
  | some s =>
    rw [hseen] at h
    exact hnext s.1 h

/-- A routine comes to the same if the procedures that it enters do, wherever these were not
    too deep before. -/
theorem Routine.walk_deeper {enter enter' : Procedure → Nat → Arrival}
    (henter : ∀ q j, enter q j ≠ .tooDeep → enter' q j = enter q j) (r : Routine) :
    ∀ i, r.walk tokens enter i ≠ .tooDeep → r.walk tokens enter' i = r.walk tokens enter i := by
  -- a look is the same for both; only what is entered can differ
  induction r with
  | done => exact fun _ _ => rfl
  | refuse complaint => exact fun _ _ => rfl
  | enter p next ih =>
    intro i h
    unfold walk at h ⊢
    have hp : enter p i ≠ .tooDeep := by
      intro hdeep
      rw [hdeep] at h
      exact h rfl
    rw [henter p i hp]
    cases hreached : enter p i with
    | reached j =>
      rw [hreached] at h
      exact ih j h
    | _ => rfl
  | eat kind yes no ihYes ihNo =>
    intro i
    refine lookFrom_deeper fun t ht => ?_
    by_cases hk : t.kind = kind
    · simp only [if_pos hk] at ht ⊢
      exact ihYes _ ht
    · simp only [if_neg hk] at ht ⊢
      exact ihNo _ ht
  | onNumber otherwise ihOtherwise =>
    intro i
    refine lookFrom_deeper fun t ht => ?_
    by_cases hk : t.kind = .number
    · simp only [if_pos hk]
    · simp only [if_neg hk] at ht ⊢
      exact ihOtherwise i ht
  | onToken kind behind otherwise ihBehind ihOtherwise =>
    intro i
    refine lookFrom_deeper fun t ht => ?_
    by_cases hk : t.kind = kind
    · simp only [if_pos hk] at ht ⊢
      exact ihBehind t (i + 1) ht
    · simp only [if_neg hk] at ht ⊢
      exact ihOtherwise i ht
  | onOperator operators behind otherwise ihBehind ihOtherwise =>
    intro i
    refine lookFrom_deeper fun t ht => ?_
    by_cases hop : t.kind = .binaryOperator ∧ operators.contains t.lexeme
    · simp only [if_pos hop] at ht ⊢
      exact ihBehind (i + 1) ht
    · simp only [if_neg hop] at ht ⊢
      exact ihOtherwise i ht
  | ifNext kind yes no ihYes ihNo =>
    intro i
    refine lookFrom_deeper fun t ht => ?_
    by_cases hk : t.kind = kind
    · simp only [if_pos hk] at ht ⊢
      exact ihYes i ht
    · simp only [if_neg hk] at ht ⊢
      exact ihNo i ht
  | ifEnded yes no ihYes ihNo =>
    intro i
    refine lookFrom_deeper fun t ht => ?_
    by_cases hk : t.kind = .endOfInput
    · simp only [if_pos hk] at ht ⊢
      exact ihYes i ht
    · simp only [if_neg hk] at ht ⊢
      exact ihNo i ht

/-- A procedure that came to something comes to the same if more depth is allowed. -/
theorem Procedure.walk_deeper {depth : Nat} : ∀ {depth' : Nat}, depth ≤ depth' →
    ∀ (p : Procedure) (i : Nat), p.walk tokens depth i ≠ .tooDeep →
    p.walk tokens depth' i = p.walk tokens depth i := by
  induction depth with
  | zero =>
    intro depth' _ p i h
    exact absurd rfl h
  | succ depth ih =>
    intro depth' hle p i h
    cases depth' with
    | zero => omega
    | succ depth' =>
      exact Routine.walk_deeper (fun q j hq => ih (by omega) q j hq) p.routine i h

end Deeper

/-! ## §9. The descent ends. -/

/-- From every index of a list every procedure comes to something, and from a depth of ten
    times the tokens that are left on it is always the same. -/
theorem Procedure.exists_arrival {tokens : List Token} (hend : EndsOnce tokens) (p : Procedure)
    {i : Nat} (hi : i < tokens.length) :
    ∃ a : Arrival, a.Tells tokens i p.advances (p.read (Feed.atIndex tokens i)) ∧
      ∀ depth, 10 * (tokens.length - i) ≤ depth → p.walk tokens depth i = a := by
  have hrank := p.rank_lt
  have htells := p.walk_tells hend (10 * (tokens.length - i)) hi (by omega)
  refine ⟨_, htells, fun depth hdepth => walk_deeper hdepth p i fun hdeep => ?_⟩
  rw [hdeep] at htells
  cases htells

/-- The loop over the statements comes to the end of the input exactly if there is a program,
    and otherwise to the token that the program is refused for. -/
theorem Program.exists_arrival {tokens : List Token} (hend : EndsOnce tokens) :
    (∃ program, ofTokens tokens = .ok program ∧ ∀ depth, 10 * tokens.length ≤ depth →
      Procedure.statements.walk tokens depth 0 = .reached (tokens.length - 1)) ∨
    (∃ k t e, tokens[k]? = some t ∧ ofTokens tokens = .error e ∧ e.pos = t.pos ∧
      ∀ depth, 10 * tokens.length ≤ depth →
        Procedure.statements.walk tokens depth 0 = .refused k) := by
  have hlength : 0 < tokens.length := by
    obtain ⟨before, stop, rfl, _⟩ := hend
    simp
  obtain ⟨a, htells, hwalk⟩ := Procedure.statements.exists_arrival hend hlength
  have hread : Procedure.statements.read (Feed.atIndex tokens 0) =
      (parseStatements (Feed.ofTokens tokens)).map fun _ => (Feed.ofTokens tokens).drained := rfl
  rw [hread] at htells
  cases hbody : parseStatements (Feed.ofTokens tokens) with
  | ok body =>
    obtain ⟨program, hprogram⟩ := exists_ofTokens hbody
    rw [hbody] at htells
    generalize hdrained : Except.map _ _ = outcome at htells
    cases htells with
    | @reached j le further inside =>
      -- nothing is left where the loop ends, so the end of the input stands there
      have hrest : (Feed.atIndex tokens j).rest = [] :=
        (congrArg Feed.rest (Except.ok.inj hdrained)).symm
      rcases Feed.atIndex_cases hend (List.getElem?_eq_getElem inside) with
        ⟨_, _, htook⟩ | ⟨_, hlast, _⟩
      · rw [htook.rest] at hrest
        cases hrest
      · obtain rfl : j = tokens.length - 1 := by omega
        exact .inl ⟨program, hprogram, hwalk⟩
    | refused le there pos => cases hdrained
  | error e =>
    rw [hbody] at htells
    cases htells with
    | refused le there pos =>
      exact .inr ⟨_, _, _, there, ofTokens_of_error hbody, pos, hwalk⟩

/-- **The descent always ends, within the list and further on.**  Let the last token of a list
    be the end of the input, and no other one.  From an index of the list a feed shows the
    token there, and says that the last token ended where the one before it does.  From every
    such index every parse function ends, on a list of any tokens: however many calls inside
    one another are allowed from ten times the tokens that are left on, it comes to the same,
    without a look to where no token is, and this is what it comes to on the feed.  It succeeds
    further on in the list, at the end of the input at most; the loops and the terminator may
    succeed where they are.  Or it complains about a token that it came to.  So the loop
    over the statements comes to the end of the input or to a complaint, and a program is read
    or refused. -/
theorem descent_progresses {tokens : List Token} (hend : EndsOnce tokens) :
    Feed.atIndex tokens 0 = Feed.ofTokens tokens ∧
    (∀ i t, tokens[i]? = some t →
      seen? tokens i = some (t, (Feed.atIndex tokens i).lastEnd) ∧
      (Feed.atIndex tokens i).peek.kind = t.kind ∧ (Feed.atIndex tokens i).peek.pos = t.pos) ∧
    (∀ (p : Procedure) (i : Nat), i < tokens.length →
      (∃ j, i ≤ j ∧ (p.advances = true → i < j) ∧ j < tokens.length ∧
        p.read (Feed.atIndex tokens i) = .ok (Feed.atIndex tokens j) ∧
        ∀ depth, 10 * (tokens.length - i) ≤ depth → p.walk tokens depth i = .reached j) ∨
      (∃ k t e, i ≤ k ∧ tokens[k]? = some t ∧
        p.read (Feed.atIndex tokens i) = .error e ∧ e.pos = t.pos ∧
        ∀ depth, 10 * (tokens.length - i) ≤ depth → p.walk tokens depth i = .refused k)) ∧
    ((∃ program, Program.ofTokens tokens = .ok program ∧ ∀ depth, 10 * tokens.length ≤ depth →
        Procedure.statements.walk tokens depth 0 = .reached (tokens.length - 1)) ∨
      (∃ k t e, tokens[k]? = some t ∧ Program.ofTokens tokens = .error e ∧ e.pos = t.pos ∧
        ∀ depth, 10 * tokens.length ≤ depth →
          Procedure.statements.walk tokens depth 0 = .refused k)) := by
  refine ⟨Feed.atIndex_zero tokens, ?_, ?_, ?_⟩
  · intro i t ht
    obtain ⟨u, hu, hseen⟩ := seen?_eq hend (List.getElem?_eq_some_iff.1 ht).1
    rw [ht] at hu
    obtain rfl := Option.some.inj hu
    exact ⟨hseen, Feed.peek_atIndex hend ht⟩
  · intro p i hi
    obtain ⟨a, htells, hwalk⟩ := p.exists_arrival hend hi
    generalize p.read (Feed.atIndex tokens i) = outcome at htells ⊢
    cases htells with
    | reached le further inside => exact .inl ⟨_, le, further, inside, rfl, hwalk⟩
    | refused le there pos => exact .inr ⟨_, _, _, le, there, rfl, pos, hwalk⟩
  · exact Program.exists_arrival hend

/-- The tokens of `f({ a: [1]`, in which two brackets are not closed. -/
def unclosed : List Token := [
  ⟨.identifier, "f", ⟨1, 1⟩⟩, ⟨.openParen, "(", ⟨1, 2⟩⟩, ⟨.openBrace, "\x7b", ⟨1, 3⟩⟩,
  ⟨.identifier, "a", ⟨1, 5⟩⟩, ⟨.colon, ":", ⟨1, 6⟩⟩, ⟨.openBracket, "[", ⟨1, 8⟩⟩,
  ⟨.number, "1", ⟨1, 9⟩⟩, ⟨.closeBracket, "]", ⟨1, 10⟩⟩, .atEnd ⟨1, 11⟩]

/-- The list in it is read up to the end of the input; the whole is refused there, and so is a
    declaration that is asked for where the input ends. -/
theorem descent_progresses_unclosed : EndsOnce unclosed ∧
    Procedure.operand.read (Feed.atIndex unclosed 5) = .ok (Feed.atIndex unclosed 8) ∧
    (∀ depth, 40 ≤ depth → Procedure.operand.walk unclosed depth 5 = .reached 8) ∧
    (∀ depth, 10 ≤ depth → Procedure.declaration.walk unclosed depth 8 = .refused 8) ∧
    (∃ e, Program.ofTokens unclosed = .error e ∧ e.pos = ⟨1, 11⟩) ∧
    ∀ depth, 90 ≤ depth → Procedure.statements.walk unclosed depth 0 = .refused 8 := by
  have hend : EndsOnce unclosed := ⟨unclosed.dropLast, .atEnd ⟨1, 11⟩, rfl, rfl, by decide⟩
  have hlist : Procedure.operand.walk unclosed 40 5 = .reached 8 := by decide
  have hdeclaration : Procedure.declaration.walk unclosed 10 8 = .refused 8 := by decide
  have hwhole : Procedure.statements.walk unclosed 90 0 = .refused 8 := by decide
  obtain ⟨_, _, hends, hprogram⟩ := descent_progresses hend
  refine ⟨hend, ?_⟩
  rcases hends .operand 5 (by decide) with ⟨j, _, _, _, hread, hwalk⟩ | ⟨k, _, _, _, _, _, _, hwalk⟩
  · obtain rfl : j = 8 := by simpa [hlist] using (hwalk 40 (by decide)).symm
    refine ⟨hread, hwalk, ?_, ?_⟩
    · rcases hends .declaration 8 (by decide) with
        ⟨j, _, _, _, _, hreached⟩ | ⟨k, _, _, _, _, _, _, hrefused⟩
      · exact nomatch hdeclaration.symm.trans (hreached 10 (by decide))
      · obtain rfl : k = 8 := by simpa [hdeclaration] using (hrefused 10 (by decide)).symm
        exact hrefused
    · rcases hprogram with ⟨_, _, hreached⟩ | ⟨k, t, e, ht, he, hpos, hrefused⟩
      · exact nomatch hwhole.symm.trans (hreached 90 (by decide))
      · obtain rfl : k = 8 := by simpa [hwhole] using (hrefused 90 (by decide)).symm
        cases ht
        exact ⟨⟨e, he, hpos⟩, hrefused⟩
  · exact nomatch hlist.symm.trans (hwalk 40 (by decide))

end Scriptorium
