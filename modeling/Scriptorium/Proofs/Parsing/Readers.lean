/-
  Scriptorium.Proofs.Parsing.Readers: the parser without its trees.

  How far a parse function gets, and what it complains about, depends on tokens only; the
  trees that it builds on the way decide nothing.  A `Reader` is what remains of a parse
  function when the trees are left out.  Readers are put together from a few pieces:
  looking for a token, testing what comes next or what was taken, going on, refusing.

  Main results:
    * `Reader.expression_eq` and its kin: every parse function is such a combination, and the
      recursion between the functions is the one between their readers.
    * `parseAdditiveTail_left` and its kin: the loops do not depend on the part that they
      have read so far.
-/

import Scriptorium.Proofs.Parsing.Feed

namespace Scriptorium

/-! ## §1. Readers and their pieces. -/

/-- The feed that is left of a feed, or a complaint. -/
abbrev Reader := Feed → Except Error Feed

/-- What is left after a parse function, or its complaint. -/
def Parse.left {α : Type} {n : Nat} (r : Parse α n) : Except Error Feed :=
  match r with
  | .ok p => .ok p.feed
  | .error e => .error e

namespace Reader

/-- Takes nothing. -/
def done : Reader := .ok

/-- Complains about the token that comes next. -/
def refuse (complaint : Token → Cause) : Reader := fun f =>
  .error ⟨complaint f.peek, f.peek.pos⟩

/-- One reader, and then another. -/
def seq (first second : Reader) : Reader := fun f => first f >>= second

/-- Goes on behind a token of the kind if that comes next, and otherwise from there. -/
def onToken (kind : TokenKind) (behind : Token → Reader) (otherwise : Reader) : Reader := fun f =>
  match f.eat? kind with
  | some ⟨t, f₁, _⟩ => behind t f₁
  | none => otherwise f

/-- Consumes what comes next, whatever it is, and goes on by whether it is of the kind. -/
def eat (kind : TokenKind) (yes no : Reader) : Reader := fun f =>
  if f.peek.kind = kind then yes f.eat.feed else no f.eat.feed

/-- Goes on behind one of the operators if that comes next, and otherwise from there. -/
def onOperator (operators : List Text) (behind otherwise : Reader) : Reader := fun f =>
  match f.eatOperator? operators with
  | some ⟨_, f₁, _⟩ => behind f₁
  | none => otherwise f

/-- Goes on behind a token of the kind, or complains about the one that is there. -/
def expect (kind : TokenKind) (what : Expectation) (behind : Token → Reader) : Reader :=
  onToken kind behind (refuse (.expected what))

/-- Complains about a token that was taken if it writes no number, and takes nothing. -/
def numeral (t : Token) : Reader := fun f =>
  match Number.ofText? t.lexeme with
  | some _ => .ok f
  | none => .error ⟨.invalidNumber t.lexeme, t.pos⟩

/-- Looks whether a token of the kind comes next, and takes nothing. -/
def ifNext (kind : TokenKind) (yes no : Reader) : Reader := fun f =>
  if f.peek.kind = kind then yes f else no f

/-- Looks whether the input is at its end. -/
def ifEnded (yes no : Reader) : Reader := fun f =>
  if f.rest.isEmpty then yes f else no f

end Reader

namespace Parse

variable {α β : Type} {m n : Nat} {v : α} {f g : Feed}

@[simp]
theorem left_ok {h : f.size < n} : left (.ok ⟨v, f, h⟩) = .ok f := rfl

@[simp]
theorem left_error {e : Error} : left (.error e : Parse α n) = .error e := rfl

theorem left_eq_ok_iff {r : Parse α n} : r.left = .ok f ↔ ∃ v, r.Gives v f := by
  constructor
  · intro h
    cases r with
    | error e => cases h
    | ok p =>
      obtain ⟨v, f', hlt⟩ := p
      cases h
      exact ⟨v, hlt, rfl⟩
  · rintro ⟨v, hlt, rfl⟩
    rfl

theorem left_eq_error_iff {r : Parse α n} {e : Error} : r.left = .error e ↔ r = .error e := by
  cases r with
  | error e' =>
    constructor
    · intro h
      cases h
      rfl
    · intro h
      cases h
      rfl
  | ok p =>
    constructor
    · intro h
      cases h
    · intro h
      cases h

/-- A sequence leaves what its second part leaves of what the first one left, provided that
    the second part does not look at the value. -/
theorem left_bind {x : Parse α m} {k : Parsed α m → Parse β n} {rest : Reader}
    (hk : ∀ p, (k p).left = rest p.feed) : left (x >>= k) = x.left >>= rest := by
  cases x with
  | error e => rfl
  | ok p => exact hk p

/-- A sequence whose second part is a value leaves what its first part leaves. -/
theorem left_map {x : Parse α m} {k : Parsed α m → Parse β n}
    (hk : ∀ p, (k p).left = .ok p.feed) : left (x >>= k) = x.left := by
  cases x with
  | error e => rfl
  | ok p => exact hk p

/-- Expecting a token, and then going on. -/
theorem left_expect {kind : TokenKind} {what : Expectation} {k : Parsed Token f.size → Parse β n}
    {behind : Token → Reader} (hk : ∀ p, (k p).left = behind p.value p.feed) :
    left (f.expect kind what >>= k) = Reader.expect kind what behind f := by
  unfold Feed.expect Reader.expect Reader.onToken
  cases f.eat? kind with
  | none => rfl
  | some p => exact hk p

end Parse

/-! ## §2. The readers of the parse functions. -/

namespace Reader

def expression : Reader := fun f => (parseExpression f).left
def operand : Reader := fun f => (parseOperand f).left
def properties : Reader := fun f => (parseProperties f).left
def items : Reader := fun f => (parseItems f).left
def additive : Reader := fun f => (parseAdditive f).left
def multiplicative : Reader := fun f => (parseMultiplicative f).left
def call : Reader := fun f => (parseCall f).left
def arguments : Reader := fun f => (parseArguments f).left
def argumentList : Reader := fun f => (parseArgumentList f).left
def member : Reader := fun f => (parseMember f).left
def primary : Reader := fun f => (parsePrimary f).left
def terminator : Reader := fun f => (parseTerminator f).left
def varDeclaration : Reader := fun f => (parseVarDeclaration f).left
def bare : Reader := fun f => (parseBare f).left
def statement : Reader := fun f => (parseStatement f).left

/-! The loops are given a part that was read before them.  It makes no difference, so the
    readers are those for no part at all. -/

def additiveTail : Reader := fun f => (parseAdditiveTail .unknown .absent f).left
def multiplicativeTail : Reader := fun f => (parseMultiplicativeTail .unknown .absent f).left
def callTail : Reader := fun f => (parseCallTail .unknown .absent f).left
def memberTail : Reader := fun f => (parseMemberTail .unknown .absent f).left

/-- What follows the keyword of a declaration. -/
def declaration (constant : Bool) : Reader := fun f =>
  (parseDeclaration .unknown constant f).left

/-! ## §3. Loops. -/

/-- Further summands are read alike after every part. -/
theorem parseAdditiveTail_left (f : Feed) : ∀ start left, (parseAdditiveTail start left f).left =
    onOperator additiveOperators (multiplicative.seq additiveTail) done f := by
  -- by induction on the feed, for all parts at once: each round hands on another part
  intro start left
  rw [parseAdditiveTail]
  unfold onOperator seq multiplicative additiveOperators
  cases f.eatOperator? ["+", "-"] with
  | none => rfl
  | some p =>
    obtain ⟨op, f₁, h₁⟩ := p
    refine Parse.left_bind fun ⟨right, f₂, h₂⟩ => ?_
    rw [Parse.left_map fun _ => rfl, parseAdditiveTail_left f₂, additiveTail,
      parseAdditiveTail_left f₂]
termination_by f.size

/-- Further factors are read alike after every part. -/
theorem parseMultiplicativeTail_left (f : Feed) : ∀ start left,
    (parseMultiplicativeTail start left f).left =
      onOperator multiplicativeOperators (call.seq multiplicativeTail) done f := by
  intro start left
  rw [parseMultiplicativeTail]
  unfold onOperator seq call multiplicativeOperators
  cases f.eatOperator? ["*", "/", "%"] with
  | none => rfl
  | some p =>
    obtain ⟨op, f₁, h₁⟩ := p
    refine Parse.left_bind fun ⟨right, f₂, h₂⟩ => ?_
    rw [Parse.left_map fun _ => rfl, parseMultiplicativeTail_left f₂, multiplicativeTail,
      parseMultiplicativeTail_left f₂]
termination_by f.size

/-- Further calls are read alike after every part. -/
theorem parseCallTail_left (f : Feed) : ∀ start callee, (parseCallTail start callee f).left =
    onToken .openParen (fun _ => arguments.seq callTail) done f := by
  intro start callee
  rw [parseCallTail]
  unfold onToken seq arguments
  cases f.eat? .openParen with
  | none => rfl
  | some p =>
    obtain ⟨t, f₁, h₁⟩ := p
    refine Parse.left_bind fun ⟨args, f₂, h₂⟩ => ?_
    rw [Parse.left_map fun _ => rfl, parseCallTail_left f₂, callTail, parseCallTail_left f₂]
termination_by f.size

/-- Further members are read alike after every part. -/
theorem parseMemberTail_left (f : Feed) : ∀ start object, (parseMemberTail start object f).left =
    onToken .dot (fun _ => onToken .identifier (fun _ => memberTail) (refuse .dotWithoutName))
      (onToken .openBracket
        (fun _ => expression.seq (expect .closeBracket .computedEnd fun _ => memberTail))
        done) f := by
  intro start object
  -- what a round hands on, and what the reader goes on with
  have hround : ∀ f₁, f₁.size < f.size → ∀ start object,
      (parseMemberTail start object f₁).left = memberTail f₁ := by
    intro f₁ h₁ start object
    rw [parseMemberTail_left f₁, memberTail, parseMemberTail_left f₁]
  rw [parseMemberTail]
  unfold onToken
  cases f.eat? .dot with
  | some p =>
    obtain ⟨t, f₁, h₁⟩ := p
    dsimp only
    cases f₁.eat? .identifier with
    | none => rfl
    | some p =>
      obtain ⟨name, f₂, h₂⟩ := p
      dsimp only
      rw [Parse.left_map fun _ => rfl, hround f₂ (by omega)]
  | none =>
    dsimp only
    cases f.eat? .openBracket with
    | none => rfl
    | some p =>
      obtain ⟨t, f₁, h₁⟩ := p
      refine Parse.left_bind fun p => Parse.left_expect fun q => ?_
      obtain ⟨property, f₂, h₂⟩ := p
      obtain ⟨_, f₃, h₃⟩ := q
      rw [Parse.left_map fun _ => rfl, hround f₃ (by dsimp only at *; omega)]
termination_by f.size

/-! ## §4. Every parse function as a reader. -/

theorem additiveTail_eq : additiveTail =
    onOperator additiveOperators (multiplicative.seq additiveTail) done :=
  funext fun f => parseAdditiveTail_left f _ _

theorem multiplicativeTail_eq : multiplicativeTail =
    onOperator multiplicativeOperators (call.seq multiplicativeTail) done :=
  funext fun f => parseMultiplicativeTail_left f _ _

theorem callTail_eq : callTail =
    onToken .openParen (fun _ => arguments.seq callTail) done :=
  funext fun f => parseCallTail_left f _ _

theorem memberTail_eq : memberTail =
    onToken .dot (fun _ => onToken .identifier (fun _ => memberTail) (refuse .dotWithoutName))
      (onToken .openBracket
        (fun _ => expression.seq (expect .closeBracket .computedEnd fun _ => memberTail))
        done) :=
  funext fun f => parseMemberTail_left f _ _

theorem expression_eq : expression =
    operand.seq (onToken .equals (fun _ => expression) done) := by
  funext f
  rw [expression, parseExpression]
  refine Parse.left_bind fun ⟨left, f₁, h₁⟩ => ?_
  unfold onToken
  dsimp only
  cases f₁.eat? .equals with
  | none => rfl
  | some p => exact Parse.left_map fun _ => rfl

theorem operand_eq : operand =
    onToken .openBrace (fun _ => properties)
      (onToken .openBracket (fun _ => items) additive) := by
  funext f
  rw [operand, parseOperand]
  unfold onToken
  cases f.eat? .openBrace with
  | some p => exact Parse.left_map fun _ => rfl
  | none =>
    dsimp only
    cases f.eat? .openBracket with
    | some p => exact Parse.left_map fun _ => rfl
    | none => rfl

theorem properties_eq : properties =
    onToken .closeBrace (fun _ => done) (ifEnded (refuse (.expected .objectEnd))
      (expect .identifier .objectKey fun _ => onToken .comma (fun _ => properties)
        (ifNext .closeBrace properties (expect .colon .propertyColon fun _ =>
          expression.seq (ifNext .closeBrace properties
            (expect .comma .propertyEnd fun _ => properties)))))) := by
  funext f
  rw [properties, parseProperties]
  rw [onToken]
  cases f.eat? .closeBrace with
  | some p => rfl
  | none =>
    dsimp only
    unfold ifEnded
    split
    · rfl
    refine Parse.left_expect fun ⟨key, f₁, h₁⟩ => ?_
    rw [onToken]
    dsimp only
    cases f₁.eat? .comma with
    | some p => exact Parse.left_map fun _ => rfl
    | none =>
      dsimp only
      rw [ifNext]
      split
      · exact Parse.left_map fun _ => rfl
      refine Parse.left_expect fun ⟨_, f₂, h₂⟩ => Parse.left_bind fun ⟨value, f₃, h₃⟩ => ?_
      rw [ifNext]
      dsimp only
      split
      · exact Parse.left_map fun _ => rfl
      · exact Parse.left_expect fun _ => Parse.left_map fun _ => rfl

theorem items_eq : items =
    onToken .closeBracket (fun _ => done) (ifEnded (refuse (.expected .listEnd))
      (expression.seq (ifNext .closeBracket items
        (expect .comma .itemEnd fun _ => items)))) := by
  funext f
  rw [items, parseItems]
  rw [onToken]
  cases f.eat? .closeBracket with
  | some p => rfl
  | none =>
    dsimp only
    unfold ifEnded
    split
    · rfl
    refine Parse.left_bind fun ⟨item, f₁, h₁⟩ => ?_
    rw [ifNext]
    dsimp only
    split
    · exact Parse.left_map fun _ => rfl
    · exact Parse.left_expect fun _ => Parse.left_map fun _ => rfl

theorem additive_eq : additive = multiplicative.seq additiveTail := by
  funext f
  rw [additive, parseAdditive]
  refine Parse.left_bind fun ⟨left, f₁, h₁⟩ => ?_
  rw [Parse.left_map fun _ => rfl, parseAdditiveTail_left, ← additiveTail_eq]

theorem multiplicative_eq : multiplicative = call.seq multiplicativeTail := by
  funext f
  rw [multiplicative, parseMultiplicative]
  refine Parse.left_bind fun ⟨left, f₁, h₁⟩ => ?_
  rw [Parse.left_map fun _ => rfl, parseMultiplicativeTail_left, ← multiplicativeTail_eq]

theorem call_eq : call = member.seq callTail := by
  funext f
  rw [call, parseCall]
  refine Parse.left_bind fun ⟨callee, f₁, h₁⟩ => ?_
  rw [Parse.left_map fun _ => rfl, parseCallTail_left, ← callTail_eq]

theorem arguments_eq : arguments =
    onToken .closeParen (fun _ => done) argumentList := by
  funext f
  rw [arguments, parseArguments]
  unfold onToken
  cases f.eat? .closeParen with
  | some p => rfl
  | none => rfl

theorem argumentList_eq : argumentList =
    expression.seq (onToken .comma (fun _ => argumentList)
      (expect .closeParen .argumentsEnd fun _ => done)) := by
  funext f
  rw [argumentList, parseArgumentList]
  refine Parse.left_bind fun ⟨arg, f₁, h₁⟩ => ?_
  rw [onToken]
  dsimp only
  cases f₁.eat? .comma with
  | some p => exact Parse.left_map fun _ => rfl
  | none => exact Parse.left_expect fun _ => rfl

theorem member_eq : member = primary.seq memberTail := by
  funext f
  rw [member, parseMember]
  refine Parse.left_bind fun ⟨object, f₁, h₁⟩ => ?_
  rw [Parse.left_map fun _ => rfl, parseMemberTail_left, ← memberTail_eq]

theorem primary_eq : primary =
    onToken .identifier (fun _ => done) (onToken .number numeral
      (onToken .string (fun _ => done) (onToken .openParen
        (fun _ => expression.seq (expect .closeParen .groupEnd fun _ => done))
        (refuse .unexpectedToken)))) := by
  funext f
  rw [primary, parsePrimary]
  rw [onToken]
  cases f.eat? .identifier with
  | some p => rfl
  | none =>
    dsimp only
    rw [onToken]
    cases f.eat? .number with
    | some p =>
      dsimp only
      rw [numeral]
      cases Number.ofText? p.value.lexeme with
      | some value => rfl
      | none => rfl
    | none =>
      dsimp only
      rw [onToken]
      cases f.eat? .string with
      | some p => rfl
      | none =>
        dsimp only
        rw [onToken]
        cases f.eat? .openParen with
        | some p => exact Parse.left_bind fun _ => Parse.left_expect fun _ => rfl
        | none => rfl

theorem terminator_eq : terminator =
    onToken .semicolon (fun _ => done) (ifEnded done (refuse (.expected .declarationEnd))) := by
  funext f
  rw [terminator, parseTerminator]
  unfold onToken
  cases f.eat? .semicolon with
  | some p => rfl
  | none =>
    dsimp only
    unfold ifEnded
    split
    · rfl
    · rfl

theorem parseDeclaration_left (start : Position) (constant : Bool) (f : Feed) :
    (parseDeclaration start constant f).left =
      expect .identifier .declarationName (fun name => onToken .equals
        (fun _ => expression.seq terminator)
        (if constant then refuse fun _ => .constantWithoutValue name.lexeme
          else terminator)) f := by
  unfold parseDeclaration
  refine Parse.left_expect fun ⟨name, f₁, h₁⟩ => ?_
  rw [onToken]
  dsimp only
  cases f₁.eat? .equals with
  | some p => exact Parse.left_bind fun _ => Parse.left_map fun _ => rfl
  | none =>
    cases constant with
    | true => rfl
    | false => exact Parse.left_map fun _ => rfl

theorem varDeclaration_eq : varDeclaration =
    eat .constKeyword (declaration true) (declaration false) := by
  funext f
  have hleft : varDeclaration f =
      (parseDeclaration f.eat.value.pos (f.eat.value.kind = .constKeyword) f.eat.feed).left :=
    Parse.left_map fun _ => rfl
  unfold eat declaration
  rw [hleft, f.value_eat, parseDeclaration_left, parseDeclaration_left, parseDeclaration_left]
  by_cases hk : f.peek.kind = .constKeyword
  · rw [decide_eq_true hk, if_pos hk]
  · rw [decide_eq_false hk, if_neg hk]

theorem bare_eq : bare = expression.seq (onToken .semicolon (fun _ => done) done) := by
  funext f
  rw [bare, parseBare]
  refine Parse.left_bind fun ⟨e, f₁, h₁⟩ => ?_
  rw [onToken]
  dsimp only
  cases f₁.eat? .semicolon with
  | some p => rfl
  | none => rfl

theorem statement_eq : statement =
    ifNext .letKeyword varDeclaration (ifNext .constKeyword varDeclaration bare) := by
  funext f
  rw [statement, parseStatement]
  unfold ifNext varDeclaration bare
  by_cases hlet : f.peek.kind = .letKeyword
  · rw [if_pos (.inl hlet), if_pos hlet]
  rw [if_neg hlet]
  by_cases hconst : f.peek.kind = .constKeyword
  · rw [if_pos (.inr hconst), if_pos hconst]
  · rw [if_neg (by simp [hlet, hconst]), if_neg hconst]

end Reader

end Scriptorium
