/-
  Scriptorium.Proofs.Parsing.Prompt: complaints about the first token that cannot be right.

  A reader is prompt if it never looks beyond the token that it stands before, and if what
  it has taken when it complains is the beginning of something that it would have read.
  The first is said by comparing feeds: on every feed that agrees with the given one up to
  and with the next token the outcome is the same.  The second is said by the grammar: a
  few tokens, all of them from `Token.fillers`, complete what was taken to a phrase.
  Promptness is asked for where the numbers of the feed can be read, as those of every
  text can: a number is looked into only when it was taken.

  Promptness is kept when readers are put together, so that each parse function is prompt
  because the functions it calls are.

  Main results:
    * `Prompt.seq`, `Prompt.onToken`: how promptness is put together.
    * `Reader.expression_prompt` and its kin: all parse functions are prompt.
    * `refused_at_first_misfit`: a text is refused at the first token that cannot be right.
-/

import Scriptorium.Proofs.Lexing.Cuts
import Scriptorium.Proofs.Parsing.Errors
import Scriptorium.Proofs.Parsing.Readers
import Scriptorium.Proofs.Parsing.Trees

namespace Scriptorium

/-! ## §1. Feeds that agree. -/

/-- Whether the two feeds have the same token next, or end at the same place. -/
structure Feed.Alike (g f : Feed) : Prop where
  peek_eq : g.peek = f.peek
  isEmpty_eq : g.rest.isEmpty = f.rest.isEmpty

namespace Feed

variable {f f' g g' : Feed} {t : Token} {used : List Token}

theorem Alike.refl (f : Feed) : f.Alike f := ⟨rfl, rfl⟩

theorem alike_of_cons {rest more : List Token} (hf : f.rest = t :: rest)
    (hg : g.rest = t :: more) : g.Alike f := by
  refine ⟨?_, ?_⟩
  · rw [peek_eq_cons hf, peek_eq_cons hg]
  · rw [hf, hg]
    rfl

theorem alike_of_nil (hf : f.rest = []) (hg : g.rest = []) (hstop : g.stop = f.stop) :
    g.Alike f := by
  refine ⟨?_, ?_⟩
  · rw [peek_eq_atEnd hf, peek_eq_atEnd hg, hstop]
  · rw [hf, hg]

/-- Feeds that are alike after the same tokens are alike before them. -/
theorem Alike.before (h : g'.Alike f') (hf : f.Took used f') (hg : g.Took used g') :
    g.Alike f := by
  cases used with
  | nil =>
    obtain rfl := hf.eq_of_nil
    obtain rfl := hg.eq_of_nil
    exact h
  | cons t used => exact alike_of_cons hf.rest hg.rest

/-- A token that is not there for one of them is not there for the other. -/
theorem Alike.eat?_eq_none {kind : TokenKind} (h : g.Alike f) (hf : f.eat? kind = none) :
    g.eat? kind = none := by
  unfold eat? at hf ⊢
  split
  · rfl
  · next u rest hg =>
    split
    · next hk =>
      -- the other feed begins with this token too
      split at hf
      · next hnil =>
        have hempty := h.isEmpty_eq
        rw [hg, hnil] at hempty
        cases hempty
      · next u' rest' hcons =>
        have hpeek := h.peek_eq
        rw [peek_eq_cons hg, peek_eq_cons hcons] at hpeek
        rw [if_pos (by rw [← hpeek]; exact hk)] at hf
        cases hf
    · rfl

theorem Alike.eatOperator?_eq_none {operators : List Text} (h : g.Alike f)
    (hf : f.eatOperator? operators = none) : g.eatOperator? operators = none := by
  unfold eatOperator? at hf ⊢
  rw [h.peek_eq]
  split
  · next hm =>
    rw [if_pos hm] at hf
    exact h.eat?_eq_none hf
  · rfl

/-- What was taken and what is left make up the feed. -/
theorem Took.size_add (h : f.Took used f') : used.length + f'.size = f.size := by
  unfold size
  rw [h.rest, List.length_append]

/-- Whether every number of the feed writes one. -/
def Numeric (f : Feed) : Prop :=
  ∀ t ∈ f.rest, t.kind = .number → ∃ value, Number.ofText? t.lexeme = some value

theorem Numeric.took (h : f.Numeric) (ht : f.Took used f') : f'.Numeric := by
  intro t hmem
  refine h t ?_
  rw [ht.rest]
  exact List.mem_append_right _ hmem

end Feed

/-- The numbers of a text write numbers. -/
theorem Cursor.Scans.numeric {source : Text} {ts : List Token} {stop : Position}
    (h : (Cursor.ofText source).Scans ts (.finished stop)) {f : Feed} (hrest : f.rest = ts) :
    f.Numeric := by
  intro t ht hk
  rw [hrest] at ht
  exact ⟨_, ((h.readable.1 t ht).1.isNumeral hk).ofText?⟩

/-! ## §2. Prompt readers. -/

namespace Token

/-- A name, where one or a value is missing. -/
def fillName : Token := ⟨.identifier, "x", .unknown⟩

/-- An equals sign, after the name of a constant. -/
def fillEquals : Token := ⟨.equals, "=", .unknown⟩

/-- A closing parenthesis. -/
def fillParen : Token := ⟨.closeParen, ")", .unknown⟩

/-- A closing bracket. -/
def fillBracket : Token := ⟨.closeBracket, "]", .unknown⟩

/-- A closing brace. -/
def fillBrace : Token := ⟨.closeBrace, "\x7d", .unknown⟩

/-- The tokens that complete what was cut off. -/
def fillers : List Token := [fillName, fillEquals, fillParen, fillBracket, fillBrace]

end Token

/-- Whether a few fillers complete the tokens to what is wanted. -/
def Completes (wanted : List Token → Prop) (ts : List Token) : Prop :=
  ∃ more, (∀ t ∈ more, t ∈ Token.fillers) ∧ wanted (ts ++ more)

theorem Completes.nothing {wanted : List Token → Prop} {ts : List Token} (h : wanted ts) :
    Completes wanted ts := by
  refine ⟨[], List.forall_mem_nil _, ?_⟩
  rw [List.append_nil]
  exact h

theorem Completes.one {wanted : List Token → Prop} {ts : List Token} {t : Token}
    (ht : t ∈ Token.fillers) (h : wanted (ts ++ [t])) : Completes wanted ts :=
  ⟨[t], List.forall_mem_singleton.2 ht, h⟩

/-- `r.Prompt wanted f`: if the numbers of `f` can be read, the reader takes tokens that are
    `wanted`, or it complains about the next token after some that fillers complete to wanted
    ones; and on every feed with the same tokens up to and with that one it does the same. -/
def Reader.Prompt (wanted : List Token → Prop) (r : Reader) (f : Feed) : Prop :=
  f.Numeric → match r f with
  | .ok f' => ∃ used, f.Took used f' ∧ wanted used ∧
      ∀ g g' : Feed, g.Took used g' → g'.Alike f' → r g = .ok g'
  | .error e => ∃ used f', f.Took used f' ∧ e.pos = f'.peek.pos ∧ Completes wanted used ∧
      ∀ g g' : Feed, g.Took used g' → g'.Alike f' → r g = .error e

namespace Reader.Prompt

variable {wanted wanted' first : List Token → Prop} {r s yes no otherwise : Reader} {f : Feed}

theorem of_ok {f' : Feed} {used : List Token} (hr : r f = .ok f') (ht : f.Took used f')
    (hw : wanted used) (hall : ∀ g g' : Feed, g.Took used g' → g'.Alike f' → r g = .ok g') :
    r.Prompt wanted f := by
  intro _
  rw [hr]
  exact ⟨used, ht, hw, hall⟩

theorem of_error {f' : Feed} {used : List Token} {e : Error} (hr : r f = .error e)
    (ht : f.Took used f') (hpos : e.pos = f'.peek.pos) (hw : Completes wanted used)
    (hall : ∀ g g' : Feed, g.Took used g' → g'.Alike f' → r g = .error e) :
    r.Prompt wanted f := by
  intro _
  rw [hr]
  exact ⟨used, f', ht, hpos, hw, hall⟩

/-- The numbers may be used in the proof. -/
theorem of_numeric (h : f.Numeric → r.Prompt wanted f) : r.Prompt wanted f :=
  fun hf => h hf hf

theorem done (hw : wanted []) : done.Prompt wanted f := by
  refine of_ok rfl (.refl f) hw fun g g' hg _ => ?_
  rw [hg.eq_of_nil]
  rfl

theorem refuse {complaint : Token → Cause} (hw : Completes wanted []) :
    (refuse complaint).Prompt wanted f := by
  refine of_error rfl (.refl f) rfl hw fun g g' hg halike => ?_
  unfold Reader.refuse
  rw [(halike.before (.refl f) hg).peek_eq]

/-- What is wanted may be weakened. -/
theorem imp (h : r.Prompt wanted f) (hw : ∀ ts, wanted ts → wanted' ts) :
    r.Prompt wanted' f := by
  intro hf
  replace h := h hf
  split
  · next hr =>
    rw [hr] at h
    obtain ⟨used, ht, hused, hall⟩ := h
    exact ⟨used, ht, hw _ hused, hall⟩
  · next hr =>
    rw [hr] at h
    obtain ⟨used, f', ht, hpos, ⟨more, hmore, hused⟩, hall⟩ := h
    exact ⟨used, f', ht, hpos, ⟨more, hmore, hw _ hused⟩, hall⟩

/-- **Prompt readers in a row are prompt**, if the second can be completed wherever the first
    one ends. -/
theorem seq (hr : r.Prompt first f)
    (hs : ∀ used f', f.Took used f' → first used → s.Prompt (fun ts => wanted (used ++ ts)) f')
    (hfill : ∀ ts, first ts → Completes wanted ts) : (r.seq s).Prompt wanted f := by
  refine of_numeric fun hf => ?_
  replace hr := hr hf
  split at hr
  · next f₁ hf₁ =>
    obtain ⟨used, ht, hused, hall⟩ := hr
    have hs₁ := hs used f₁ ht hused (hf.took ht)
    -- a feed with the same tokens for both readers has them for the first one
    have hfirst : ∀ us f₂, f₁.Took us f₂ → ∀ g g₂ : Feed, g.Took (used ++ us) g₂ →
        g₂.Alike f₂ → ∃ g₁, g₁.Took us g₂ ∧ r.seq s g = s g₁ := by
      intro us f₂ hf₂ g g₂ hg halike
      obtain ⟨g₁, hg₁, hg₂⟩ := hg.of_append
      refine ⟨g₁, hg₂, ?_⟩
      unfold Reader.seq
      rw [hall g g₁ hg₁ (halike.before hf₂ hg₂)]
      rfl
    split at hs₁
    · next f₂ hf₂ =>
      obtain ⟨us, htu, hwanted, hall₂⟩ := hs₁
      refine of_ok ?_ (ht.append htu) hwanted fun g g₂ hg halike => ?_
      · unfold Reader.seq
        rw [hf₁]
        exact hf₂
      · obtain ⟨g₁, hg₂, heq⟩ := hfirst us f₂ htu g g₂ hg halike
        rw [heq]
        exact hall₂ g₁ g₂ hg₂ halike
    · next e he =>
      obtain ⟨us, f₂, htu, hpos, hwanted, hall₂⟩ := hs₁
      refine of_error ?_ (ht.append htu) hpos ?_ fun g g₂ hg halike => ?_
      · unfold Reader.seq
        rw [hf₁]
        exact he
      · obtain ⟨more, hmore, hcomplete⟩ := hwanted
        refine ⟨more, hmore, ?_⟩
        rw [List.append_assoc]
        exact hcomplete
      · obtain ⟨g₁, hg₂, heq⟩ := hfirst us f₂ htu g g₂ hg halike
        rw [heq]
        exact hall₂ g₁ g₂ hg₂ halike
  · next e he =>
    -- the first reader complains: it is completed, and then the second one
    obtain ⟨used, f', ht, hpos, ⟨more, hmore, hused⟩, hall⟩ := hr
    obtain ⟨rest, hrest, hwanted⟩ := hfill _ hused
    refine of_error ?_ ht hpos ⟨more ++ rest, ?_, ?_⟩ fun g g' hg halike => ?_
    · unfold Reader.seq
      rw [he]
      rfl
    · exact List.forall_mem_append.2 ⟨hmore, hrest⟩
    · rw [← List.append_assoc]
      exact hwanted
    · unfold Reader.seq
      rw [hall g g' hg halike]
      rfl

/-- A reader that does behind a token what a prompt reader does there. -/
theorem behind {t : Token} {f₁ : Feed} (ht : f.Took [t] f₁)
    (hs : s.Prompt (fun ts => wanted (t :: ts)) f₁)
    (hr : ∀ g g₁ : Feed, g.Took [t] g₁ → r g = s g₁) : r.Prompt wanted f := by
  refine of_numeric fun hf => ?_
  replace hs := hs (hf.took ht)
  split at hs
  · next f₂ hf₂ =>
    obtain ⟨us, htu, hwanted, hall⟩ := hs
    refine of_ok ?_ (ht.cons htu) hwanted fun g g₂ hg halike => ?_
    · rw [hr f f₁ ht]
      exact hf₂
    · obtain ⟨g₁, hg₁, hg₂⟩ := hg.of_cons
      rw [hr g g₁ hg₁]
      exact hall g₁ g₂ hg₂ halike
  · next e he =>
    obtain ⟨us, f₂, htu, hpos, hwanted, hall⟩ := hs
    refine of_error ?_ (ht.cons htu) hpos hwanted fun g g₂ hg halike => ?_
    · rw [hr f f₁ ht]
      exact he
    · obtain ⟨g₁, hg₁, hg₂⟩ := hg.of_cons
      rw [hr g g₁ hg₁]
      exact hall g₁ g₂ hg₂ halike

/-- A reader that does on every feed like this one what a prompt reader does. -/
theorem instead (hs : s.Prompt wanted f) (hr : ∀ g : Feed, g.Alike f → r g = s g) :
    r.Prompt wanted f := by
  have hself := hr f (.refl f)
  refine of_numeric fun hf => ?_
  replace hs := hs hf
  split at hs
  · next f' hf' =>
    obtain ⟨used, ht, hwanted, hall⟩ := hs
    refine of_ok (hself.trans hf') ht hwanted fun g g' hg halike => ?_
    rw [hr g (halike.before ht hg)]
    exact hall g g' hg halike
  · next e he =>
    obtain ⟨used, f', ht, hpos, hwanted, hall⟩ := hs
    refine of_error (hself.trans he) ht hpos hwanted fun g g' hg halike => ?_
    rw [hr g (halike.before ht hg)]
    exact hall g g' hg halike

theorem onToken {kind : TokenKind} {behind : Token → Reader}
    (hyes : ∀ t f₁, f.Took [t] f₁ → t.kind = kind →
      (behind t).Prompt (fun ts => wanted (t :: ts)) f₁)
    (hno : otherwise.Prompt wanted f) : (onToken kind behind otherwise).Prompt wanted f := by
  cases heat : f.eat? kind with
  | some p =>
    obtain ⟨t, f₁, hlt⟩ := p
    obtain ⟨ht, hk⟩ := Feed.eat?_eq_some_iff.1 heat
    refine Prompt.behind ht (hyes t f₁ ht hk) fun g g₁ hg => ?_
    unfold Reader.onToken
    rw [hg.eat? hk]
  | none =>
    refine hno.instead fun g halike => ?_
    unfold Reader.onToken
    rw [halike.eat?_eq_none heat]

theorem onOperator {operators : List Text}
    (hyes : ∀ t f₁, f.Took [t] f₁ → t.IsOperator operators →
      r.Prompt (fun ts => wanted (t :: ts)) f₁)
    (hno : otherwise.Prompt wanted f) : (onOperator operators r otherwise).Prompt wanted f := by
  cases heat : f.eatOperator? operators with
  | some p =>
    obtain ⟨t, f₁, hlt⟩ := p
    obtain ⟨ht, ho⟩ := Feed.eatOperator?_eq_some_iff.1 heat
    refine Prompt.behind ht (hyes t f₁ ht ho) fun g g₁ hg => ?_
    unfold Reader.onOperator
    rw [hg.eatOperator? ho]
  | none =>
    refine hno.instead fun g halike => ?_
    unfold Reader.onOperator
    rw [halike.eatOperator?_eq_none heat]

theorem expect {kind : TokenKind} {what : Expectation} {behind : Token → Reader}
    (hyes : ∀ t f₁, f.Took [t] f₁ → t.kind = kind →
      (behind t).Prompt (fun ts => wanted (t :: ts)) f₁)
    (hfill : Completes wanted []) : (expect kind what behind).Prompt wanted f :=
  onToken hyes (refuse hfill)

/-- A token that is next and that ends what is read. -/
theorem closing {kind : TokenKind} (hk : f.peek.kind = kind) (hne : kind ≠ .endOfInput)
    (hw : wanted [f.peek]) :
    (Reader.onToken kind (fun _ => Reader.done) otherwise).Prompt wanted f := by
  obtain ⟨f₁, ht⟩ := f.took_peek (by rw [hk]; exact hne)
  refine behind ht (done hw) fun g g₁ hg => ?_
  unfold Reader.onToken
  rw [hg.eat? hk]

theorem ifNext {kind : TokenKind} (hyes : f.peek.kind = kind → yes.Prompt wanted f)
    (hno : no.Prompt wanted f) : (ifNext kind yes no).Prompt wanted f := by
  by_cases hk : f.peek.kind = kind
  · refine (hyes hk).instead fun g halike => ?_
    unfold Reader.ifNext
    rw [halike.peek_eq, if_pos hk]
  · refine hno.instead fun g halike => ?_
    unfold Reader.ifNext
    rw [halike.peek_eq, if_neg hk]

theorem ifEnded (hyes : yes.Prompt wanted f) (hno : no.Prompt wanted f) :
    (ifEnded yes no).Prompt wanted f := by
  cases hempty : f.rest.isEmpty with
  | true =>
    refine hyes.instead fun g halike => ?_
    unfold Reader.ifEnded
    rw [halike.isEmpty_eq, hempty]
    rfl
  | false =>
    refine hno.instead fun g halike => ?_
    unfold Reader.ifEnded
    rw [halike.isEmpty_eq, hempty]
    rfl

/-- A number that was taken is not complained about if it writes one. -/
theorem numeral {t : Token} {value : Float} (hw : Number.ofText? t.lexeme = some value)
    (hwanted : wanted []) : (numeral t).Prompt wanted f := by
  have hdone : Reader.numeral t = Reader.done := by
    funext g
    unfold Reader.numeral
    rw [hw]
    rfl
  rw [hdone]
  exact done hwanted

end Reader.Prompt

/-! ## §3. The parse functions are prompt. -/

/-- Whether the tokens spell a phrase of the kind. -/
def Spelled {α : Type} (phrase : α → Phrase) (ts : List Token) : Prop :=
  ∃ v, Derives Token.extent (phrase v) ts

/-- Whether the tokens spell a phrase of the kind and end with what closes it. -/
def SpelledUpTo {α : Type} (phrase : α → Phrase) (closing : TokenKind) (ts : List Token) : Prop :=
  ∃ v us last, ts = us ++ [last] ∧ Derives Token.extent (phrase v) us ∧ last.kind = closing

/-- Whether the tokens go on with a part that was read before, to one of the same kind. -/
def Continues (phrase : Expr → Phrase) (ts : List Token) : Prop :=
  ∀ before, Spelled phrase before → Spelled phrase (before ++ ts)

theorem Feed.Took.size_lt_of_begins {f f' : Feed} {kinds : List TokenKind} {ts : List Token}
    (h : f.Took ts f') (hb : Begins kinds ts) : f'.size < f.size := by
  have hsize := h.size_add
  have hpos := List.length_pos_iff.2 hb.ne_nil
  omega

namespace Reader

mutual

theorem expression_prompt (f : Feed) : expression.Prompt (Spelled .expression) f := by
  rw [expression_eq]
  refine (operand_prompt f).seq ?_ fun ts ⟨e, hd⟩ => .nothing ⟨e, .value hd⟩
  intro ts f₁ hts ⟨target, hd⟩
  have hlt := hts.size_lt_of_begins hd.first
  refine .onToken ?_ (.done ⟨target, by rw [List.append_nil]; exact .value hd⟩)
  intro t f₂ ht hk
  have hlt₂ := ht.size_lt
  exact (expression_prompt f₂).imp fun us ⟨value, hv⟩ => ⟨_, .assign hd hk hv⟩
termination_by 10 * f.size + 7
decreasing_by all_goals omega

theorem operand_prompt (f : Feed) : operand.Prompt (Spelled .operand) f := by
  rw [operand_eq]
  refine .onToken ?_ (.onToken ?_ ?_)
  · intro t f₁ ht hk
    have hlt := ht.size_lt
    refine (properties_prompt f₁).imp ?_
    rintro _ ⟨ps, us, last, rfl, hd, hlast⟩
    exact ⟨_, .object hk hd hlast⟩
  · intro t f₁ ht hk
    have hlt := ht.size_lt
    refine (items_prompt f₁).imp ?_
    rintro _ ⟨es, us, last, rfl, hd, hlast⟩
    exact ⟨_, .list hk hd hlast⟩
  · exact (additive_prompt f).imp fun ts ⟨e, hd⟩ => ⟨e, .sum hd⟩
termination_by 10 * f.size + 6
decreasing_by all_goals omega

theorem properties_prompt (f : Feed) :
    properties.Prompt (SpelledUpTo .properties .closeBrace) f := by
  have hfill : Completes (SpelledUpTo .properties .closeBrace) [] :=
    .one (by decide : Token.fillBrace ∈ _) ⟨[], [], _, rfl, .noProperties, rfl⟩
  rw [properties_eq]
  refine .onToken (fun t f₁ _ hk => .done ⟨[], [], t, rfl, .noProperties, hk⟩) ?_
  refine .ifEnded (.refuse hfill) (.expect ?_ hfill)
  intro key f₁ htk hkey
  have hlt := htk.size_lt
  refine .onToken ?_ (.ifNext ?_ (.expect ?_ ?_))
  · -- a bare key before a comma
    intro comma f₂ htc hcomma
    have hlt₂ := htc.size_lt
    refine (properties_prompt f₂).imp ?_
    rintro _ ⟨ps, us, last, rfl, hd, hlast⟩
    exact ⟨_, key :: comma :: us, last, rfl, .shorthandMore hkey hcomma hd, hlast⟩
  · -- a bare key before the closing brace
    intro hpeek
    rw [properties_eq]
    exact .closing hpeek (by decide) ⟨_, [key], _, rfl, .shorthand hkey, hpeek⟩
  · intro colon f₂ htc hcolon
    have hlt₂ := htc.size_lt
    -- after its value the property can be the last one
    have hkeyed : ∀ ts, Spelled .expression ts → ∀ last : Token, last.kind = .closeBrace →
        SpelledUpTo .properties .closeBrace (key :: colon :: (ts ++ [last])) :=
      fun ts ⟨value, hd⟩ last hlast =>
        ⟨_, key :: colon :: ts, last, rfl, .keyed hkey hcolon hd, hlast⟩
    have hclose : ∀ ts, Spelled .expression ts →
        Completes (fun ts => SpelledUpTo .properties .closeBrace (key :: colon :: ts)) ts :=
      fun ts hts => .one (by decide : Token.fillBrace ∈ _) (hkeyed ts hts _ rfl)
    refine (expression_prompt f₂).seq ?_ hclose
    intro ts f₃ htook hts
    have hlt₃ := htook.size_lt_of_begins hts.choose_spec.first
    refine .ifNext ?_ (.expect ?_ (by simpa [Completes] using hclose ts hts))
    · intro hpeek
      rw [properties_eq]
      exact .closing hpeek (by decide) (hkeyed ts hts _ hpeek)
    · intro comma f₄ htm hcomma
      have hlt₄ := htm.size_lt
      refine (properties_prompt f₄).imp ?_
      rintro _ ⟨ps, us, last, rfl, hd', hlast⟩
      obtain ⟨value, hd⟩ := hts
      exact ⟨_, key :: colon :: (ts ++ comma :: us), last, by simp,
        .keyedMore hkey hcolon hd hcomma hd', hlast⟩
  · exact .one (by decide : Token.fillBrace ∈ _) ⟨_, [key], _, rfl, .shorthand hkey, rfl⟩
termination_by 10 * f.size + 8
decreasing_by all_goals omega

theorem items_prompt (f : Feed) : items.Prompt (SpelledUpTo .items .closeBracket) f := by
  -- after an item the list can be closed
  have hclose : ∀ ts, Spelled .expression ts →
      Completes (SpelledUpTo .items .closeBracket) ts := by
    intro ts ⟨e, hd⟩
    exact .one (by decide : Token.fillBracket ∈ _) ⟨[e], ts, _, rfl, .item hd, rfl⟩
  rw [items_eq]
  refine .onToken (fun t f₁ _ hk => .done ⟨[], [], t, rfl, .noItems, hk⟩) (.ifEnded (.refuse ?_) ?_)
  · exact .one (by decide : Token.fillBracket ∈ _) ⟨[], [], _, rfl, .noItems, rfl⟩
  refine (expression_prompt f).seq ?_ hclose
  intro ts f₁ hts ⟨e, hd⟩
  have hlt := hts.size_lt_of_begins hd.first
  refine .ifNext ?_ (.expect ?_ (by simpa [Completes] using hclose ts ⟨e, hd⟩))
  · intro hpeek
    rw [items_eq]
    exact .closing hpeek (by decide) ⟨[e], ts, _, rfl, .item hd, hpeek⟩
  · intro comma f₂ htc hcomma
    have hlt₂ := htc.size_lt
    refine (items_prompt f₂).imp ?_
    rintro _ ⟨es, us, last, rfl, hd', hlast⟩
    exact ⟨_, ts ++ comma :: us, last, by simp, .itemMore hd hcomma hd', hlast⟩
termination_by 10 * f.size + 8
decreasing_by all_goals omega

theorem additive_prompt (f : Feed) : additive.Prompt (Spelled .additive) f := by
  rw [additive_eq]
  refine (multiplicative_prompt f).seq ?_ fun ts ⟨e, hd⟩ => .nothing ⟨e, .term hd⟩
  intro ts f₁ hts ⟨left, hd⟩
  have hlt := hts.size_lt_of_begins hd.first
  exact (additiveTail_prompt f₁).imp fun us hus => hus ts ⟨left, .term hd⟩
termination_by 10 * f.size + 5
decreasing_by all_goals omega

theorem additiveTail_prompt (f : Feed) : additiveTail.Prompt (Continues .additive) f := by
  rw [additiveTail_eq]
  refine .onOperator ?_ (.done fun ts hts => by rw [List.append_nil]; exact hts)
  intro t f₁ ht ho
  have hlt := ht.size_lt
  -- the operator and its right operand continue what was read before
  have hmore : ∀ us, Spelled .multiplicative us → Continues .additive (t :: us) :=
    fun us ⟨right, hd⟩ ts ⟨left, hl⟩ => ⟨_, .plus hl ho hd⟩
  refine (multiplicative_prompt f₁).seq ?_ fun us hus => .nothing (hmore us hus)
  intro us f₂ hts hus
  have hlt₂ := hts.size_lt_of_begins hus.choose_spec.first
  refine (additiveTail_prompt f₂).imp fun more hcont ts hts => ?_
  have hall := hcont _ (hmore us hus ts hts)
  rwa [List.append_assoc, List.cons_append] at hall
termination_by 10 * f.size + 8
decreasing_by all_goals omega

theorem multiplicative_prompt (f : Feed) : multiplicative.Prompt (Spelled .multiplicative) f := by
  rw [multiplicative_eq]
  refine (call_prompt f).seq ?_ fun ts ⟨e, hd⟩ => .nothing ⟨e, .factor hd⟩
  intro ts f₁ hts ⟨left, hd⟩
  have hlt := hts.size_lt_of_begins hd.first
  exact (multiplicativeTail_prompt f₁).imp fun us hus => hus ts ⟨left, .factor hd⟩
termination_by 10 * f.size + 4
decreasing_by all_goals omega

theorem multiplicativeTail_prompt (f : Feed) :
    multiplicativeTail.Prompt (Continues .multiplicative) f := by
  rw [multiplicativeTail_eq]
  refine .onOperator ?_ (.done fun ts hts => by rw [List.append_nil]; exact hts)
  intro t f₁ ht ho
  have hlt := ht.size_lt
  have hmore : ∀ us, Spelled .call us → Continues .multiplicative (t :: us) :=
    fun us ⟨right, hd⟩ ts ⟨left, hl⟩ => ⟨_, .times hl ho hd⟩
  refine (call_prompt f₁).seq ?_ fun us hus => .nothing (hmore us hus)
  intro us f₂ hts hus
  have hlt₂ := hts.size_lt_of_begins hus.choose_spec.first
  refine (multiplicativeTail_prompt f₂).imp fun more hcont ts hts => ?_
  have hall := hcont _ (hmore us hus ts hts)
  rwa [List.append_assoc, List.cons_append] at hall
termination_by 10 * f.size + 8
decreasing_by all_goals omega

theorem call_prompt (f : Feed) : call.Prompt (Spelled .call) f := by
  rw [call_eq]
  refine (member_prompt f).seq ?_ fun ts ⟨e, hd⟩ => .nothing ⟨e, .callee hd⟩
  intro ts f₁ hts ⟨callee, hd⟩
  have hlt := hts.size_lt_of_begins hd.first
  exact (callTail_prompt f₁).imp fun us hus => hus ts ⟨callee, .callee hd⟩
termination_by 10 * f.size + 3
decreasing_by all_goals omega

theorem callTail_prompt (f : Feed) : callTail.Prompt (Continues .call) f := by
  rw [callTail_eq]
  refine .onToken ?_ (.done fun ts hts => by rw [List.append_nil]; exact hts)
  intro t f₁ ht hk
  have hlt := ht.size_lt
  have hmore : ∀ us, SpelledUpTo .arguments .closeParen us → Continues .call (t :: us) := by
    rintro _ ⟨args, us, last, rfl, hd, hlast⟩ ts ⟨callee, hl⟩
    exact ⟨_, .apply hl hk hd hlast⟩
  refine (arguments_prompt f₁).seq ?_ fun us hus => .nothing (hmore us hus)
  intro us f₂ hts hus
  have hlt₂ : f₂.size ≤ f₁.size := by
    have hsize := hts.size_add
    omega
  refine (callTail_prompt f₂).imp fun more hcont ts hts => ?_
  have hall := hcont _ (hmore us hus ts hts)
  rwa [List.append_assoc, List.cons_append] at hall
termination_by 10 * f.size + 8
decreasing_by all_goals omega

theorem arguments_prompt (f : Feed) :
    arguments.Prompt (SpelledUpTo .arguments .closeParen) f := by
  rw [arguments_eq]
  refine .onToken (fun t f₁ _ hk => .done ⟨[], [], t, rfl, .noArguments, hk⟩) ?_
  refine (argumentList_prompt f).imp ?_
  rintro _ ⟨args, us, last, rfl, hd, hlast⟩
  exact ⟨args, us, last, rfl, .someArguments hd, hlast⟩
termination_by 10 * f.size + 9
decreasing_by all_goals omega

theorem argumentList_prompt (f : Feed) :
    argumentList.Prompt (SpelledUpTo .argumentList .closeParen) f := by
  have hclose : ∀ ts, Spelled .expression ts →
      Completes (SpelledUpTo .argumentList .closeParen) ts := by
    intro ts ⟨e, hd⟩
    exact .one (by decide : Token.fillParen ∈ _) ⟨[e], ts, _, rfl, .argument hd, rfl⟩
  rw [argumentList_eq]
  refine (expression_prompt f).seq ?_ hclose
  intro ts f₁ hts ⟨e, hd⟩
  have hlt := hts.size_lt_of_begins hd.first
  refine .onToken ?_ (.expect ?_ (by simpa [Completes] using hclose ts ⟨e, hd⟩))
  · intro comma f₂ htc hcomma
    have hlt₂ := htc.size_lt
    refine (argumentList_prompt f₂).imp ?_
    rintro _ ⟨args, us, last, rfl, hd', hlast⟩
    exact ⟨_, ts ++ comma :: us, last, by simp, .argumentMore hd hcomma hd', hlast⟩
  · exact fun last f₂ _ hlast => .done ⟨[e], ts, last, rfl, .argument hd, hlast⟩
termination_by 10 * f.size + 8
decreasing_by all_goals omega

theorem member_prompt (f : Feed) : member.Prompt (Spelled .member) f := by
  rw [member_eq]
  refine (primary_prompt f).seq ?_ fun ts ⟨e, hd⟩ => .nothing ⟨e, .base hd⟩
  intro ts f₁ hts ⟨object, hd⟩
  have hlt := hts.size_lt_of_begins hd.first
  exact (memberTail_prompt f₁).imp fun us hus => hus ts ⟨object, .base hd⟩
termination_by 10 * f.size + 2
decreasing_by all_goals omega

theorem memberTail_prompt (f : Feed) : memberTail.Prompt (Continues .member) f := by
  rw [memberTail_eq]
  refine .onToken ?_ (.onToken ?_ (.done fun ts hts => by rw [List.append_nil]; exact hts))
  · intro dot f₁ htd hdot
    have hlt := htd.size_lt
    have hmore : ∀ name : Token, name.kind = .identifier → Continues .member [dot, name] :=
      fun name hname ts ⟨object, hl⟩ => ⟨_, .dotted hl hdot hname⟩
    refine .onToken ?_ (.refuse (.one (by decide : Token.fillName ∈ _) (hmore _ rfl)))
    intro name f₂ htn hname
    have hlt₂ := htn.size_lt
    refine (memberTail_prompt f₂).imp fun more hcont ts hts => ?_
    have hall := hcont _ (hmore name hname ts hts)
    rwa [List.append_assoc] at hall
  · intro opening f₁ hto hopening
    have hlt := hto.size_lt
    have hmore : ∀ us, Spelled .expression us → ∀ last : Token, last.kind = .closeBracket →
        Continues .member (opening :: (us ++ [last])) :=
      fun us ⟨property, hd⟩ last hlast ts ⟨object, hl⟩ => ⟨_, .computed hl hopening hd hlast⟩
    have hclose : ∀ us, Spelled .expression us →
        Completes (fun ts => Continues .member (opening :: ts)) us :=
      fun us hus => .one (by decide : Token.fillBracket ∈ _) (hmore us hus _ rfl)
    refine (expression_prompt f₁).seq ?_ hclose
    intro us f₂ hts hus
    have hlt₂ := hts.size_lt_of_begins hus.choose_spec.first
    refine .expect ?_ (by simpa [Completes] using hclose us hus)
    intro last f₃ htl hlast
    have hlt₃ := htl.size_lt
    refine (memberTail_prompt f₃).imp fun more hcont ts hts => ?_
    have hall := hcont _ (hmore us hus last hlast ts hts)
    simpa using hall
termination_by 10 * f.size + 8
decreasing_by all_goals omega

theorem primary_prompt (f : Feed) : primary.Prompt (Spelled .primary) f := by
  rw [primary_eq]
  refine .onToken (fun t f₁ _ hk => .done ⟨_, .name hk⟩) (.of_numeric fun hf => ?_)
  refine .onToken ?_ ?_
  · intro t f₁ ht hk
    have hmem : t ∈ f.rest := by
      rw [ht.rest]
      exact List.mem_cons_self
    obtain ⟨value, hw⟩ := hf t hmem hk
    exact .numeral hw ⟨_, .number hk hw⟩
  refine .onToken (fun t f₁ _ hk => .done ⟨_, .string hk⟩) ?_
  refine .onToken ?_ (.refuse (.one (by decide : Token.fillName ∈ _) ⟨_, .name rfl⟩))
  intro opening f₁ ht hopening
  have hlt := ht.size_lt
  have hclose : ∀ us, Spelled .expression us →
      Completes (fun ts => Spelled .primary (opening :: ts)) us :=
    fun us ⟨e, hd⟩ => .one (by decide : Token.fillParen ∈ _) ⟨e, .group hopening hd rfl⟩
  refine (expression_prompt f₁).seq ?_ hclose
  intro us f₂ _ hus
  refine .expect ?_ (by simpa [Completes] using hclose us hus)
  obtain ⟨e, hd⟩ := hus
  exact fun last f₃ _ hlast => .done ⟨e, .group hopening hd hlast⟩
termination_by 10 * f.size + 1
decreasing_by all_goals omega

end

/-! ## §4. Statements. -/

theorem terminator_prompt (f : Feed) : terminator.Prompt (Terminates · []) f := by
  rw [terminator_eq]
  refine .onToken (fun t f₁ _ hk => .done (.semicolon hk)) ?_
  exact .ifEnded (.done .endOfInput) (.refuse (.nothing .endOfInput))

/-- What follows a keyword makes a declaration with it, at the end of the input. -/
theorem declaration_prompt {keyword : Token} {constant : Bool}
    (hk : keyword.kind = if constant then .constKeyword else .letKeyword) (f : Feed) :
    (declaration constant).Prompt
      (fun ts => ∃ s, DerivesStatement Token.extent s (keyword :: ts) []) f := by
  -- a value can be given to every name
  have hvalue : ∀ name equals : Token, name.kind = .identifier → equals.kind = .equals →
      ∀ ts, Spelled .expression ts → ∀ us, Terminates us [] →
        ∃ s, DerivesStatement Token.extent s (keyword :: name :: equals :: (ts ++ us)) [] :=
    fun name equals hname hequals ts ⟨value, hd⟩ us hus =>
      ⟨_, .initialized constant hk hname hequals hd hus⟩
  have hname : Spelled .expression [Token.fillName] :=
    ⟨_, .value (.sum (.term (.factor (.callee (.base (.name rfl))))))⟩
  have hlet : ∀ name : Token, name.kind = .identifier →
      Completes (fun ts => ∃ s, DerivesStatement Token.extent s (keyword :: name :: ts) []) [] := by
    intro name hn
    refine ⟨[.fillEquals, .fillName], by decide, ?_⟩
    exact hvalue name _ hn rfl _ hname [] .endOfInput
  show Prompt _ (fun f => (parseDeclaration .unknown constant f).left) f
  rw [show (fun f => (parseDeclaration .unknown constant f).left) = _ from
    funext (parseDeclaration_left .unknown constant)]
  refine .expect ?_ ?_
  · intro name f₁ _ hn
    refine .onToken ?_ ?_
    · intro equals f₂ _ hequals
      refine (expression_prompt f₂).seq ?_ ?_
      · intro ts f₃ _ hts
        exact (terminator_prompt f₃).imp (hvalue name equals hn hequals ts hts)
      · intro ts hts
        have hall := hvalue name equals hn hequals ts hts [] .endOfInput
        rw [List.append_nil] at hall
        exact .nothing hall
    · cases constant with
      | true =>
        rw [if_pos rfl]
        exact .refuse (hlet name hn)
      | false =>
        rw [if_neg (by decide)]
        exact (terminator_prompt f₁).imp fun us hus => ⟨_, .uninitialized hk hn hus⟩
  · obtain ⟨more, hmore, hall⟩ := hlet .fillName rfl
    exact ⟨.fillName :: more, List.forall_mem_cons.2 ⟨by decide, hmore⟩, hall⟩

/-- A declaration is prompt where its keyword is. -/
theorem varDeclaration_prompt {f : Feed} (constant : Bool)
    (hk : f.peek.kind = if constant then .constKeyword else .letKeyword) :
    varDeclaration.Prompt (fun ts => ∃ s, DerivesStatement Token.extent s ts []) f := by
  have hne : f.peek.kind ≠ .endOfInput := by
    rw [hk]
    cases constant <;> decide
  obtain ⟨f₁, ht⟩ := f.took_peek hne
  refine .behind ht (declaration_prompt hk f₁) fun g g₁ hg => ?_
  obtain ⟨_, heat⟩ := hg.eat
  rw [varDeclaration_eq, eat, hg.peek_eq, hk, heat]
  cases constant with
  | false => rfl
  | true => rfl

/-- A statement is prompt, where the input ends after it. -/
theorem statement_prompt (f : Feed) :
    statement.Prompt (fun ts => ∃ s, DerivesStatement Token.extent s ts []) f := by
  rw [statement_eq]
  refine .ifNext (varDeclaration_prompt false) (.ifNext (varDeclaration_prompt true) ?_)
  rw [bare_eq]
  refine (expression_prompt f).seq ?_ fun ts ⟨e, hd⟩ => .nothing ⟨_, .bare hd⟩
  intro ts f₁ _ ⟨e, hd⟩
  refine .onToken (fun t f₂ _ hk => .done ⟨_, .ended hd hk⟩) (.done ⟨.expression e, ?_⟩)
  rw [List.append_nil]
  exact .bare hd

end Reader

/-! ## §5. Programs. -/

/-- At the end of the input nothing is left to be read. -/
theorem parseStatements_of_nil {f : Feed} (h : f.rest = []) : parseStatements f = .ok [] := by
  rw [parseStatements, if_pos (by rw [h]; rfl)]

/-- A statement that ends the input is all that is read. -/
theorem parseStatement_of_last {s : Statement} {ts : List Token} {f f' : Feed}
    (hd : DerivesStatement Token.extent s ts []) (ht : f.Took ts f') (hnil : f'.rest = []) :
    ∃ s', (parseStatement f).Gives s' f' := by
  have hend : Clause.EndsBefore (s, ts) f' := by
    intro _ _
    rw [Feed.peek_eq_atEnd hnil]
    exact List.mem_of_elem_eq_true rfl
  obtain ⟨s', hs', _⟩ := hd.read (g := id) (fun _ => rfl) ht hnil hend
  exact ⟨s', hs'⟩

/-- `f.Misfit e used f'`: the statements of the feed are refused at what comes after the
    tokens `used`.  These can be completed, and what comes after that token is not looked
    at. -/
structure Feed.Misfit (f : Feed) (e : Error) (used : List Token) (f' : Feed) : Prop where
  took : f.Took used f'
  pos : e.pos = f'.peek.pos
  completes : ∃ more, (∀ t ∈ more, t ∈ Token.fillers) ∧ (used = [] → more = []) ∧
    ∀ g : Feed, g.rest = used ++ more → ∃ body, parseStatements g = .ok body
  settled : ∀ g g' : Feed, g.Took used g' → g'.Alike f' → parseStatements g = .error e

/-- The feed behind some of its tokens. -/
theorem Feed.exists_took {f : Feed} {ts us : List Token} (h : f.rest = ts ++ us) :
    ∃ f', f.Took ts f' ∧ f'.rest = us :=
  ⟨⟨us, f.stop, Token.endFrom f.lastEnd ts⟩, ⟨h, rfl, rfl⟩, rfl⟩

theorem parseStatements_of_error {f : Feed} {e : Error} (hne : f.rest.isEmpty = false)
    (h : Reader.statement f = .error e) : parseStatements f = .error e := by
  rw [parseStatements, if_neg (by rw [hne]; decide), Parse.left_eq_error_iff.1 h]
  rfl

/-- **Statements are refused at the first token that cannot be right.** -/
theorem exists_misfit (f : Feed) (hf : f.Numeric) : ∀ {e : Error},
    parseStatements f = .error e → ∃ used f', f.Misfit e used f' := by
  intro e h
  have hne : f.rest.isEmpty = false := by
    rw [parseStatements] at h
    split at h
    · cases h
    · next hne => simpa using hne
  have hprompt := Reader.statement_prompt f hf
  split at hprompt
  · next f₁ hf₁ =>
    obtain ⟨used, ht, ⟨s, hd⟩, hall⟩ := hprompt
    obtain ⟨s', hlt, hs'⟩ := Parse.left_eq_ok_iff.1 hf₁
    -- the statement is read, so the error is one of a later statement
    have hlater : parseStatements f₁ = .error e := by
      rw [parseStatements, if_neg (by rw [hne]; decide), hs'] at h
      cases hmore : parseStatements f₁ with
      | error e' =>
        simp only [bind, Except.bind, hmore] at h
        cases h
        rfl
      | ok body =>
        simp only [bind, Except.bind, hmore] at h
        cases h
    obtain ⟨us, f₂, hmisfit⟩ := exists_misfit f₁ (hf.took ht) hlater
    obtain ⟨more, hmore, hempty, hcompleted⟩ := hmisfit.completes
    refine ⟨used ++ us, f₂, ht.append hmisfit.took, hmisfit.pos, ⟨more, hmore, ?_, ?_⟩, ?_⟩
    · intro hnil
      exact hempty (List.append_eq_nil_iff.1 hnil).2
    · intro g hg
      rw [List.append_assoc] at hg
      obtain ⟨g₁, hg₁, hrest⟩ := Feed.exists_took hg
      obtain ⟨body, hbody⟩ := hcompleted g₁ hrest
      -- the first statement is read as before: its next token is the same, or the input ends
      have hfirst : ∃ s', (parseStatement g).Gives s' g₁ := by
        cases us with
        | nil =>
          rw [hempty rfl] at hrest
          exact parseStatement_of_last hd hg₁ hrest
        | cons t us =>
          exact Parse.left_eq_ok_iff.1
            (hall g g₁ hg₁ (Feed.alike_of_cons hmisfit.took.rest hrest))
      obtain ⟨s', hs'⟩ := hfirst
      exact ⟨s' :: body, parseStatements_of_cons hs' hbody⟩
    · intro g g₂ hg halike
      obtain ⟨g₁, hg₁, hg₂⟩ := hg.of_append
      have halike₁ := halike.before hmisfit.took hg₂
      obtain ⟨s', hlt', hs'⟩ := Parse.left_eq_ok_iff.1 (hall g g₁ hg₁ halike₁)
      rw [parseStatements, if_neg, hs']
      · simp only [bind, Except.bind, hmisfit.settled g₁ g₂ hg₂ halike]
      · rw [(halike₁.before ht hg₁).isEmpty_eq, hne]
        decide
  · next e' he' =>
    have heq : e' = e := by
      rw [parseStatements_of_error hne he'] at h
      cases h
      rfl
    subst heq
    obtain ⟨used, f', ht, hpos, ⟨more, hmore, s, hd⟩, hall⟩ := hprompt
    refine ⟨used, f', ht, hpos, ?_, ?_⟩
    · cases used with
      | nil =>
        -- nothing of the statement was right, and the input may end before it
        exact ⟨[], List.forall_mem_nil _, fun _ => rfl, fun g hg => ⟨[], parseStatements_of_nil hg⟩⟩
      | cons t used =>
        refine ⟨more, hmore, fun hnil => absurd hnil (List.cons_ne_nil _ _), fun g hg => ?_⟩
        rw [← List.append_nil (t :: used ++ more)] at hg
        obtain ⟨g', hg', hnil⟩ := Feed.exists_took hg
        obtain ⟨s', hs'⟩ := parseStatement_of_last hd hg' hnil
        exact ⟨[s'], parseStatements_of_cons hs' (parseStatements_of_nil hnil)⟩
    · intro g g' hg halike
      refine parseStatements_of_error ?_ (hall g g' hg halike)
      rw [(halike.before ht hg).isEmpty_eq, hne]
termination_by f.size
decreasing_by exact hlt

/-! ## §6. Texts. -/

/-- The feed of a token list, behind tokens that do not end the input: the token there comes
    next, or it says where the input ends. -/
theorem Feed.ofTokens_took {before : List Token} (hbefore : ∀ u ∈ before, u.kind ≠ .endOfInput)
    (t : Token) (rest : List Token) :
    ∃ g, (ofTokens (before ++ t :: rest)).Took before g ∧
      (t.kind ≠ .endOfInput → ∃ more, g.rest = t :: more) ∧
      (t.kind = .endOfInput → g.rest = [] ∧ g.stop = t.pos) := by
  have hall : ∀ u ∈ before, decide (u.kind ≠ .endOfInput) = true :=
    fun u hu => decide_eq_true (hbefore u hu)
  obtain ⟨g, hg, hrest⟩ : ∃ g, (ofTokens (before ++ t :: rest)).Took before g ∧
      g.rest = (t :: rest).takeWhile fun u => u.kind ≠ .endOfInput := by
    refine exists_took ?_
    exact List.takeWhile_append_of_pos hall
  refine ⟨g, hg, ?_, ?_⟩
  · intro hk
    rw [List.takeWhile_cons_of_pos (by simpa using hk)] at hrest
    exact ⟨_, hrest⟩
  · intro hk
    rw [List.takeWhile_cons_of_neg (by simpa using hk)] at hrest
    refine ⟨hrest, ?_⟩
    rw [hg.stop]
    unfold ofTokens
    dsimp only
    rw [List.dropWhile_append_of_pos hall, List.dropWhile_cons_of_neg (by simpa using hk)]

theorem Program.ofTokens_of_error {tokens : List Token} {e : Error}
    (h : parseStatements (Feed.ofTokens tokens) = .error e) : ofTokens tokens = .error e := by
  unfold ofTokens ofFeed
  simp only [h, bind, Except.bind]

theorem Program.exists_ofTokens {tokens : List Token} {body : List Statement}
    (h : parseStatements (Feed.ofTokens tokens) = .ok body) : ∃ p, ofTokens tokens = .ok p := by
  unfold ofTokens ofFeed
  simp only [h, bind, Except.bind]
  exact ⟨_, rfl⟩

theorem Program.eq_error_of_ofTokens {tokens : List Token} {e : Error}
    (h : ofTokens tokens = .error e) : parseStatements (Feed.ofTokens tokens) = .error e := by
  unfold ofTokens ofFeed at h
  cases hbody : parseStatements (Feed.ofTokens tokens) with
  | error e' =>
    simp only [hbody, bind, Except.bind] at h
    cases h
    rfl
  | ok body =>
    simp only [hbody, bind, Except.bind] at h
    cases h

/-- **A text is refused at the first token that cannot be right.**  The place of the error is
    that of exactly one token.  The tokens before that one can be completed to a program, by a
    few names, equals signs and closing brackets.  And every token list that begins like this,
    up to and with that token, is refused with the same error, whatever comes after it. -/
theorem refused_at_first_misfit {source : Text} {tokens : List Token} {e : Error}
    (htokens : tokenize source = .ok tokens) (h : Program.parse source = .error e) :
    e.cause.kind = .parse ∧
    ∃ before t after, tokens = before ++ t :: after ∧ t.pos = e.pos ∧
      (∀ u ∈ before ++ after, u.pos ≠ e.pos) ∧
      (∃ more, (∀ u ∈ more, u ∈ Token.fillers) ∧
        ∀ stop, ∃ p, Program.ofTokens (before ++ more ++ [.atEnd stop]) = .ok p) ∧
      ∀ rest, Program.ofTokens (before ++ t :: rest) = .error e := by
  have hordered := tokenize_ordered htokens
  unfold Program.parse at h
  rw [htokens] at h
  have hbody := Program.eq_error_of_ofTokens h
  obtain ⟨ts, stop, hscan, rfl⟩ := tokenize_eq_ok_iff.1 htokens
  have hkinds := hscan.kind_ne_endOfInput
  obtain ⟨hrest, hstop⟩ := Feed.ofTokens_append stop hkinds
  obtain ⟨used, f', hmisfit⟩ := exists_misfit _ (hscan.numeric hrest) hbody
  have hts : ts = used ++ f'.rest := hrest.symm.trans hmisfit.took.rest
  have hused : ∀ u ∈ used, u.kind ≠ .endOfInput := by
    intro u hu
    refine hkinds u ?_
    rw [hts]
    exact List.mem_append_left _ hu
  -- what comes after the used tokens is the rest of the feed and the end of the input
  obtain ⟨after, hafter⟩ : ∃ after, f'.rest ++ [.atEnd stop] = f'.peek :: after := by
    cases hf' : f'.rest with
    | nil =>
      refine ⟨[], ?_⟩
      rw [Feed.peek_eq_atEnd hf', hmisfit.took.stop, hstop]
      rfl
    | cons t more =>
      refine ⟨more ++ [.atEnd stop], ?_⟩
      rw [Feed.peek_eq_cons hf']
      rfl
  have hsplit : ts ++ [.atEnd stop] = used ++ f'.peek :: after := by
    rw [← hafter, hts, List.append_assoc]
  refine ⟨?_, used, f'.peek, after, hsplit, hmisfit.pos.symm, ?_, ?_, ?_⟩
  · have hanywhere : (Feed.ofTokens (ts ++ [.atEnd stop])).Within fun _ => True :=
      ⟨fun _ _ => trivial, trivial⟩
    exact (parseStatements_unfit _ hanywhere hbody).1
  · -- places go up, so no other token has this one
    rw [hsplit, List.pairwise_append, List.pairwise_cons] at hordered
    obtain ⟨_, ⟨hlater, _⟩, hearlier⟩ := hordered
    rw [hmisfit.pos]
    intro u hu
    rcases List.mem_append.1 hu with hu | hu
    · exact (hearlier u hu _ List.mem_cons_self).ne
    · exact (hlater u hu).ne.symm
  · obtain ⟨more, hmore, _, hcompleted⟩ := hmisfit.completes
    refine ⟨more, hmore, fun stop' => ?_⟩
    have hfillers : ∀ u ∈ Token.fillers, u.kind ≠ .endOfInput := by decide
    have hclean : ∀ u ∈ used ++ more, u.kind ≠ .endOfInput :=
      List.forall_mem_append.2 ⟨hused, fun u hu => hfillers u (hmore u hu)⟩
    obtain ⟨body, hcomplete⟩ := hcompleted _ (Feed.ofTokens_append stop' hclean).1
    exact Program.exists_ofTokens hcomplete
  · intro rest
    obtain ⟨g, hg, hcons, hnil⟩ := Feed.ofTokens_took hused f'.peek rest
    refine Program.ofTokens_of_error (hmisfit.settled _ g hg ?_)
    cases hf' : f'.rest with
    | nil =>
      have hpeek := Feed.peek_eq_atEnd hf'
      obtain ⟨hempty, hplace⟩ := hnil (by rw [hpeek]; rfl)
      refine Feed.alike_of_nil hf' hempty ?_
      rw [hplace, hpeek]
      rfl
    | cons t more =>
      have hpeek := Feed.peek_eq_cons hf'
      obtain ⟨more', hmore'⟩ := hcons (by
        rw [hpeek]
        refine hkinds t ?_
        rw [hts, hf']
        simp)
      rw [hpeek] at hmore'
      exact Feed.alike_of_cons hf' hmore'

section Witness

/-- Whether an outcome is a given error can be decided, also where its values cannot. -/
local instance {α : Type} (outcome : Except Error α) (e : Error) :
    Decidable (outcome = .error e) :=
  match outcome with
  | .ok _ => .isFalse fun h => by cases h
  | .error e' => decidable_of_iff (e' = e) ⟨congrArg Except.error, Except.error.inj⟩

/-- A constant whose value breaks off within a list within an object. -/
theorem refused_at_first_misfit_nested :
    let tokens : List Token := [⟨.constKeyword, "const", ⟨1, 1⟩⟩, ⟨.identifier, "a", ⟨1, 7⟩⟩,
      ⟨.equals, "=", ⟨1, 9⟩⟩, ⟨.openBrace, "\x7b", ⟨1, 11⟩⟩, ⟨.identifier, "b", ⟨1, 12⟩⟩,
      ⟨.colon, ":", ⟨1, 13⟩⟩, ⟨.openBracket, "[", ⟨1, 15⟩⟩, ⟨.number, "1", ⟨1, 16⟩⟩,
      ⟨.comma, ",", ⟨1, 17⟩⟩, ⟨.closeParen, ")", ⟨1, 19⟩⟩, .atEnd ⟨1, 20⟩]
    let e : Error := ⟨.unexpectedToken ⟨.closeParen, ")", ⟨1, 19⟩⟩, ⟨1, 19⟩⟩
    tokenize "const a = \x7bb: [1, )" = .ok tokens ∧
    Program.parse "const a = \x7bb: [1, )" = .error e ∧
    e.cause.kind = .parse ∧
    ∃ before t after, tokens = before ++ t :: after ∧ t.pos = e.pos ∧
      (∀ u ∈ before ++ after, u.pos ≠ e.pos) ∧
      (∃ more, (∀ u ∈ more, u ∈ Token.fillers) ∧
        ∀ stop, ∃ p, Program.ofTokens (before ++ more ++ [.atEnd stop]) = .ok p) ∧
      ∀ rest, Program.ofTokens (before ++ t :: rest) = .error e := by
  intro tokens e
  have htokens : tokenize "const a = \x7bb: [1, )" = .ok tokens := by decide +kernel
  have hparse : Program.parse "const a = \x7bb: [1, )" = .error e := by decide +kernel
  exact ⟨htokens, hparse, refused_at_first_misfit htokens hparse⟩

end Witness

end Scriptorium
