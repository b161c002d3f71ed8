/-
  Scriptorium.Proofs.Parsing.Nesting: the spans of a tree lie inside each other and in order.

  The tokens of a text come one after the other: none begins before the one in front of it
  has ended, although the end of a string over several lines is taken to lie on its first line.
  A part that was read starts where one of its tokens begins and ends where one of them ends, so
  what stands inside it stays between its first token and its last, and of two parts inside it the
  tokens of the first all come before those of the second.

  Main results:
    * `tokenize_inOrder`: the tokens of a text come one after the other.
    * `Derives.laid`: so do the parts that tokens spell.
    * `Node.Nested.visits_ordered`: a walk through a nested tree goes forward.
    * `spans_nest_in_order`: spans of a program that was read.
-/

import Mathlib.Order.Basic
import Scriptorium.Proofs.Parsing.Spans
import Scriptorium.Proofs.Walks

namespace Scriptorium

/-! ## §1. Tokens one after the other. -/

namespace Position

/-- Places are compared by their lines and, in one line, by their columns. -/
instance : PartialOrder Position where
  le p q := p.line < q.line ∨ p.line = q.line ∧ p.column ≤ q.column
  lt := Before
  le_refl p := .inr ⟨rfl, Int.le_refl _⟩
  le_trans p q r h h' := by omega
  lt_iff_le_not_ge p q := by
    unfold Before
    omega
  le_antisymm p q h h' := by
    cases p
    cases q
    rw [mk.injEq]
    dsimp only at h h'
    omega

instance : DecidableLE Position := fun p q =>
  inferInstanceAs (Decidable (p.line < q.line ∨ p.line = q.line ∧ p.column ≤ q.column))

theorem le_after (p : Position) (l : List Symbol) : p ≤ p.after l := by
  cases l with
  | nil => exact le_refl p
  | cons s l => exact le_of_lt (before_after (List.cons_ne_nil s l))

end Position

namespace Token

theorem pos_le_stop (t : Token) : t.pos ≤ t.stop := by
  refine .inr ⟨rfl, ?_⟩
  show t.pos.column ≤ t.pos.column + t.width
  omega

/-- The end of a token is assumed no later than where the scanner finds it. -/
theorem stop_le_past (t : Token) : t.stop ≤ t.past := by
  unfold stop past
  rw [width_eq]
  by_cases hline : ∃ s ∈ t.raw.symbols, s.isChar '\n' = true
  · -- the scanner is in a later line, whatever the columns
    exact .inl (Position.line_lt_after hline)
  · refine le_of_eq (Position.after_of_staysOnLine fun s hs => ?_).symm
    rw [← Bool.not_eq_true]
    exact fun hs' => hline ⟨s, hs, hs'⟩

end Token

/-- Whether the tokens come one after the other. -/
def InOrder (ts : List Token) : Prop := ts.Pairwise fun t u => t.stop ≤ u.pos

/-- The tokens of a scan come one after the other, and the end of the input after them all. -/
theorem Cursor.Scans.inOrder {c : Cursor} {ts : List Token} {ending : Ending} {stop : Position}
    (h : c.Scans ts ending) (hending : ending = .finished stop) {src : Text} {pre : List Symbol}
    (hsrc : src.symbols = pre ++ c.rest) : InOrder (ts ++ [.atEnd stop]) := by
  induction h generalizing pre with
  | finished _ => exact List.pairwise_singleton _ _
  | @token blanks raw after pos kind _ _ _ hspell hmore ih =>
    dsimp only at hsrc
    have htoken : src.symbols = (pre ++ blanks) ++ (raw ++ after) := by
      rw [hsrc, List.append_assoc]
    have hbehind : src.symbols = (pre ++ blanks ++ raw) ++ after := by
      rw [htoken, List.append_assoc (pre ++ blanks)]
    refine List.pairwise_cons.2 ⟨fun u hu => ?_, ih hending hbehind⟩
    -- from the end of the token the scanner only moves on
    obtain ⟨l, hl⟩ := hmore.exists_after hending u hu
    calc (Token.ofRaw kind raw (pos.after blanks)).stop
      _ ≤ (Token.ofRaw kind raw (pos.after blanks)).past := Token.stop_le_past _
      _ = (pos.after blanks).after raw := Token.past_ofRaw hspell htoken _
      _ ≤ ((pos.after blanks).after raw).after l := Position.le_after _ l
      _ = u.pos := hl.symm
  | unterminated _ _ => cases hending
  | unrecognized _ _ _ => cases hending

/-- **The tokens of a text come one after the other.** -/
theorem tokenize_inOrder {source : Text} {tokens : List Token}
    (h : tokenize source = .ok tokens) : InOrder tokens := by
  obtain ⟨ts, stop, hscan, rfl⟩ := tokenize_eq_ok_iff.1 h
  exact hscan.inOrder rfl (List.nil_append source.symbols).symm

namespace InOrder

variable {ts us : List Token}

theorem left (h : InOrder (ts ++ us)) : InOrder ts := (List.pairwise_append.1 h).1

theorem right (h : InOrder (ts ++ us)) : InOrder us := (List.pairwise_append.1 h).2.1

theorem tail {t : Token} (h : InOrder (t :: ts)) : InOrder ts := h.of_cons

/-- None of the tokens begins before the first of them. -/
theorem start_le {t first : Token} (h : InOrder ts) (hfirst : ts.head? = some first)
    (ht : t ∈ ts) : first.pos ≤ t.pos := by
  obtain ⟨rest, rfl⟩ := List.head?_eq_some_iff.1 hfirst
  rcases List.mem_cons.1 ht with rfl | ht
  · exact le_refl _
  · exact le_trans first.pos_le_stop ((List.pairwise_cons.1 h).1 t ht)

/-- None of the tokens ends after the last of them. -/
theorem le_stop {t last : Token} (h : InOrder ts) (hlast : ts.getLast? = some last)
    (ht : t ∈ ts) : t.stop ≤ last.stop := by
  obtain ⟨front, rfl⟩ := List.getLast?_eq_some_iff.1 hlast
  rcases List.mem_append.1 ht with ht | ht
  · have hbefore := (List.pairwise_append.1 h).2.2 t ht last List.mem_cons_self
    exact le_trans hbefore last.pos_le_stop
  · rw [List.mem_singleton.1 ht]

end InOrder

/-! ## §2. Nested trees. -/

namespace Node

/-- The parts that stand inside a part, in the order of writing. -/
def children (n : Node) : List Node := n.inner.filter isPresent

/-- Whether the span of a part goes forward and takes in those of the parts inside it, and these
    come one after the other. -/
structure Orderly (n : Node) : Prop where
  forward : n.span.start ≤ n.span.stop
  around : ∀ part ∈ n.children, n.span.start ≤ part.span.start ∧ part.span.stop ≤ n.span.stop
  apart : n.children.Pairwise fun part later => part.span.stop ≤ later.span.start

/-- Whether the spans are orderly throughout the tree. -/
def Nested (n : Node) : Prop := ∀ part ∈ n.visits fun _ => true, part.Orderly

theorem nested_iff {n : Node} (hpresent : n.isPresent = true) :
    n.Nested ↔ n.Orderly ∧ ∀ part ∈ n.inner, part.Nested := by
  unfold Nested
  rw [n.visits_eq, if_pos hpresent, if_pos rfl, List.forall_mem_cons]
  simp only [List.mem_flatMap]
  constructor
  · intro ⟨hn, hinner⟩
    exact ⟨hn, fun part hpart below hbelow => hinner below ⟨part, hpart, hbelow⟩⟩
  · intro ⟨hn, hinner⟩
    exact ⟨hn, fun below ⟨part, hpart, hbelow⟩ => hinner part hpart below hbelow⟩

theorem isPresent_of_mem_visits {n part : Node} {enter : Node → Bool}
    (h : part ∈ n.visits enter) : n.isPresent = true := by
  by_contra hpresent
  rw [n.visits_eq enter, if_neg hpresent] at h
  cases h

namespace Nested

/-- What a walk meets inside a nested tree lies in the span of the tree. -/
theorem within {n part : Node} {enter : Node → Bool} (h : n.Nested)
    (hpart : part ∈ n.visits enter) :
    n.span.start ≤ part.span.start ∧ part.span.start ≤ part.span.stop ∧
      part.span.stop ≤ n.span.stop := by
  induction n using Node.induction with
  | h n ih =>
    have hpresent := isPresent_of_mem_visits hpart
    obtain ⟨horderly, hinner⟩ := (nested_iff hpresent).1 h
    rw [n.visits_eq enter, if_pos hpresent] at hpart
    rcases List.mem_cons.1 hpart with rfl | hpart
    · exact ⟨le_refl _, horderly.forward, le_refl _⟩
    · by_cases henter : enter n = true
      · rw [if_pos henter] at hpart
        obtain ⟨child, hchild, hpart⟩ := List.mem_flatMap.1 hpart
        obtain ⟨hstart, hforward, hstop⟩ := ih child hchild (hinner child hchild) hpart
        obtain ⟨hfrom, hto⟩ := horderly.around child
          (List.mem_filter.2 ⟨hchild, isPresent_of_mem_visits hpart⟩)
        exact ⟨le_trans hfrom hstart, hforward, le_trans hstop hto⟩
      · rw [if_neg henter] at hpart
        cases hpart

/-- **A walk through a nested tree goes forward**: no part that it meets starts before one that
    it has met. -/
theorem visits_ordered {n : Node} (h : n.Nested) (enter : Node → Bool) :
    (n.visits enter).Pairwise fun part later => part.span.start ≤ later.span.start := by
  induction n using Node.induction with
  | h n ih =>
    have hwithin : ∀ part ∈ n.visits enter, n.span.start ≤ part.span.start :=
      fun part hpart => (h.within hpart).1
    rw [n.visits_eq enter] at hwithin ⊢
    by_cases hpresent : n.isPresent = true
    · obtain ⟨horderly, hinner⟩ := (nested_iff hpresent).1 h
      rw [if_pos hpresent] at hwithin ⊢
      refine List.pairwise_cons.2
        ⟨fun part hpart => hwithin part (List.mem_cons_of_mem n hpart), ?_⟩
      by_cases henter : enter n = true
      · rw [if_pos henter, List.pairwise_flatMap]
        refine ⟨fun child hchild => ih child hchild (hinner child hchild), ?_⟩
        -- what is met in a child ends before the next one starts
        have hapart := List.pairwise_filter.1 horderly.apart
        refine hapart.imp_of_mem fun {child later} hchild hlater hbefore => ?_
        intro part hpart part' hpart'
        obtain ⟨_, hforward, hstop⟩ := (hinner child hchild).within hpart
        obtain ⟨hstart, _, _⟩ := (hinner later hlater).within hpart'
        calc part.span.start
          _ ≤ part.span.stop := hforward
          _ ≤ child.span.stop := hstop
          _ ≤ later.span.start :=
            hbefore (isPresent_of_mem_visits hpart) (isPresent_of_mem_visits hpart')
          _ ≤ part'.span.start := hstart
      · rw [if_neg henter]
        exact .nil
    · rw [if_neg hpresent]
      exact .nil

end Nested

end Node

/-! ## §3. The parts that tokens spell. -/

/-- `Laid ts parts`: the parts are laid out over the tokens.  Each of them is nested, starts
    where a token begins and ends where a token ends, and they come one after the other. -/
structure Laid (ts : List Token) (parts : List Node) : Prop where
  nested : ∀ part ∈ parts, part.Nested
  ends : ∀ part ∈ parts, part.isPresent = true →
    ∃ t ∈ ts, ∃ u ∈ ts, part.span = ⟨t.pos, u.stop⟩
  apart : parts.Pairwise fun part later => part.isPresent = true → later.isPresent = true →
    part.span.stop ≤ later.span.start

namespace Laid

variable {ts us : List Token} {parts more : List Node}

protected theorem nil : Laid ts [] := ⟨List.forall_mem_nil _, List.forall_mem_nil _, .nil⟩

/-- Where there is no part, nothing is laid out. -/
protected theorem absent : Laid ts [.ofExpr .absent] where
  nested := List.forall_mem_singleton.2 (List.forall_mem_nil _)
  ends := List.forall_mem_singleton.2 fun h => by cases h
  apart := List.pairwise_singleton _ _

/-- Parts that are laid out over some of the tokens are laid out over all of them. -/
theorem within (h : Laid ts parts) (left right : List Token) :
    Laid (left ++ (ts ++ right)) parts where
  nested := h.nested
  ends part hpart hpresent := by
    obtain ⟨t, ht, u, hu, hspan⟩ := h.ends part hpart hpresent
    exact ⟨t, by simp [ht], u, by simp [hu], hspan⟩
  apart := h.apart

theorem front (h : Laid ts parts) (right : List Token) : Laid (ts ++ right) parts :=
  h.within [] right

theorem back (h : Laid ts parts) (left : List Token) : Laid (left ++ ts) parts := by
  have hwithin := h.within left []
  rwa [List.append_nil] at hwithin

/-- Parts over some tokens, and others over the tokens that come after. -/
protected theorem append (h : Laid ts parts) (h' : Laid us more) (horder : InOrder (ts ++ us)) :
    Laid (ts ++ us) (parts ++ more) where
  nested := List.forall_mem_append.2 ⟨h.nested, h'.nested⟩
  ends := List.forall_mem_append.2 ⟨(h.front us).ends, (h'.back ts).ends⟩
  apart := by
    refine List.pairwise_append.2 ⟨h.apart, h'.apart, ?_⟩
    intro part hpart later hlater hpresent hpresent'
    obtain ⟨_, _, u, hu, hspan⟩ := h.ends part hpart hpresent
    obtain ⟨t, ht, _, _, hspan'⟩ := h'.ends later hlater hpresent'
    rw [hspan, hspan']
    exact (List.pairwise_append.1 horder).2.2 u hu t ht

/-- **A part around others**: it has the span of all the tokens that the others are laid out
    over. -/
theorem enclose {n : Node} (h : Laid ts n.inner) (horder : InOrder ts) (hne : ts ≠ [])
    (hspan : n.span = Token.extent ts) (hpresent : n.isPresent = true) : Laid ts [n] := by
  -- the span reaches from the first token to the last, and no token lies outside
  have hfirst : ts.head? = some (ts.head hne) := List.head?_eq_some_head hne
  have hlast : ts.getLast? = some (ts.getLast hne) := List.getLast?_eq_some_getLast hne
  rw [Token.extent_eq hfirst hlast] at hspan
  have horderly : n.Orderly := by
    refine ⟨?_, ?_, List.pairwise_filter.2 h.apart⟩
    · rw [hspan]
      exact le_trans (Token.pos_le_stop _) (horder.le_stop hlast (List.head_mem hne))
    · intro part hpart
      obtain ⟨hpart, hpart'⟩ := List.mem_filter.1 hpart
      obtain ⟨t, ht, u, hu, hends⟩ := h.ends part hpart hpart'
      rw [hspan, hends]
      exact ⟨horder.start_le hfirst ht, horder.le_stop hlast hu⟩
  refine ⟨List.forall_mem_singleton.2 ((Node.nested_iff hpresent).2 ⟨horderly, h.nested⟩), ?_,
    List.pairwise_singleton _ _⟩
  intro part hpart _
  rw [List.mem_singleton.1 hpart]
  exact ⟨_, List.head_mem hne, _, List.getLast_mem hne, hspan⟩

/-- A part with nothing inside it, over a token of its own. -/
theorem single {n : Node} {t : Token} (hinner : n.inner = []) (hspan : n.span = Token.extent [t])
    (hpresent : n.isPresent = true) : Laid [t] [n] := by
  refine enclose ?_ (List.pairwise_singleton _ _) (List.cons_ne_nil t []) hspan hpresent
  rw [hinner]
  exact .nil

end Laid

/-- The trees of the phrase, one after the other. -/
def Phrase.trees : Phrase → List Node
  | .expression e | .operand e | .additive e | .multiplicative e | .call e | .member e
  | .primary e => [.ofExpr e]
  | .properties ps => ps.map .property
  | .items es | .arguments es | .argumentList es => es.map .ofExpr

/-- **The trees of a phrase are laid out over the tokens that spell it.** -/
theorem Derives.laid {phrase : Phrase} {ts : List Token} (h : Derives Token.extent phrase ts)
    (horder : InOrder ts) : Laid ts phrase.trees := by
  induction h with
  | value _ ih | sum _ ih | term _ ih | factor _ ih | callee _ ih | base _ ih
  | someArguments _ ih | item _ ih | argument _ ih => exact ih horder
  | assign _ _ _ ih₁ ih₂ | plus _ _ _ ih₁ ih₂ | times _ _ _ ih₁ ih₂ =>
    have hinner := (ih₁ horder.left).append ((ih₂ horder.right.tail).back [_]) horder
    exact .enclose hinner horder (by simp) rfl rfl
  | object _ _ _ ih | list _ _ _ ih =>
    exact .enclose ((ih horder.tail.left).within [_] _) horder (by simp) rfl rfl
  | apply _ _ _ _ ih₁ ih₂ | computed _ _ _ _ ih₁ ih₂ =>
    have hinner := (ih₁ horder.left).append ((ih₂ horder.right.tail.left).within [_] _) horder
    exact .enclose hinner horder (by simp) rfl rfl
  | @dotted object ts dot name _ _ _ ih =>
    have hright : Laid [dot, name] [.ofExpr (.identifier (Token.extent [name]) name.lexeme)] :=
      (Laid.single rfl rfl rfl).back [dot]
    have hinner := (ih horder.left).append hright horder
    exact .enclose hinner horder (by simp) rfl rfl
  | name _ | number _ _ | string _ => exact .single rfl rfl rfl
  | group _ _ _ ih =>
    -- the parentheses are tokens of the phrase and of none of its trees
    exact (ih horder.tail.left).within [_] _
  | noProperties | noItems | noArguments => exact .nil
  | shorthand _ => exact .enclose .absent horder (by simp) rfl rfl
  | @shorthandMore key comma ps ts _ _ _ ih =>
    have hsplit : InOrder ([key, comma] ++ ts) := horder
    -- the comma belongs to the key before it
    have hproperty : Laid [key, comma]
        [.property (.mk (Token.extent [key, comma]) key.lexeme .absent)] :=
      .enclose .absent hsplit.left (by simp) rfl rfl
    exact hproperty.append (ih hsplit.right) hsplit
  | keyed _ _ _ ih =>
    exact .enclose ((ih horder.tail.tail).back [_, _]) horder (by simp) rfl rfl
  | @keyedMore key colon value ts comma ps us _ _ _ _ _ ih₁ ih₂ =>
    have hsplit : InOrder ((key :: colon :: ts) ++ comma :: us) := horder
    have hproperty : Laid (key :: colon :: ts)
        [.property (.mk (Token.extent (key :: colon :: ts)) key.lexeme value)] :=
      .enclose ((ih₁ hsplit.left.tail.tail).back [_, _]) hsplit.left (by simp) rfl rfl
    exact hproperty.append ((ih₂ hsplit.right.tail).back [comma]) hsplit
  | itemMore _ _ _ ih₁ ih₂ | argumentMore _ _ _ ih₁ ih₂ =>
    exact (ih₁ horder.left).append ((ih₂ horder.right.tail).back [_]) horder

theorem DerivesStatement.laid {s : Statement} {ts rest : List Token}
    (h : DerivesStatement Token.extent s ts rest) (horder : InOrder ts) :
    Laid ts [.statement s] := by
  cases h with
  | uninitialized _ _ _ => exact .enclose .absent horder (by simp) rfl rfl
  | @initialized keyword name equals _ _ terminator _ _ _ _ _ hd _ =>
    have hinner := (hd.laid horder.tail.tail.tail.left).within [keyword, name, equals] terminator
    exact .enclose hinner horder (by simp) rfl rfl
  | bare hd => exact hd.laid horder
  | ended hd _ => exact (hd.laid horder.left).front _

theorem Clause.Derived.laid {clauses : List Clause} (h : Derived Token.extent clauses)
    (horder : InOrder (tokens clauses)) :
    Laid (tokens clauses) ((statements clauses).map .statement) := by
  induction h with
  | nil => exact .nil
  | cons hs _ ih => exact (hs.laid horder.left).append (ih horder.right) horder

/-- A program that was read is nested. -/
theorem nested_of_parse {source : Text} {p : Program} (h : Program.parse source = .ok p) :
    (Node.program p).Nested := by
  obtain ⟨tokens, clauses, htokens, hd⟩ := derivesProgram_of_parse h
  have horder := tokenize_inOrder htokens
  obtain ⟨final, _, rfl⟩ := hd.tokens_eq
  -- the program ends where the input does
  have hinner := (hd.derived.laid horder.left).front [final]
  have hlaid : Laid (Clause.tokens clauses ++ [final]) [.program p] := by
    rw [hd.program_eq]
    exact .enclose hinner horder (by simp) rfl rfl
  exact hlaid.nested _ List.mem_cons_self

/-- **Spans are nested and in order.**  In a program that was read, every part starts no later
    than it ends, takes in the parts that stand inside it, and has these one after the other.  So
    a walk, whichever parts it enters, meets the parts in the order in which they start. -/
theorem spans_nest_in_order {source : Text} {p : Program} (h : Program.parse source = .ok p) :
    (∀ part ∈ p.parts, part.Orderly) ∧
    ∀ enter : Node → Bool, ((Node.program p).visits enter).Pairwise fun part later =>
      part.span.start ≤ later.span.start :=
  ⟨nested_of_parse h, (nested_of_parse h).visits_ordered⟩

/-- A call with an object, in it a bare key and a product of two groups, the first of them a
    string over two lines; and a declaration. -/
def nestedScript : Text := "f(\x7ba, b: (\"x\ny\") * (c)\x7d)\nlet d;"

/-- The spans of the program, the call, its name, the object, the bare key, the other property,
    the product, the string, the name and the declaration. -/
theorem parse_nestedScript : ∃ p, Program.parse nestedScript = .ok p ∧
    p.parts.map Node.span =
      [⟨⟨1, 1⟩, ⟨3, 7⟩⟩, ⟨⟨1, 1⟩, ⟨2, 12⟩⟩, ⟨⟨1, 1⟩, ⟨1, 2⟩⟩, ⟨⟨1, 3⟩, ⟨2, 11⟩⟩,
        ⟨⟨1, 4⟩, ⟨1, 6⟩⟩, ⟨⟨1, 7⟩, ⟨2, 10⟩⟩, ⟨⟨1, 10⟩, ⟨2, 10⟩⟩, ⟨⟨1, 11⟩, ⟨1, 16⟩⟩,
        ⟨⟨2, 8⟩, ⟨2, 9⟩⟩, ⟨⟨3, 1⟩, ⟨3, 7⟩⟩] := by
  have hspans : ((Program.parse nestedScript).toOption.map fun p => p.parts.map Node.span) =
      some [⟨⟨1, 1⟩, ⟨3, 7⟩⟩, ⟨⟨1, 1⟩, ⟨2, 12⟩⟩, ⟨⟨1, 1⟩, ⟨1, 2⟩⟩, ⟨⟨1, 3⟩, ⟨2, 11⟩⟩,
        ⟨⟨1, 4⟩, ⟨1, 6⟩⟩, ⟨⟨1, 7⟩, ⟨2, 10⟩⟩, ⟨⟨1, 10⟩, ⟨2, 10⟩⟩, ⟨⟨1, 11⟩, ⟨1, 16⟩⟩,
        ⟨⟨2, 8⟩, ⟨2, 9⟩⟩, ⟨⟨3, 1⟩, ⟨3, 7⟩⟩] := by
    decide +kernel
  cases hp : Program.parse nestedScript with
  | error e =>
    rw [hp] at hspans
    cases hspans
  | ok p =>
    rw [hp] at hspans
    exact ⟨p, rfl, Option.some.inj hspans⟩

/-- Ten parts, nested and in order. -/
theorem spans_nest_in_order_nestedScript : ∃ p, Program.parse nestedScript = .ok p ∧
    p.parts.length = 10 ∧ (∀ part ∈ p.parts, part.Orderly) ∧
    ∀ enter : Node → Bool, ((Node.program p).visits enter).Pairwise fun part later =>
      part.span.start ≤ later.span.start := by
  obtain ⟨p, hp, hspans⟩ := parse_nestedScript
  refine ⟨p, hp, ?_, spans_nest_in_order hp⟩
  rw [← List.length_map Node.span, hspans]
  rfl

end Scriptorium
