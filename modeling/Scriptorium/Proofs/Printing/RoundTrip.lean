/-
  Scriptorium.Proofs.Printing.RoundTrip: what is written down is read back.

  The signs of a well-formed program are legible, so that any hand's text of it has
  them as its tokens.  Tokens with these signs are derived in the grammar, wherever they
  stand: parentheses make every part that is not an atom a primary expression, and the
  semicolons keep the statements apart.

  Main results:
    * `Expr.legible`: the signs of a well-formed expression are legible.
    * `Expr.derives_signs`: tokens with the signs of an expression derive it.
    * `parse_text`: the text of a well-formed program is read as that program.
-/

import Scriptorium.Proofs.Printing.Legible

namespace Scriptorium

/-! ## §1. The signs of a program are legible. -/

namespace Sign

theorem Legible.name {t : Text} (h : t.IsName) : Legible (.name t) := by
  have hkind : wordKind t = .identifier := by
    unfold wordKind
    rw [if_neg h.2.1, if_neg h.2.2]
  have hword := Legible.word h.1
  rw [hkind] at hword
  exact hword

theorem legible_let : Legible ⟨.letKeyword, "let"⟩ := by
  have hword : Text.IsWord "let" :=
    ⟨.char 'l', [.char 'e', .char 't'], Text.symbols_ofString "let", by decide, by decide⟩
  exact .word hword

theorem legible_const : Legible ⟨.constKeyword, "const"⟩ := by
  have hword : Text.IsWord "const" :=
    ⟨.char 'c', [.char 'o', .char 'n', .char 's', .char 't'], Text.symbols_ofString "const",
      by decide, by decide⟩
  exact .word hword

theorem legible_operator {op : Text} (h : op ∈ additiveOperators ++ multiplicativeOperators) :
    Legible ⟨.binaryOperator, op⟩ := by
  have hmem : op = "+" ∨ op = "-" ∨ op = "*" ∨ op = "/" ∨ op = "%" := by
    simpa [additiveOperators, multiplicativeOperators] using h
  rcases hmem with rfl | rfl | rfl | rfl | rfl
  · exact .mark (c := '+') rfl
  · exact .mark (c := '-') rfl
  · exact .mark (c := '*') rfl
  · exact .mark (c := '/') rfl
  · exact .mark (c := '%') rfl

/-- Whether all the signs are legible. -/
def AllLegible (signs : List Sign) : Prop := ∀ s ∈ signs, s.Legible

theorem allLegible_cons {s : Sign} {signs : List Sign} (h : s.Legible) (hs : AllLegible signs) :
    AllLegible (s :: signs) :=
  List.forall_mem_cons.2 ⟨h, hs⟩

theorem allLegible_append {l r : List Sign} (hl : AllLegible l) (hr : AllLegible r) :
    AllLegible (l ++ r) :=
  List.forall_mem_append.2 ⟨hl, hr⟩

theorem allLegible_singleton {s : Sign} (h : s.Legible) : AllLegible [s] :=
  List.forall_mem_singleton.2 h

/-- Signs between two marks. -/
theorem allLegible_between {opening closing : Sign} {signs : List Sign} (ho : opening.Legible)
    (hs : AllLegible signs) (hc : closing.Legible) :
    AllLegible (opening :: (signs ++ [closing])) :=
  allLegible_cons ho (allLegible_append hs (allLegible_singleton hc))

theorem allLegible_commas {parts : List (List Sign)} (h : ∀ signs ∈ parts, AllLegible signs) :
    AllLegible (commas parts) := by
  induction parts with
  | nil => exact List.forall_mem_nil _
  | cons signs rest ih =>
    obtain ⟨hs, hrest⟩ := List.forall_mem_cons.1 h
    cases rest with
    | nil => exact hs
    | cons next rest =>
      exact allLegible_append hs (allLegible_cons (.mark (c := ',') rfl) (ih hrest))

theorem allLegible_grouped {e : Expr} {signs : List Sign} (h : AllLegible signs) :
    AllLegible (e.grouped signs) := by
  unfold Expr.grouped
  split
  · exact h
  · exact allLegible_between (.mark (c := '(') rfl) h (.mark (c := ')') rfl)

end Sign

open Sign

variable (hand : Hand)

mutual

/-- **The signs of a well-formed expression are legible**, whoever writes it. -/
theorem Expr.legible (e : Expr) (h : e.WellFormed) : AllLegible (e.signs hand.digits) := by
  cases e with
  | absent => exact h.elim
  | identifier _ name =>
    rw [Expr.signs]
    exact allLegible_singleton (.name h)
  | number _ value =>
    obtain ⟨run, hrun, rfl⟩ := h
    rw [Expr.signs]
    exact allLegible_singleton (.number (hand.digits_numeral run hrun).1)
  | string _ text =>
    rw [Expr.signs]
    exact allLegible_singleton (.string h)
  | binary _ op left right =>
    obtain ⟨hop, hleft, hright⟩ := h
    rw [Expr.signs]
    exact allLegible_append (allLegible_grouped (left.legible hleft))
      (allLegible_cons (legible_operator hop) (allLegible_grouped (right.legible hright)))
  | assign _ target value =>
    obtain ⟨htarget, hvalue⟩ := h
    rw [Expr.signs]
    exact allLegible_append (allLegible_grouped (target.legible htarget))
      (allLegible_cons (.mark (c := '=') rfl) (value.legible hvalue))
  | object _ properties =>
    rw [Expr.signs]
    exact allLegible_between (.mark (c := '\x7b') rfl)
      (allLegible_commas (Property.legible_each properties h)) (.mark (c := '\x7d') rfl)
  | list _ items =>
    rw [Expr.signs]
    exact allLegible_between (.mark (c := '[') rfl)
      (allLegible_commas (Expr.legible_each items h)) (.mark (c := ']') rfl)
  | member _ object property computed =>
    obtain ⟨hobject, hproperty, _⟩ := h
    have hinner := property.legible hproperty
    rw [Expr.signs]
    refine allLegible_append (allLegible_grouped (object.legible hobject)) ?_
    split
    · exact allLegible_between (.mark (c := '[') rfl) hinner (.mark (c := ']') rfl)
    · exact allLegible_cons (.mark (c := '.') rfl) hinner
  | call _ callee args =>
    obtain ⟨hcallee, hargs⟩ := h
    rw [Expr.signs]
    exact allLegible_append (allLegible_grouped (callee.legible hcallee))
      (allLegible_between (.mark (c := '(') rfl) (allLegible_commas (Expr.legible_each args hargs))
        (.mark (c := ')') rfl))

theorem Expr.legible_each (es : List Expr) (h : Expr.AllWellFormed es) :
    ∀ signs ∈ Expr.signsEach hand.digits es, AllLegible signs := by
  cases es with
  | nil => exact List.forall_mem_nil _
  | cons e rest =>
    rw [Expr.signsEach]
    exact List.forall_mem_cons.2 ⟨e.legible h.1, Expr.legible_each rest h.2⟩

theorem Property.legible (p : Property) (h : p.WellFormed) :
    AllLegible (p.signs hand.digits) := by
  obtain ⟨_, key, value⟩ := p
  obtain ⟨hkey, hvalue⟩ := h
  rw [Property.signs]
  split
  · exact allLegible_singleton (.name hkey)
  · next hpresent =>
    rcases hvalue with rfl | hvalue
    · exact absurd rfl hpresent
    · exact allLegible_cons (.name hkey)
        (allLegible_cons (.mark (c := ':') rfl) (value.legible hvalue))

theorem Property.legible_each (ps : List Property) (h : Property.AllWellFormed ps) :
    ∀ signs ∈ Property.signsEach hand.digits ps, AllLegible signs := by
  cases ps with
  | nil => exact List.forall_mem_nil _
  | cons p rest =>
    rw [Property.signsEach]
    exact List.forall_mem_cons.2 ⟨p.legible h.1, Property.legible_each rest h.2⟩

end

theorem Statement.legible {s : Statement} (h : s.WellFormed) :
    AllLegible (s.signs hand.digits) := by
  have hsemicolon : AllLegible [⟨.semicolon, ";"⟩] := allLegible_singleton (.mark (c := ';') rfl)
  cases s with
  | expression e => exact allLegible_append (e.legible hand h) hsemicolon
  | declaration _ constant name value =>
    obtain ⟨hname, hvalue⟩ := h
    unfold Statement.signs
    refine allLegible_cons ?_ (allLegible_cons (.name hname) (allLegible_append ?_ hsemicolon))
    · cases constant
      · exact legible_let
      · exact legible_const
    · split
      · exact List.forall_mem_nil _
      · next hpresent =>
        rcases hvalue with hvalue | ⟨rfl, _⟩
        · exact allLegible_cons (.mark (c := '=') rfl) (value.legible hand hvalue)
        · exact absurd rfl hpresent

theorem Program.legible {p : Program} (h : p.WellFormed) : AllLegible (p.signs hand.digits) := by
  intro sign hsign
  obtain ⟨s, hs, hmem⟩ := List.mem_flatMap.1 hsign
  exact Statement.legible hand (h s hs) sign hmem

/-! ## §2. Tokens with given signs. -/

/-- The place that nothing has. -/
def Span.forget (_ : Span) : Span := .unknown

section Split

variable {ts : List Token} {a b : Sign} {l r : List Sign}

theorem Token.kind_of_sign {t : Token} {kind : TokenKind} {text : Text}
    (h : t.sign = ⟨kind, text⟩) : t.kind = kind ∧ t.lexeme = text := by
  cases h
  exact ⟨rfl, rfl⟩

theorem exists_of_signs_infix (h : ts.map Token.sign = l ++ a :: r) :
    ∃ us t vs, ts = us ++ t :: vs ∧ us.map Token.sign = l ∧ t.sign = a ∧
      vs.map Token.sign = r := by
  obtain ⟨us, rest, rfl, hus, hrest⟩ := List.map_eq_append_iff.1 h
  obtain ⟨t, vs, rfl, ht, hvs⟩ := List.map_eq_cons_iff.1 hrest
  exact ⟨us, t, vs, rfl, hus, ht, hvs⟩

theorem exists_of_signs_between (h : ts.map Token.sign = a :: (l ++ [b])) :
    ∃ t us u, ts = t :: (us ++ [u]) ∧ t.sign = a ∧ us.map Token.sign = l ∧ u.sign = b := by
  obtain ⟨t, rest, rfl, ht, hrest⟩ := List.map_eq_cons_iff.1 h
  obtain ⟨us, u, vs, rfl, hus, hu, hvs⟩ := exists_of_signs_infix hrest
  obtain rfl := List.map_eq_nil_iff.1 hvs
  exact ⟨t, us, u, rfl, ht, hus, hu⟩

/-- A property is a name, alone or with a colon and a value. -/
theorem exists_of_signs_property {digits : Float → Text} {span : Span} {key : Text} {value : Expr}
    (h : ts.map Token.sign = Property.signs digits (.mk span key value)) :
    ∃ t us, ts = t :: us ∧ (t.kind = .identifier ∧ t.lexeme = key) ∧
      ((value = .absent ∧ us = []) ∨ ∃ u vs, us = u :: vs ∧ u.kind = .colon ∧
        ¬ value.isAbsent = true ∧ vs.map Token.sign = value.signs digits) := by
  rw [Property.signs] at h
  split at h
  · next habsent =>
    obtain ⟨t, us, rfl, ht, hus⟩ := List.map_eq_cons_iff.1 h
    refine ⟨t, us, rfl, Token.kind_of_sign ht, .inl ⟨?_, List.map_eq_nil_iff.1 hus⟩⟩
    cases value with
    | absent => rfl
    | _ => cases habsent
  · next hpresent =>
    obtain ⟨t, us, rfl, ht, hus⟩ := List.map_eq_cons_iff.1 h
    obtain ⟨u, vs, rfl, hu, hvs⟩ := List.map_eq_cons_iff.1 hus
    exact ⟨t, _, rfl, Token.kind_of_sign ht,
      .inr ⟨u, vs, rfl, (Token.kind_of_sign hu).1, hpresent, hvs⟩⟩

end Split

/-! ## §3. Tokens with the signs of a program derive it. -/

/-- An atom is a primary expression. -/
theorem Expr.derives_atom {e : Expr} (hatom : e.isAtom = true) (h : e.WellFormed)
    {ts : List Token} (hts : ts.map Token.sign = e.signs hand.digits) :
    Derives unmarked (.primary (e.mapSpan Span.forget)) ts := by
  cases e with
  | identifier _ name =>
    rw [Expr.signs] at hts
    obtain ⟨t, us, rfl, ht, hus⟩ := List.map_eq_cons_iff.1 hts
    obtain rfl := List.map_eq_nil_iff.1 hus
    obtain ⟨hkind, rfl⟩ := Token.kind_of_sign ht
    exact .name hkind
  | number _ value =>
    obtain ⟨run, hrun, rfl⟩ := h
    rw [Expr.signs] at hts
    obtain ⟨t, us, rfl, ht, hus⟩ := List.map_eq_cons_iff.1 hts
    obtain rfl := List.map_eq_nil_iff.1 hus
    obtain ⟨hkind, hlexeme⟩ := Token.kind_of_sign ht
    -- the hand may choose other digits, but their value is the same
    obtain ⟨hdigits, hvalue⟩ := hand.digits_numeral run hrun
    refine .number hkind ?_
    rw [hlexeme, hdigits.ofText?, hvalue]
  | string _ text =>
    rw [Expr.signs] at hts
    obtain ⟨t, us, rfl, ht, hus⟩ := List.map_eq_cons_iff.1 hts
    obtain rfl := List.map_eq_nil_iff.1 hus
    obtain ⟨hkind, rfl⟩ := Token.kind_of_sign ht
    exact .string hkind
  | _ => cases hatom

/-- A part that is grouped where it must be is a primary expression. -/
theorem Expr.derives_grouped {e : Expr} (h : e.WellFormed)
    (hexpression : ∀ us : List Token, us.map Token.sign = e.signs hand.digits →
      Derives unmarked (.expression (e.mapSpan Span.forget)) us)
    {ts : List Token} (hts : ts.map Token.sign = e.grouped (e.signs hand.digits)) :
    Derives unmarked (.primary (e.mapSpan Span.forget)) ts := by
  unfold Expr.grouped at hts
  split at hts
  · next hatom => exact e.derives_atom hand hatom h hts
  · obtain ⟨t, us, u, rfl, ht, hus, hu⟩ := exists_of_signs_between hts
    exact .group (Token.kind_of_sign ht).1 (hexpression us hus) (Token.kind_of_sign hu).1

section Levels

variable {e : Expr} {ts : List Token}

theorem Derives.toCall (h : Derives unmarked (.primary e) ts) : Derives unmarked (.call e) ts :=
  .callee (.base h)

theorem Derives.toMultiplicative (h : Derives unmarked (.primary e) ts) :
    Derives unmarked (.multiplicative e) ts := .factor h.toCall

theorem Derives.toOperand (h : Derives unmarked (.primary e) ts) :
    Derives unmarked (.operand e) ts := .sum (.term h.toMultiplicative)

end Levels

/-- Two primary expressions with an operator between them. -/
theorem derives_binary {op : Text} {left right : Expr} {ts us : List Token} {t : Token}
    (hop : op ∈ additiveOperators ++ multiplicativeOperators)
    (hleft : Derives unmarked (.primary left) ts) (ht : t.sign = ⟨.binaryOperator, op⟩)
    (hright : Derives unmarked (.primary right) us) :
    Derives unmarked (.expression (.binary .unknown op left right)) (ts ++ t :: us) := by
  obtain ⟨hkind, rfl⟩ := Token.kind_of_sign ht
  rcases List.mem_append.1 hop with hplus | htimes
  · exact .value (.sum (.plus (.term hleft.toMultiplicative) ⟨hkind, hplus⟩
      hright.toMultiplicative))
  · exact .value (.sum (.term (.times hleft.toMultiplicative ⟨hkind, htimes⟩ hright.toCall)))

/-- Arguments are items of a list as well. -/
theorem Derives.items_of_argumentList {mark : List Token → Span} {es : List Expr}
    {ts : List Token} (h : Derives mark (.argumentList es) ts) : Derives mark (.items es) ts := by
  -- the phrase is an index of the induction, so it has to be a variable
  generalize hp : Phrase.argumentList es = phrase at h
  induction h generalizing es with
  | argument he _ =>
    cases hp
    exact .item he
  | argumentMore he hc _ _ ih =>
    cases hp
    exact .itemMore he hc (ih rfl)
  | _ => cases hp

section Lists

variable {es : List Expr} {ts : List Token}
  (hlist : es ≠ [] → Derives unmarked (.argumentList (Expr.mapSpanAll Span.forget es)) ts)
  (hts : ts.map Token.sign = Sign.commas (Expr.signsEach hand.digits es))

include hlist hts

theorem items_of_argumentList :
    Derives unmarked (.items (Expr.mapSpanAll Span.forget es)) ts := by
  cases es with
  | nil =>
    obtain rfl := List.map_eq_nil_iff.1 hts
    exact .noItems
  | cons e rest => exact (hlist (List.cons_ne_nil _ _)).items_of_argumentList

theorem arguments_of_argumentList :
    Derives unmarked (.arguments (Expr.mapSpanAll Span.forget es)) ts := by
  cases es with
  | nil =>
    obtain rfl := List.map_eq_nil_iff.1 hts
    exact .noArguments
  | cons e rest => exact .someArguments (hlist (List.cons_ne_nil _ _))

end Lists

mutual

/-- **Tokens with the signs of a well-formed expression derive it**, wherever they
    stand. -/
theorem Expr.derives_signs (e : Expr) (h : e.WellFormed) (ts : List Token)
    (hts : ts.map Token.sign = e.signs hand.digits) :
    Derives unmarked (.expression (e.mapSpan Span.forget)) ts := by
  cases e with
  | absent => exact h.elim
  | identifier _ name => exact .value (Expr.derives_atom hand rfl h hts).toOperand
  | number _ value => exact .value (Expr.derives_atom hand rfl h hts).toOperand
  | string _ text => exact .value (Expr.derives_atom hand rfl h hts).toOperand
  | binary _ op left right =>
    obtain ⟨hop, hleft, hright⟩ := h
    rw [Expr.signs] at hts
    obtain ⟨us, t, vs, rfl, hus, ht, hvs⟩ := exists_of_signs_infix hts
    exact derives_binary hop (left.derives_grouped hand hleft (left.derives_signs hleft) hus) ht
      (right.derives_grouped hand hright (right.derives_signs hright) hvs)
  | assign _ target value =>
    obtain ⟨htarget, hvalue⟩ := h
    rw [Expr.signs] at hts
    obtain ⟨us, t, vs, rfl, hus, ht, hvs⟩ := exists_of_signs_infix hts
    have hleft := target.derives_grouped hand htarget (target.derives_signs htarget) hus
    exact .assign hleft.toOperand (Token.kind_of_sign ht).1 (value.derives_signs hvalue vs hvs)
  | object _ properties =>
    rw [Expr.signs] at hts
    obtain ⟨t, us, u, rfl, ht, hus, hu⟩ := exists_of_signs_between hts
    exact .value (.object (Token.kind_of_sign ht).1 (Property.derives_signs properties h us hus)
      (Token.kind_of_sign hu).1)
  | list _ items =>
    rw [Expr.signs] at hts
    obtain ⟨t, us, u, rfl, ht, hus, hu⟩ := exists_of_signs_between hts
    exact .value (.list (Token.kind_of_sign ht).1
      (items_of_argumentList hand (fun hne => Expr.derives_argumentList items hne h us hus) hus)
      (Token.kind_of_sign hu).1)
  | member _ object property computed =>
    -- the object is grouped unless it is an atom, so it is a primary expression
    obtain ⟨hobject, hproperty, hname⟩ := h
    rw [Expr.signs] at hts
    obtain ⟨us, vs, rfl, hus, hvs⟩ := List.map_eq_append_iff.1 hts
    have hleft := object.derives_grouped hand hobject (object.derives_signs hobject) hus
    cases computed with
    | true =>
      obtain ⟨t, ws, u, rfl, ht, hws, hu⟩ := exists_of_signs_between hvs
      exact .value (.sum (.term (.factor (.callee (.computed (.base hleft)
        (Token.kind_of_sign ht).1 (property.derives_signs hproperty ws hws)
        (Token.kind_of_sign hu).1)))))
    | false =>
      -- without brackets the property is a name, and a name is one sign
      obtain ⟨span, name, rfl⟩ := hname rfl
      obtain ⟨t, ws, rfl, ht, hws⟩ := List.map_eq_cons_iff.1 hvs
      rw [Expr.signs] at hws
      obtain ⟨u, xs, rfl, hu, hxs⟩ := List.map_eq_cons_iff.1 hws
      obtain rfl := List.map_eq_nil_iff.1 hxs
      obtain ⟨hkind, rfl⟩ := Token.kind_of_sign hu
      exact .value (.sum (.term (.factor (.callee (.dotted (.base hleft)
        (Token.kind_of_sign ht).1 hkind)))))
  | call _ callee args =>
    obtain ⟨hcallee, hargs⟩ := h
    rw [Expr.signs] at hts
    obtain ⟨us, vs, rfl, hus, hvs⟩ := List.map_eq_append_iff.1 hts
    obtain ⟨t, ws, u, rfl, ht, hws, hu⟩ := exists_of_signs_between hvs
    have hleft := callee.derives_grouped hand hcallee (callee.derives_signs hcallee) hus
    exact .value (.sum (.term (.factor (.apply hleft.toCall (Token.kind_of_sign ht).1
      (arguments_of_argumentList hand
        (fun hne => Expr.derives_argumentList args hne hargs ws hws) hws)
      (Token.kind_of_sign hu).1))))

/-- Tokens with the signs of expressions, commas between them, derive arguments. -/
theorem Expr.derives_argumentList (es : List Expr) (hne : es ≠ []) (h : Expr.AllWellFormed es)
    (ts : List Token)
    (hts : ts.map Token.sign = Sign.commas (Expr.signsEach hand.digits es)) :
    Derives unmarked (.argumentList (Expr.mapSpanAll Span.forget es)) ts := by
  cases es with
  | nil => exact absurd rfl hne
  | cons e rest =>
    obtain ⟨he, hrest⟩ := h
    cases rest with
    | nil =>
      simp only [Expr.signsEach, Sign.commas] at hts
      exact .argument (e.derives_signs he ts hts)
    | cons next rest =>
      simp only [Expr.signsEach, Sign.commas] at hts
      obtain ⟨us, t, vs, rfl, hus, ht, hvs⟩ := exists_of_signs_infix hts
      exact .argumentMore (e.derives_signs he us hus) (Token.kind_of_sign ht).1
        (Expr.derives_argumentList (next :: rest) (List.cons_ne_nil _ _) hrest vs hvs)

/-- Tokens with the signs of properties, commas between them, derive the properties. -/
theorem Property.derives_signs (ps : List Property) (h : Property.AllWellFormed ps)
    (ts : List Token)
    (hts : ts.map Token.sign = Sign.commas (Property.signsEach hand.digits ps)) :
    Derives unmarked (.properties (Property.mapSpanAll Span.forget ps)) ts := by
  cases ps with
  | nil =>
    obtain rfl := List.map_eq_nil_iff.1 hts
    exact .noProperties
  | cons p rest =>
    obtain ⟨span, key, value⟩ := p
    obtain ⟨⟨_, hvalue⟩, hrest⟩ := h
    cases rest with
    | nil =>
      simp only [Property.signsEach, Sign.commas] at hts
      obtain ⟨t, us, rfl, ⟨hkey, rfl⟩, hus⟩ := exists_of_signs_property hts
      rcases hus with ⟨rfl, rfl⟩ | ⟨u, vs, rfl, hcolon, hpresent, hvs⟩
      · exact .shorthand hkey
      · have hthere := hvalue.resolve_left fun he => hpresent (by rw [he]; rfl)
        exact .keyed hkey hcolon (value.derives_signs hthere vs hvs)
    | cons next rest =>
      -- a comma is written after every property but the last
      have hcomma : ts.map Token.sign = Property.signs hand.digits (.mk span key value) ++
          ⟨.comma, ","⟩ :: Sign.commas (Property.signsEach hand.digits (next :: rest)) := by
        rw [hts]
        simp only [Property.signsEach, Sign.commas]
      obtain ⟨ws, comma, xs, rfl, hws, hc, hxs⟩ := exists_of_signs_infix hcomma
      have hmore := Property.derives_signs (next :: rest) hrest xs hxs
      have hisComma := (Token.kind_of_sign hc).1
      obtain ⟨t, us, rfl, ⟨hkey, rfl⟩, hus⟩ := exists_of_signs_property hws
      rcases hus with ⟨rfl, rfl⟩ | ⟨u, vs, rfl, hcolon, hpresent, hvs⟩
      · exact .shorthandMore hkey hisComma hmore
      · have hthere := hvalue.resolve_left fun he => hpresent (by rw [he]; rfl)
        exact .keyedMore hkey hcolon (value.derives_signs hthere vs hvs) hisComma hmore

end

/-- Tokens with the signs of a well-formed statement derive it, whatever comes next, and
    end with a semicolon. -/
theorem Statement.derives_signs {s : Statement} (h : s.WellFormed) {ts : List Token}
    (hts : ts.map Token.sign = s.signs hand.digits) (rest : List Token) :
    DerivesStatement unmarked (s.mapSpan Span.forget) ts rest ∧
      Clause.EndsWithSemicolon (s.mapSpan Span.forget, ts) := by
  cases s with
  | expression e =>
    obtain ⟨us, t, vs, rfl, hus, ht, hvs⟩ := exists_of_signs_infix hts
    obtain rfl := List.map_eq_nil_iff.1 hvs
    have hsemicolon := (Token.kind_of_sign ht).1
    exact ⟨.ended (e.derives_signs hand h us hus) hsemicolon, us, t, rfl, hsemicolon⟩
  | declaration _ constant name value =>
    obtain ⟨_, hvalue⟩ := h
    unfold Statement.signs at hts
    obtain ⟨k, rest₁, rfl, hk, hts⟩ := List.map_eq_cons_iff.1 hts
    obtain ⟨n, rest₂, rfl, hn, hts⟩ := List.map_eq_cons_iff.1 hts
    obtain ⟨us, t, vs, rfl, hus, ht, hvs⟩ := exists_of_signs_infix hts
    obtain rfl := List.map_eq_nil_iff.1 hvs
    obtain ⟨hname, rfl⟩ := Token.kind_of_sign hn
    have hsemicolon := (Token.kind_of_sign ht).1
    refine ⟨?_, k :: n :: us, t, rfl, hsemicolon⟩
    rcases hvalue with hvalue | ⟨rfl, rfl⟩
    · -- a well-formed value is not absent, so it was written
      have hpresent : ¬ value.isAbsent = true := fun habsent => by
        cases value with
        | absent => exact hvalue
        | _ => cases habsent
      rw [if_neg hpresent] at hus
      obtain ⟨q, ws, rfl, hq, hws⟩ := List.map_eq_cons_iff.1 hus
      refine .initialized constant ?_ hname (Token.kind_of_sign hq).1
        (value.derives_signs hand hvalue ws hws) (.semicolon hsemicolon)
      cases constant
      · exact (Token.kind_of_sign hk).1
      · exact (Token.kind_of_sign hk).1
    · obtain rfl := List.map_eq_nil_iff.1 hus
      exact .uninitialized (Token.kind_of_sign hk).1 hname (.semicolon hsemicolon)

/-- Tokens with the signs of well-formed statements are clauses that derive them, each
    with a semicolon at its end. -/
theorem exists_clauses_of_signs {body : List Statement} (h : ∀ s ∈ body, s.WellFormed)
    {ts : List Token}
    (hts : ts.map Token.sign = body.flatMap (Statement.signs hand.digits)) :
    ∃ clauses, Clause.Derived unmarked clauses ∧ Clause.tokens clauses = ts ∧
      Clause.statements clauses = body.map (Statement.mapSpan Span.forget) ∧
      ∀ c ∈ clauses, Clause.EndsWithSemicolon c := by
  induction body generalizing ts with
  | nil =>
    obtain rfl := List.map_eq_nil_iff.1 hts
    exact ⟨[], .nil, rfl, rfl, List.forall_mem_nil _⟩
  | cons s body ih =>
    obtain ⟨hs, hbody⟩ := List.forall_mem_cons.1 h
    rw [List.flatMap_cons] at hts
    obtain ⟨us, vs, rfl, hus, hvs⟩ := List.map_eq_append_iff.1 hts
    obtain ⟨clauses, hderived, rfl, hstatements, hends⟩ := ih hbody hvs
    obtain ⟨hd, hend⟩ := Statement.derives_signs hand hs hus (Clause.tokens clauses)
    refine ⟨(s.mapSpan Span.forget, us) :: clauses, .cons hd hderived, rfl, ?_,
      List.forall_mem_cons.2 ⟨hend, hends⟩⟩
    rw [List.map_cons, ← hstatements]
    rfl

/-! ## §4. Reading back. -/

/-- **Every well-formed program can be written down and read back**, by every hand. -/
theorem parse_text (hand : Hand) (p : Program) (h : p.WellFormed) :
    ∃ q, Program.parse (p.text hand) = .ok q ∧ q.clearSpans = p.clearSpans := by
  obtain ⟨ts, stop, htokens, hsigns⟩ := hand.tokenize_render (Program.legible hand h)
  obtain ⟨clauses, hderived, rfl, hstatements, hends⟩ := exists_clauses_of_signs hand h hsigns
  have hprogram : DerivesProgram unmarked clauses (Clause.tokens clauses ++ [.atEnd stop])
      p.clearSpans := by
    refine ⟨hderived, ⟨_, rfl, rfl⟩, ?_⟩
    rw [hstatements]
    rfl
  -- every statement is written with its semicolon
  have hseparated : Clause.Separated clauses :=
    List.pairwise_of_forall_mem_list fun c hc _ _ _ _ => hends c hc
  have hg : ∀ ts, Span.forget (Token.extent ts) = Span.forget (unmarked ts) := fun _ => rfl
  obtain ⟨q, hq, hspans⟩ := hprogram.parse hg htokens hseparated
  refine ⟨q, hq, ?_⟩
  rw [← p.clearSpans_clearSpans]
  exact hspans

/-- `const n = (1 + y).z; (f(n))["k"] = {a};` -/
def nestedProgram : Program where
  span := .unknown
  body := [
    .declaration .unknown true "n" (.member .unknown
      (.binary .unknown "+" (.number .unknown (Number.ofDigits "1")) (.identifier .unknown "y"))
      (.identifier .unknown "z") false),
    .expression (.assign .unknown
      (.member .unknown (.call .unknown (.identifier .unknown "f") [.identifier .unknown "n"])
        (.string .unknown "k") true)
      (.object .unknown [.mk .unknown "a" .absent]))]

/-- A program in which operands, callees and members are nested is read back. -/
theorem parse_text_nested : nestedProgram.WellFormed ∧
    ∃ q, Program.parse (nestedProgram.text .tight) = .ok q ∧
      q.clearSpans = nestedProgram.clearSpans := by
  -- a single letter is a name
  have hname : ∀ c : Char, (Symbol.char c).isWordStart = true →
      Text.IsName (String.utf8EncodeChar c) := by
    intro c hc
    have hone := Text.symbols_char_append c []
    rw [List.append_nil, Text.symbols_nil] at hone
    refine ⟨⟨_, _, hone, hc, List.forall_mem_nil _⟩, ?_, ?_⟩
    · intro hlet
      rw [hlet, Text.symbols_ofString] at hone
      cases hone
    · intro hconst
      rw [hconst, Text.symbols_ofString] at hone
      cases hone
  have hdigit : Text.IsNumeral "1" := by
    refine ⟨by decide, ?_⟩
    rw [Text.symbols_ofString]
    decide
  have hwf : nestedProgram.WellFormed := by
    refine List.forall_mem_cons.2 ⟨⟨hname 'n' (by decide), .inl ⟨⟨?_, ?_, ?_⟩, ?_, ?_⟩⟩,
      List.forall_mem_singleton.2 ⟨⟨⟨?_, ?_, trivial⟩, ?_, ?_⟩, ⟨?_, .inl rfl⟩, trivial⟩⟩
    · decide
    · exact ⟨"1", hdigit, rfl⟩
    · exact hname 'y' (by decide)
    · exact hname 'z' (by decide)
    · exact fun _ => ⟨_, _, rfl⟩
    · exact hname 'f' (by decide)
    · exact hname 'n' (by decide)
    · show 0x22 ∉ Text.ofString "k"
      decide
    · exact fun hcomputed => by cases hcomputed
    · exact hname 'a' (by decide)
  exact ⟨hwf, parse_text .tight nestedProgram hwf⟩

end Scriptorium
