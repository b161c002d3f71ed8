/-
  Scriptorium.Proofs.Values.Reading: printed data is source text.

  The text of a datum is its literal in the neat hand.  So the text is read as that literal,
  and evaluating the literal builds the datum again.  Between the two stand only blanks:
  places are the one thing in which the program that is read differs from the literal.

  Main results:
    * `Heap.Holds.text_eq`: a value that holds a datum is printed as the datum.
    * `parse_expression`: an expression is read without a semicolon, too.
    * `printed_data_is_source`: printing, reading and evaluating give the same data.
-/

import Scriptorium.Proofs.Printing.Neat
import Scriptorium.Proofs.Printing.RoundTrip
import Scriptorium.Proofs.Values.Data
import Scriptorium.Proofs.Values.Depiction

namespace Scriptorium

/-! ## §1. Clear texts. -/

namespace Text

variable {t : Text}

/-- Clear symbols are not escaped. -/
theorem escape_of_clear {l : List Symbol} (h : ∀ s ∈ l, s.IsClear) :
    (l.flatMap (escapeSymbol '"')).flatMap String.utf8EncodeChar = ofSymbols l := by
  induction l with
  | nil => rfl
  | cons s rest ih =>
    obtain ⟨⟨c, rfl, hprintable, hquote, hbackslash⟩, hrest⟩ := List.forall_mem_cons.1 h
    have hkept : escapeSymbol '"' (.char c) = [c] := by
      show escapeChar '"' c = [c]
      simp [escapeChar, hprintable, hquote, hbackslash]
    rw [List.flatMap_cons, hkept, List.singleton_append, List.flatMap_cons, ih hrest,
      ofSymbols_cons]
    rfl

/-- A clear text stands for itself between quotes. -/
theorem IsClear.quote_eq (h : t.IsClear) : t.quote = 0x22 :: (t ++ [0x22]) := by
  unfold quote ofString
  rw [String.toList_ofList, List.flatMap_append, List.flatMap_cons, escape_of_clear h,
    ofSymbols_symbols]
  rfl

/-- A clear text has no quote in it. -/
theorem IsClear.unquoted (h : t.IsClear) : 0x22 ∉ t := by
  intro hmem
  rw [← ofSymbols_symbols t] at hmem
  obtain ⟨s, hs, hb⟩ := List.mem_flatMap.1 hmem
  obtain ⟨c, rfl, _, hquote, _⟩ := h s hs
  rcases bytes_of_mem_ascii (by decide) hb with hc | hc
  · cases hc
    exact hquote rfl
  · cases hc

end Text

/-! ## §2. The text of a datum. -/

open Sign

/-- The text of a datum on its own: its literal in the neat hand, but a string is bare. -/
noncomputable def Datum.text : Datum → Text
  | .string t _ => t
  | d => Hand.neat.render (d.literal.signs Hand.neat.digits)

/-- The signs of a literal can stand next to any marks. -/
theorem Datum.isPart (d : Datum) : IsPart (d.literal.signs Hand.neat.digits) := by
  cases d with
  | null => exact .singleton (by decide) (by decide) _
  | boolean b => exact .singleton (by decide) (by decide) _
  | number x hx => exact .singleton (by decide) (by decide) _
  | string t ht => exact .singleton (by decide) (by decide) _
  | list items =>
    rw [literal, Expr.signs]
    exact .between (by decide) (by decide) _
  | object fields =>
    rw [literal, Expr.signs]
    exact .between (by decide) (by decide) _

theorem Datum.isPart_each (items : List Datum) :
    ∀ part ∈ Expr.signsEach Hand.neat.digits (Datum.literals items), IsPart part := by
  induction items with
  | nil => exact List.forall_mem_nil _
  | cons d items ih =>
    rw [literals, Expr.signsEach]
    exact List.forall_mem_cons.2 ⟨d.isPart, ih⟩

theorem Datum.property_signs (key : Text.Name) (d : Datum) :
    Property.signs Hand.neat.digits (.mk .unknown key.1 d.literal) =
      [.name key.1, ⟨.colon, ":"⟩] ++ d.literal.signs Hand.neat.digits := by
  have hpresent : ¬ d.literal.isAbsent = true := by
    cases d <;> exact fun h => nomatch h
  rw [Property.signs, if_neg hpresent]
  rfl

theorem Datum.isPart_properties (fields : List (Text.Name × Datum)) :
    ∀ part ∈ Property.signsEach Hand.neat.digits (Datum.properties fields), IsPart part := by
  induction fields with
  | nil => exact List.forall_mem_nil _
  | cons field fields ih =>
    obtain ⟨key, d⟩ := field
    rw [properties, Property.signsEach, property_signs]
    refine List.forall_mem_cons.2 ⟨⟨⟨_, _, rfl, ?_⟩, d.isPart.ends.append _⟩, ih⟩
    show TokenKind.identifier ≠ .closeBrace
    decide

/-- A property in the neat hand. -/
theorem Datum.render_property (key : Text.Name) (d : Datum) :
    Hand.neat.render (Property.signs Hand.neat.digits (.mk .unknown key.1 d.literal)) =
      key.1 ++ ": " ++ Hand.neat.render (d.literal.signs Hand.neat.digits) := by
  have hname : EndsPart [.name key.1] := ⟨[], _, rfl, (by decide : TokenKind.identifier ∉ spacing)⟩
  rw [property_signs]
  show Hand.neat.render ([.name key.1] ++ ⟨.colon, ":"⟩ :: d.literal.signs Hand.neat.digits) = _
  rw [Hand.neat_render_before rfl hname, Hand.neat_render_after rfl d.isPart.begins,
    List.append_assoc]
  rfl

namespace Heap

variable {h : Heap}

mutual

/-- **A value that holds a datum is spelled as the literal of the datum**, in the neat hand. -/
theorem Holds.spells (v : Value) (d : Datum) (hv : h.Holds v d) :
    h.Spells v (Hand.neat.render (d.literal.signs Hand.neat.digits)) := by
  cases d with
  | null =>
    obtain rfl := hv
    exact .inline rfl
  | boolean b =>
    obtain rfl := hv
    exact .inline (v := .boolean b) rfl
  | number x hx =>
    obtain rfl := hv
    have hraw : Hand.neat.render ((Datum.number x hx).literal.signs Hand.neat.digits) =
        Number.text x := Hand.neat_digits hx
    rw [hraw]
    exact .inline (v := .number x) rfl
  | string t ht =>
    obtain rfl := hv
    have hraw : Hand.neat.render ((Datum.string t ht).literal.signs Hand.neat.digits) =
        t.quote := ht.quote_eq.symm
    rw [hraw]
    exact .inline (v := .string t) rfl
  | list items =>
    obtain ⟨a, ws, rfl, hc, hws⟩ := hv
    obtain ⟨hmembers, htexts⟩ := HoldsEach.spells ws items hws
    rw [Datum.literal, Expr.signs, Hand.neat_render_list (Datum.isPart_each items), ← htexts]
    exact .container (v := .ref a) (h.render []) hc hmembers
  | object fields =>
    obtain ⟨a, ws, rfl, hc, _, hws⟩ := hv
    obtain ⟨hmembers, htexts⟩ := HoldsFields.spells ws.entries fields hws
    have hlength := congrArg List.length htexts
    rw [List.length_map, List.length_map] at hlength
    rw [Datum.literal, Expr.signs, Hand.neat_render_object (Datum.isPart_properties fields),
      ← htexts, ← hlength, OrderedMap.length_entries]
    refine .container (v := .ref a) (c := .object ws) (h.render []) hc ?_
    intro w hw
    obtain ⟨entry, hentry, rfl⟩ := List.mem_map.1 hw
    exact hmembers entry hentry

theorem HoldsEach.spells (ws : List Value) (items : List Datum) (hws : h.HoldsEach ws items) :
    (∀ w ∈ ws, h.Spells w (h.render [] w)) ∧ ws.map (h.render []) =
      (Expr.signsEach Hand.neat.digits (Datum.literals items)).map Hand.neat.render := by
  cases items with
  | nil =>
    obtain rfl := hws
    exact ⟨List.forall_mem_nil _, rfl⟩
  | cons d items =>
    obtain ⟨w, rest, rfl, hw, hrest⟩ := hws
    have hspells := Holds.spells w d hw
    obtain ⟨hall, htexts⟩ := HoldsEach.spells rest items hrest
    rw [Datum.literals, Expr.signsEach, List.map_cons, List.map_cons, htexts, hspells.eq_render]
    rw [hspells.eq_render] at hspells
    exact ⟨List.forall_mem_cons.2 ⟨hspells, hall⟩, rfl⟩

theorem HoldsFields.spells (ws : List (Text × Value)) (fields : List (Text.Name × Datum))
    (hws : h.HoldsFields ws fields) :
    (∀ entry ∈ ws, h.Spells entry.2 (h.render [] entry.2)) ∧
      (ws.map fun entry => entry.1 ++ Text.ofString ": " ++ h.render [] entry.2) =
        (Property.signsEach Hand.neat.digits (Datum.properties fields)).map Hand.neat.render := by
  cases fields with
  | nil =>
    obtain rfl := hws
    exact ⟨List.forall_mem_nil _, rfl⟩
  | cons field fields =>
    obtain ⟨key, d⟩ := field
    obtain ⟨w, rest, rfl, hw, hrest⟩ := hws
    have hspells := Holds.spells w d hw
    obtain ⟨hall, htexts⟩ := HoldsFields.spells rest fields hrest
    rw [Datum.properties, Property.signsEach, List.map_cons, List.map_cons, htexts,
      Datum.render_property, hspells.eq_render]
    rw [hspells.eq_render] at hspells
    exact ⟨List.forall_mem_cons.2 ⟨hspells, hall⟩, rfl⟩

end

/-- A value that holds a datum is printed as the datum. -/
theorem Holds.text_eq {v : Value} {d : Datum} (hv : h.Holds v d) : h.text v = d.text := by
  have hspells := Holds.spells v d hv
  rw [Heap.text_eq, ← hspells.eq_render]
  cases d with
  | list items =>
    obtain ⟨a, _, rfl, _, _⟩ := hv
    rfl
  | object fields =>
    obtain ⟨a, _, rfl, _, _⟩ := hv
    rfl
  | _ =>
    obtain rfl := hv
    rfl

end Heap

/-! ## §3. Reading the text. -/

/-- A string of letters, first, and then letters or digits is a name if it is no keyword. -/
theorem Text.isName_ofString {s : String} {c : Char} {l : List Char} (hs : s.toList = c :: l)
    (h : (Symbol.char c).isWordStart = true ∧ l.all (fun d => (Symbol.char d).isWordPart) = true ∧
      ofString s ≠ "let" ∧ ofString s ≠ "const") : Text.IsName s := by
  obtain ⟨hstart, hparts, hkeyword⟩ := h
  refine ⟨⟨.char c, l.map .char, ?_, hstart, ?_⟩, hkeyword⟩
  · rw [symbols_ofString, hs, List.map_cons]
  · intro x hx
    obtain ⟨d, hd, rfl⟩ := List.mem_map.1 hx
    exact List.all_eq_true.1 hparts d hd

mutual

/-- The literal of a datum can be written. -/
theorem Datum.literal_wellFormed (d : Datum) : d.literal.WellFormed := by
  cases d with
  | null => exact Text.isName_ofString (s := "null") rfl (by decide)
  | boolean b =>
    cases b with
    | true => exact Text.isName_ofString (s := "true") rfl (by decide)
    | false => exact Text.isName_ofString (s := "false") rfl (by decide)
  | number x hx => exact ⟨Number.text x, Number.ofDigits_text hx⟩
  | string t ht => exact ht.unquoted
  | list items => exact Datum.literals_wellFormed items
  | object fields => exact Datum.properties_wellFormed fields

theorem Datum.literals_wellFormed (items : List Datum) :
    Expr.AllWellFormed (Datum.literals items) := by
  cases items with
  | nil => exact trivial
  | cons d items => exact ⟨d.literal_wellFormed, Datum.literals_wellFormed items⟩

theorem Datum.properties_wellFormed (fields : List (Text.Name × Datum)) :
    Property.AllWellFormed (Datum.properties fields) := by
  cases fields with
  | nil => exact trivial
  | cons field fields =>
    obtain ⟨key, d⟩ := field
    exact ⟨⟨key.2, .inr d.literal_wellFormed⟩, Datum.properties_wellFormed fields⟩

end

/-- The program that is one expression. -/
def Expr.program (e : Expr) : Program := ⟨.unknown, [.expression e]⟩

/-- **An expression in any hand is read as a program**, without a semicolon. -/
theorem parse_expression (hand : Hand) (e : Expr) (h : e.WellFormed) :
    ∃ p, Program.parse (hand.render (e.signs hand.digits)) = .ok p ∧
      p.clearSpans = e.program.clearSpans := by
  obtain ⟨ts, stop, htokens, hsigns⟩ := hand.tokenize_render (Expr.legible hand e h)
  have hclause : Clause.Derived unmarked [(.expression (e.mapSpan Span.forget), ts)] :=
    .cons (.bare (e.derives_signs hand h ts hsigns)) .nil
  have htokens_eq : Clause.tokens [(.expression (e.mapSpan Span.forget), ts)] = ts := by
    simp [Clause.tokens]
  have hprogram : DerivesProgram unmarked [(.expression (e.mapSpan Span.forget), ts)]
      (ts ++ [.atEnd stop]) e.program.clearSpans :=
    ⟨hclause, ⟨.atEnd stop, rfl, by rw [htokens_eq]⟩, rfl⟩
  have hg : ∀ ts, Span.forget (Token.extent ts) = Span.forget (unmarked ts) := fun _ => rfl
  obtain ⟨p, hp, hspans⟩ := hprogram.parse hg htokens (List.pairwise_singleton _ _)
  refine ⟨p, hp, ?_⟩
  rw [← e.program.clearSpans_clearSpans]
  exact hspans

/-! ## §4. Printed data is source text. -/

/-- A program that is the literal of a datum, wherever it was read, comes to the datum in a
    global scope without a limit. -/
theorem Datum.evaluates_program {settings : Settings} {scope : ScopeId} {natives : List Native}
    {h : Heap} {v : Value} {d : Datum} (hlimit : settings.stepLimit ≤ 0) (hv : h.Holds v d)
    {p : Program} (hp : p.clearSpans = d.literal.program.clearSpans) (m : Machine)
    (hglobal : m.scopes.IsGlobal scope natives) :
    ∃ w m', evalProgram settings scope p m = .ok w m' ∧ m'.heap.Holds w d ∧ m.GrowsTo m' := by
  -- the program is one expression, the literal but for its places
  obtain ⟨e, hbody, he⟩ : ∃ e, p.body = [.expression e] ∧
      e.mapSpan (fun _ => .unknown) = d.literal.mapSpan fun _ => .unknown := by
    obtain ⟨_, hbodies⟩ := Program.mk.inj hp
    obtain ⟨s, hs, hstatement⟩ := List.map_eq_singleton_iff.1 hbodies
    cases s with
    | declaration => cases hstatement
    | expression e => exact ⟨e, hs, Statement.expression.inj hstatement⟩
  obtain ⟨m₁, hvisit, hgrows₁⟩ := Eval.visit_unlimited hlimit p.span.start m
  obtain ⟨kind, hkind⟩ : ∃ kind, (Statement.expression e).kind? = some kind := by
    have hsame : e.kind? = d.literal.kind? := by
      rw [← Expr.kind?_mapSpan (fun _ => .unknown) e, he, Expr.kind?_mapSpan]
    show ∃ kind, e.kind? = some kind
    rw [hsame]
    cases d <;> exact ⟨_, rfl⟩
  -- the statement is logged before it is evaluated
  let logged : Machine :=
    { m₁ with log := m₁.log ++ [⟨0, kind, (Statement.expression e).span.start⟩] }
  have hlogged : m₁.GrowsTo logged := ⟨fun _ _ hc => hc, rfl, rfl⟩
  have hglobal' : logged.scopes.IsGlobal scope natives := by
    show m₁.scopes.IsGlobal scope natives
    rw [hgrows₁.scopes]
    exact hglobal
  obtain ⟨w, m₂, heval, hw, hgrows₂⟩ := d.evaluates hlimit v hv e he logged hglobal'
  refine ⟨w, m₂, ?_, hw, (hgrows₁.trans hlogged).trans hgrows₂⟩
  unfold evalProgram
  rw [Eval.bind_ok hvisit, hbody, evalBody, hkind]
  show (evalExpr settings scope e >>= fun v => evalBody settings scope 1 v []) logged = _
  rw [Eval.bind_ok heval]
  rfl

/-- **Printed data is source text for the same data.**  The text of an acyclic value of plain
    parts, which is no string itself, is a program.  In a global scope of any session without a
    limit the program comes to a value that holds the same datum, and so has the same text.
    All bindings of the session and all its containers are as before, and nothing is
    printed. -/
theorem printed_data_is_source (h : Heap) (v : Value) (hacyclic : h.Acyclic v)
    (hdata : h.IsData v) (halone : ∀ t, v ≠ .string t) :
    ∃ p, Program.parse (h.text v) = .ok p ∧
      ∀ (i : Interpreter) (scope : ScopeId) (natives : List Native),
        i.machine.scopes.IsGlobal scope natives → i.settings.stepLimit ≤ 0 →
        ∃ w j, i.evaluate scope (.program p) = (.ok w, j) ∧
          (∃ d, h.Holds v d ∧ j.machine.heap.Holds w d) ∧ j.text w = h.text v ∧
          j.machine.scopes = i.machine.scopes ∧
          (∀ a c, i.machine.heap.get? a = some c → j.machine.heap.get? a = some c) ∧
          j.printed = [] := by
  obtain ⟨d, hv⟩ := Heap.exists_holds hacyclic hdata
  have htext : d.text = Hand.neat.render (d.literal.signs Hand.neat.digits) := by
    cases d with
    | string t ht => exact absurd hv (halone t)
    | _ => rfl
  obtain ⟨p, hparse, hspans⟩ := parse_expression Hand.neat d.literal d.literal_wellFormed
  rw [← htext, ← hv.text_eq] at hparse
  refine ⟨p, hparse, ?_⟩
  intro i scope natives hglobal hlimit
  obtain ⟨w, m, heval, hw, hgrows⟩ := Datum.evaluates_program hlimit hv hspans i.start hglobal
  refine ⟨w, { i with machine := m }, ?_, ⟨d, hv, hw⟩, ?_, hgrows.scopes, hgrows.heap,
    hgrows.output⟩
  · unfold Interpreter.evaluate EStateM.run
    have hrun : evalNode i.settings scope (.program p) i.start = .ok w m := heval
    rw [hrun]
  · show Heap.text _ w = _
    rw [hw.text_eq, hv.text_eq]

/-- A list that has an empty object in two places, read in a new session. -/
theorem printed_data_is_source_nested :
    let h : Heap := ⟨#[.list [.number 300000000000000000000, .ref 1, .ref 2],
      .object ((OrderedMap.empty.insert (Text.ofString "k") (Value.string "é b")).insert "true"
        (.ref 2)),
      .object .empty]⟩
    let i := Interpreter.new ⟨0, .collect, .bare⟩ []
    h.text (.ref 0) = "[300000000000000000000, \x7b k: \"é b\", true: \x7b\x7d \x7d, \x7b\x7d]" ∧
    ∃ p w j, Program.parse (h.text (.ref 0)) = .ok p ∧
      i.evaluate i.global (.program p) = (.ok w, j) ∧
      (∃ d, h.Holds (.ref 0) d ∧ j.machine.heap.Holds w d) ∧ j.text w = h.text (.ref 0) ∧
      j.machine.scopes = i.machine.scopes := by
  intro h i
  have hempty : h.Acyclic (.ref 2) :=
    Heap.acyclic_of_members (c := .object .empty) rfl (List.forall_mem_nil _)
  have hobject : h.Acyclic (.ref 1) := by
    refine Heap.acyclic_of_members rfl ?_
    show ∀ w ∈ [Value.string "é b", .ref 2], h.Acyclic w
    exact List.forall_mem_cons.2 ⟨Heap.acyclic_of_no_container rfl, by simpa using hempty⟩
  have hlist : h.Acyclic (.ref 0) := by
    refine Heap.acyclic_of_members rfl ?_
    show ∀ w ∈ [Value.number 300000000000000000000, .ref 1, .ref 2], h.Acyclic w
    exact List.forall_mem_cons.2 ⟨Heap.acyclic_of_no_container rfl, by simp [hobject, hempty]⟩
  have hclear : Text.IsClear "é b" := by
    have hchars : "é b".toList.all (fun c =>
        Text.isPrintable c.toNat && decide (c ≠ '"' ∧ c ≠ '\\')) = true := by decide
    intro s hs
    rw [Text.symbols_ofString] at hs
    obtain ⟨c, hc, rfl⟩ := List.mem_map.1 hs
    exact ⟨c, rfl, by simpa using List.all_eq_true.1 hchars c hc⟩
  have hnames : ∀ key ∈ [Text.ofString "k", Text.ofString "true"], key.IsName :=
    List.forall_mem_cons.2 ⟨Text.isName_ofString (s := "k") rfl (by decide),
      List.forall_mem_singleton.2 (Text.isName_ofString (s := "true") rfl (by decide))⟩
  have hplain : (Value.ref 2).IsPlain h :=
    ⟨_, rfl, OrderedMap.Agrees.empty, List.forall_mem_nil _⟩
  have hagrees : OrderedMap.Agrees
      ((OrderedMap.empty.insert (Text.ofString "k") (Value.string "é b")).insert "true"
        (.ref 2)) :=
    (OrderedMap.Agrees.empty.insert _ _).insert _ _
  have hdata : h.IsData (.ref 0) := by
    refine ⟨⟨_, rfl, trivial, List.forall_mem_nil _⟩, ?_⟩
    intro a c _ hc w hw
    rcases a with _ | _ | _ | a
    · cases hc
      rcases List.mem_cons.1 hw with rfl | hw
      · exact (by decide : Number.isNatural 300000000000000000000 = true)
      · rcases List.mem_cons.1 hw with rfl | hw
        · exact ⟨_, rfl, hagrees, hnames⟩
        · obtain rfl := List.mem_singleton.1 hw
          exact hplain
    · cases hc
      rcases List.mem_cons.1 hw with rfl | hw
      · exact hclear
      · obtain rfl := List.mem_singleton.1 hw
        exact hplain
    · cases hc
      cases hw
    · cases hc
  obtain ⟨p, hparse, hread⟩ := printed_data_is_source h (.ref 0) hlist hdata (by simp)
  have hglobal := Interpreter.new_isGlobal ⟨0, .collect, .bare⟩ []
  obtain ⟨w, j, heval, hsame, htext, hscopes, _⟩ := hread i i.global _ hglobal (by decide)
  refine ⟨?_, p, w, j, hparse, heval, hsame, htext, hscopes⟩
  decide +kernel

end Scriptorium
