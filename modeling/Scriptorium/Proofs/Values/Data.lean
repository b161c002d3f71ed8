/-
  Scriptorium.Proofs.Values.Data: plain data as trees.

  A datum is a value written out in full: `null`, a truth value, a natural number, a string
  that needs no escapes, or a list or an object of data.  It says what a value is regardless
  of where its containers lie and of which of them are shared, so that two values of two
  heaps are the same data if they hold the same datum.

  Every datum has a literal, and evaluating the literal, wherever it was read, where `true`,
  `false` and `null` mean what they say builds the datum from new containers.

  Main results:
    * `Heap.exists_holds`: an acyclic value of plain parts holds a datum.
    * `Heap.Holds.grow`: it goes on to hold it while containers are added.
    * `Datum.evaluates`: what the literal of a datum comes to.
-/

import Scriptorium.Proofs.Evaluation.Constants
import Scriptorium.Proofs.Numbers.Whole
import Scriptorium.Proofs.Printing.Writing
import Scriptorium.Proofs.Values.Links

namespace Scriptorium

/-! ## §1. Plain values. -/

/-- Whether the symbol stands for itself between quotes: it is a printable character other
    than the double quote and the backslash. -/
def Symbol.IsClear (s : Symbol) : Prop :=
  ∃ c, s = .char c ∧ Text.isPrintable c.toNat = true ∧ c ≠ '"' ∧ c ≠ '\\'

/-- Whether all symbols of the text stand for themselves between quotes. -/
def Text.IsClear (t : Text) : Prop := ∀ s ∈ t.symbols, s.IsClear

/-- Whether the value can be a part of plain data: it is a number only if it is natural, a
    string only if it is clear, an object only if its keys are names and in step with its
    fields, and it is nothing that hosts bring in. -/
def Value.IsPlain (h : Heap) : Value → Prop
  | .null | .boolean _ => True
  | .number x => Number.isNatural x = true
  | .string t => t.IsClear
  | .ref a => ∃ c, h.get? a = some c ∧ c.Agrees ∧ ∀ key ∈ c.keys, key.IsName
  | .native _ | .foreign _ | .nothing => False

/-- Whether the value is plain with all that is in it. -/
structure Heap.IsData (h : Heap) (v : Value) : Prop where
  plain : v.IsPlain h
  within : ∀ a c, h.Reaches v a → h.get? a = some c → ∀ w ∈ c.members, w.IsPlain h

theorem Heap.IsData.member {h : Heap} {v w : Value} {c : Container} (hv : h.IsData v)
    (hc : h.container? v = some c) (hw : w ∈ c.members) : h.IsData w := by
  obtain ⟨a, rfl, hget⟩ := exists_ref_of_container? hc
  constructor
  · exact hv.within a c (Reaches.self h a) hget w hw
  · intro b c' hb hc'
    exact hv.within b c' (hb.member hc hw) hc'

/-! ## §2. Data. -/

/-- A text that can be a name. -/
abbrev Text.Name := { t : Text // t.IsName }

/-- Plain data. -/
inductive Datum where
  | null
  | boolean (b : Bool)
  | number (x : Float) (natural : Number.isNatural x = true)
  | string (t : Text) (clear : t.IsClear)
  | list (items : List Datum)
  | object (fields : List (Text.Name × Datum))

namespace Heap

mutual

/-- Whether the value is this datum: one and the same, or a reference to a container of the
    same kind and size, with the same keys in the same order and in step with the fields, that
    holds the parts. -/
def Holds (h : Heap) : Value → Datum → Prop
  | v, .null => v = .null
  | v, .boolean b => v = .boolean b
  | v, .number x _ => v = .number x
  | v, .string t _ => v = .string t
  | v, .list items => ∃ a ws, v = .ref a ∧ h.get? a = some (.list ws) ∧ h.HoldsEach ws items
  | v, .object fields =>
    ∃ a ws, v = .ref a ∧ h.get? a = some (.object ws) ∧ ws.Agrees ∧
      h.HoldsFields ws.entries fields

/-- Whether the values are these data, one by one. -/
def HoldsEach (h : Heap) : List Value → List Datum → Prop
  | ws, [] => ws = []
  | ws, d :: items => ∃ w rest, ws = w :: rest ∧ h.Holds w d ∧ h.HoldsEach rest items

/-- Whether the entries have these keys and are these data, one by one. -/
def HoldsFields (h : Heap) : List (Text × Value) → List (Text.Name × Datum) → Prop
  | ws, [] => ws = []
  | ws, (key, d) :: fields =>
    ∃ w rest, ws = (key.1, w) :: rest ∧ h.Holds w d ∧ h.HoldsFields rest fields

end

variable {h h' : Heap} {v : Value}

theorem exists_holdsEach {ws : List Value} (hws : ∀ w ∈ ws, ∃ d, h.Holds w d) :
    ∃ items, h.HoldsEach ws items := by
  induction ws with
  | nil => exact ⟨[], rfl⟩
  | cons w rest ih =>
    obtain ⟨⟨d, hd⟩, hrest⟩ := List.forall_mem_cons.1 hws
    obtain ⟨items, hitems⟩ := ih hrest
    exact ⟨d :: items, w, rest, rfl, hd, hitems⟩

theorem exists_holdsFields {ws : List (Text × Value)}
    (hws : ∀ entry ∈ ws, entry.1.IsName ∧ ∃ d, h.Holds entry.2 d) :
    ∃ fields, h.HoldsFields ws fields := by
  induction ws with
  | nil => exact ⟨[], rfl⟩
  | cons entry rest ih =>
    obtain ⟨⟨hkey, d, hd⟩, hrest⟩ := List.forall_mem_cons.1 hws
    obtain ⟨fields, hfields⟩ := ih hrest
    exact ⟨(⟨entry.1, hkey⟩, d) :: fields, entry.2, rest, rfl, hd, hfields⟩

/-- **An acyclic value of plain parts is a datum.** -/
theorem exists_holds (hv : h.Acyclic v) (hdata : h.IsData v) : ∃ d, h.Holds v d := by
  revert hdata
  apply hv.induction (motive := fun v => h.IsData v → ∃ d, h.Holds v d)
  intro v ih hdata
  have hplain := hdata.plain
  cases v with
  | null => exact ⟨.null, rfl⟩
  | boolean b => exact ⟨.boolean b, rfl⟩
  | number x => exact ⟨.number x hplain, rfl⟩
  | string t => exact ⟨.string t hplain, rfl⟩
  | ref a =>
    obtain ⟨c, hc, hagrees, hkeys⟩ := hplain
    have hmember : ∀ w ∈ c.members, ∃ d, h.Holds w d :=
      fun w hw => ih c hc w hw (hdata.member hc hw)
    cases c with
    | list ws =>
      obtain ⟨items, hitems⟩ := exists_holdsEach hmember
      exact ⟨.list items, a, ws, rfl, hc, hitems⟩
    | object ws =>
      have hentries : ∀ entry ∈ ws.entries, entry.1.IsName ∧ ∃ d, h.Holds entry.2 d := by
        intro entry hentry
        obtain ⟨key, hkey, rfl⟩ := List.mem_map.1 hentry
        exact ⟨hkeys key hkey, hmember _ (List.mem_map_of_mem hentry)⟩
      obtain ⟨fields, hfields⟩ := exists_holdsFields hentries
      exact ⟨.object fields, a, ws, rfl, hc, hagrees, hfields⟩
  | native fn => exact hplain.elim
  | foreign kind => exact hplain.elim
  | nothing => exact hplain.elim

/-- The keys of a datum are those of the entries that hold it. -/
theorem HoldsFields.keys {ws : List (Text × Value)} {fields : List (Text.Name × Datum)}
    (hws : h.HoldsFields ws fields) : fields.map (fun field => field.1.1) = ws.map Prod.fst := by
  induction fields generalizing ws with
  | nil =>
    obtain rfl := hws
    rfl
  | cons field fields ih =>
    obtain ⟨w, rest, rfl, _, hrest⟩ := hws
    rw [List.map_cons, List.map_cons, ih hrest]

/-- Whether every container of the first heap is in the second, at the same address. -/
def GrowsTo (h h' : Heap) : Prop := ∀ a c, h.get? a = some c → h'.get? a = some c

theorem GrowsTo.alloc (h : Heap) (c : Container) : h.GrowsTo (h.alloc c).2 := by
  intro a c' hc'
  rw [get?_alloc, if_neg (Nat.ne_of_lt (lt_size_of_get? hc'))]
  exact hc'

mutual

/-- A value goes on to be what it is while containers are added. -/
theorem Holds.grow (hgrows : h.GrowsTo h') (v : Value) (d : Datum) (hv : h.Holds v d) :
    h'.Holds v d := by
  cases d with
  | null => exact hv
  | boolean b => exact hv
  | number x hx => exact hv
  | string t ht => exact hv
  | list items =>
    obtain ⟨a, ws, rfl, hc, hws⟩ := hv
    exact ⟨a, ws, rfl, hgrows a _ hc, HoldsEach.grow hgrows ws items hws⟩
  | object fields =>
    obtain ⟨a, ws, rfl, hc, hagrees, hws⟩ := hv
    exact ⟨a, ws, rfl, hgrows a _ hc, hagrees, HoldsFields.grow hgrows ws.entries fields hws⟩

theorem HoldsEach.grow (hgrows : h.GrowsTo h') (ws : List Value) (items : List Datum)
    (hws : h.HoldsEach ws items) : h'.HoldsEach ws items := by
  cases items with
  | nil => exact hws
  | cons d items =>
    obtain ⟨w, rest, rfl, hw, hrest⟩ := hws
    exact ⟨w, rest, rfl, Holds.grow hgrows w d hw, HoldsEach.grow hgrows rest items hrest⟩

theorem HoldsFields.grow (hgrows : h.GrowsTo h') (ws : List (Text × Value))
    (fields : List (Text.Name × Datum)) (hws : h.HoldsFields ws fields) :
    h'.HoldsFields ws fields := by
  cases fields with
  | nil => exact hws
  | cons field fields =>
    obtain ⟨key, d⟩ := field
    obtain ⟨w, rest, rfl, hw, hrest⟩ := hws
    exact ⟨w, rest, rfl, Holds.grow hgrows w d hw, HoldsFields.grow hgrows rest fields hrest⟩

end

end Heap

/-! ## §3. Literals. -/

mutual

/-- The literal of a datum. -/
def Datum.literal : Datum → Expr
  | .null => .identifier .unknown "null"
  | .boolean b => .identifier .unknown (if b then "true" else "false")
  | .number x _ => .number .unknown x
  | .string t _ => .string .unknown t
  | .list items => .list .unknown (Datum.literals items)
  | .object fields => .object .unknown (Datum.properties fields)

/-- The literals of data. -/
def Datum.literals : List Datum → List Expr
  | [] => []
  | d :: items => d.literal :: Datum.literals items

/-- The properties of an object literal. -/
def Datum.properties : List (Text.Name × Datum) → List Property
  | [] => []
  | (key, d) :: fields => .mk .unknown key.1 d.literal :: Datum.properties fields

end

theorem Datum.literal_ne_absent (d : Datum) : d.literal ≠ .absent := by
  cases d <;> exact fun h => nomatch h

/-! An expression with the same spans forgotten as a literal has the form of the literal. -/

namespace Expr

variable {f : Span → Span} {span : Span}

theorem eq_absent_of_mapSpan {e : Expr} (h : e.mapSpan f = .absent) : e = .absent := by
  cases e with
  | absent => rfl
  | _ => cases h

theorem eq_identifier_of_mapSpan (e : Expr) {name : Text}
    (h : e.mapSpan f = .identifier span name) : ∃ s, e = .identifier s name := by
  cases e with
  | identifier s x =>
    cases h
    exact ⟨s, rfl⟩
  | _ => cases h

theorem eq_number_of_mapSpan (e : Expr) {x : Float} (h : e.mapSpan f = .number span x) :
    ∃ s, e = .number s x := by
  cases e with
  | number s y =>
    cases h
    exact ⟨s, rfl⟩
  | _ => cases h

theorem eq_string_of_mapSpan (e : Expr) {t : Text} (h : e.mapSpan f = .string span t) :
    ∃ s, e = .string s t := by
  cases e with
  | string s u =>
    cases h
    exact ⟨s, rfl⟩
  | _ => cases h

theorem eq_list_of_mapSpan (e : Expr) {items : List Expr} (h : e.mapSpan f = .list span items) :
    ∃ s es, e = .list s es ∧ mapSpanAll f es = items := by
  cases e with
  | list s es =>
    cases h
    exact ⟨s, es, rfl, rfl⟩
  | _ => cases h

theorem eq_object_of_mapSpan (e : Expr) {properties : List Property}
    (h : e.mapSpan f = .object span properties) :
    ∃ s ps, e = .object s ps ∧ Property.mapSpanAll f ps = properties := by
  cases e with
  | object s ps =>
    cases h
    exact ⟨s, ps, rfl, rfl⟩
  | _ => cases h

end Expr

theorem Datum.eq_cons_of_mapSpanAll {f : Span → Span} {ps : List Property} {key : Text.Name}
    {d : Datum} {fields : List (Text.Name × Datum)}
    (h : Property.mapSpanAll f ps = Property.mapSpanAll f (Datum.properties ((key, d) :: fields))) :
    ∃ s e rest, ps = .mk s key.1 e :: rest ∧ e.mapSpan f = d.literal.mapSpan f ∧
      Property.mapSpanAll f rest = Property.mapSpanAll f (Datum.properties fields) := by
  cases ps with
  | nil => cases h
  | cons p rest =>
    obtain ⟨s, k, e⟩ := p
    obtain ⟨hp, hrest⟩ := List.cons.inj h
    obtain ⟨_, rfl, he⟩ := Property.mk.inj hp
    exact ⟨s, e, rest, rfl, he, hrest⟩

/-! ## §4. What literals come to. -/

/-- Whether the second state has all containers of the first, and its scopes and output. -/
structure Machine.GrowsTo (m m' : Machine) : Prop where
  heap : m.heap.GrowsTo m'.heap
  scopes : m'.scopes = m.scopes
  output : m'.output = m.output

theorem Machine.GrowsTo.trans {m m' m'' : Machine} (h : m.GrowsTo m') (h' : m'.GrowsTo m'') :
    m.GrowsTo m'' where
  heap := fun a c hc => h'.heap a c (h.heap a c hc)
  scopes := h'.scopes.trans h.scopes
  output := h'.output.trans h.output

theorem Forest.lookup_of_binds {f : Forest} {e : ScopeId} {name : Text} {b : Binding}
    (hb : (f.bindings e).get? name = some b) : f.lookup e name = .ok b.value := by
  have hbinds : f.binds e name = true := by
    rw [binds_eq_isSome, hb]
    rfl
  unfold lookup resolve
  rw [owner?_eq, if_pos hbinds]
  dsimp only
  rw [(get?_bindings_iff.1 hb).1]
  rfl

namespace OrderedMap

variable {κ ν : Type} [DecidableEq κ] [Inhabited ν] {m : OrderedMap κ ν} {key : κ}

theorem map_fst_entries (m : OrderedMap κ ν) : m.entries.map Prod.fst = m.keys := by
  unfold entries keys
  rw [List.map_map]
  exact List.map_id _

theorem length_entries (m : OrderedMap κ ν) : m.entries.length = m.size := List.length_map _

/-- A new key goes to the end, with its value. -/
theorem entries_insert_of_notMem (hagrees : m.Agrees) (hkey : key ∉ m.keys) (value : ν) :
    (m.insert key value).entries = m.entries ++ [(key, value)] := by
  have hnew : m.contains key = false := by
    rw [← Bool.not_eq_true, ← hagrees.mem_keys]
    exact hkey
  have horder : (m.insert key value).order = m.order ++ [key] := by
    show (if m.contains key = true then _ else _) = _
    rw [hnew]
    rfl
  have hold : ∀ other ∈ m.order, (m.insert key value).get? other = m.get? other := by
    intro other hother
    have hne : key ≠ other := fun heq => hkey (heq ▸ hother)
    rw [get?_insert, if_neg hne]
  unfold entries
  rw [horder, List.map_append, List.map_cons, List.map_nil, get?_insert, if_pos rfl]
  congr 1
  apply List.map_congr_left
  intro other hother
  rw [hold other hother]

end OrderedMap

section

variable {settings : Settings} {scope : ScopeId} {natives : List Native} {h : Heap} {m : Machine}
  {f : Span → Span}

/-- Without a limit, a visit only counts. -/
theorem Eval.visit_unlimited (hlimit : settings.stepLimit ≤ 0) (pos : Position) (m : Machine) :
    ∃ m', Eval.visit settings pos m = .ok () m' ∧ m.GrowsTo m' := by
  rw [visit_eq, if_neg (by omega)]
  exact ⟨_, rfl, fun _ _ hc => hc, rfl, rfl⟩

/-- A new container is where it was put. -/
theorem Eval.alloc_grows (c : Container) (m : Machine) :
    ∃ a m', Eval.alloc c m = .ok (.ref a) m' ∧ m'.heap.get? a = some c ∧ m.GrowsTo m' := by
  refine ⟨m.heap.size, { m with heap := (m.heap.alloc c).2 }, rfl, ?_, .alloc m.heap c, rfl, rfl⟩
  show (m.heap.alloc c).2.get? m.heap.size = some c
  rw [Heap.get?_alloc, if_pos rfl]

/-- A name that the scope binds comes to its value. -/
theorem evalExpr_identifier (hlimit : settings.stepLimit ≤ 0) {name : Text} {b : Binding}
    (hb : (m.scopes.bindings scope).get? name = some b) (span : Span) :
    ∃ m', evalExpr settings scope (.identifier span name) m = .ok b.value m' ∧ m.GrowsTo m' := by
  obtain ⟨m', hvisit, hgrows⟩ := Eval.visit_unlimited hlimit span.start m
  refine ⟨m', ?_, hgrows⟩
  rw [evalExpr, Eval.bind_ok hvisit]
  show Eval.located span.start (m'.scopes.lookup scope name) m' = _
  rw [hgrows.scopes, Forest.lookup_of_binds hb]
  rfl

mutual

/-- **The literal of a datum comes to the datum**, in new containers: in a global scope and
    without a limit, wherever it was read. -/
theorem Datum.evaluates (hlimit : settings.stepLimit ≤ 0) (d : Datum) (v : Value)
    (hv : h.Holds v d) (e : Expr) (he : e.mapSpan f = d.literal.mapSpan f)
    (m : Machine) (hglobal : m.scopes.IsGlobal scope natives) :
    ∃ w m', evalExpr settings scope e m = .ok w m' ∧ m'.heap.Holds w d ∧ m.GrowsTo m' := by
  cases d with
  | null =>
    obtain ⟨span, rfl⟩ := e.eq_identifier_of_mapSpan he
    obtain ⟨m', heval, hgrows⟩ := evalExpr_identifier hlimit hglobal.null span
    exact ⟨.null, m', heval, rfl, hgrows⟩
  | boolean b =>
    obtain ⟨span, rfl⟩ := e.eq_identifier_of_mapSpan he
    cases b with
    | true =>
      obtain ⟨m', heval, hgrows⟩ := evalExpr_identifier hlimit hglobal.yes span
      exact ⟨.boolean true, m', heval, rfl, hgrows⟩
    | false =>
      obtain ⟨m', heval, hgrows⟩ := evalExpr_identifier hlimit hglobal.no span
      exact ⟨.boolean false, m', heval, rfl, hgrows⟩
  | number x hx =>
    obtain ⟨span, rfl⟩ := e.eq_number_of_mapSpan he
    obtain ⟨m', hvisit, hgrows⟩ := Eval.visit_unlimited hlimit span.start m
    refine ⟨.number x, m', ?_, rfl, hgrows⟩
    rw [evalExpr, Eval.bind_ok hvisit]
    rfl
  | string t ht =>
    obtain ⟨span, rfl⟩ := e.eq_string_of_mapSpan he
    obtain ⟨m', hvisit, hgrows⟩ := Eval.visit_unlimited hlimit span.start m
    refine ⟨.string t, m', ?_, rfl, hgrows⟩
    rw [evalExpr, Eval.bind_ok hvisit]
    rfl
  | list items =>
    obtain ⟨span, es, rfl, hes⟩ := e.eq_list_of_mapSpan he
    obtain ⟨_, vs, _, _, hvs⟩ := hv
    obtain ⟨m₁, hvisit, hgrows₁⟩ := Eval.visit_unlimited hlimit span.start m
    rw [← hgrows₁.scopes] at hglobal
    obtain ⟨ws, m₂, heval, hws, hgrows₂⟩ :=
      Datum.evaluates_each hlimit items vs hvs es hes m₁ hglobal
    obtain ⟨a, m₃, halloc, hc, hgrows₃⟩ := Eval.alloc_grows (.list ws) m₂
    refine ⟨.ref a, m₃, ?_, ⟨a, ws, rfl, hc, hws.grow hgrows₃.heap⟩,
      (hgrows₁.trans hgrows₂).trans hgrows₃⟩
    rw [evalExpr, Eval.bind_ok hvisit, Eval.bind_ok heval]
    exact halloc
  | object fields =>
    obtain ⟨span, ps, rfl, hps⟩ := e.eq_object_of_mapSpan he
    obtain ⟨_, vs, _, _, hagrees, hvs⟩ := hv
    -- the keys are those of an object, so none is there twice
    have hnodup : ((OrderedMap.empty : OrderedMap Text Value).keys ++
        fields.map fun field => field.1.1).Nodup := by
      rw [hvs.keys, OrderedMap.map_fst_entries]
      exact hagrees.nodup
    obtain ⟨m₁, hvisit, hgrows₁⟩ := Eval.visit_unlimited hlimit span.start m
    rw [← hgrows₁.scopes] at hglobal
    obtain ⟨ws, entries, m₂, heval, hagrees', hentries, hws, hgrows₂⟩ :=
      Datum.evaluates_properties hlimit fields vs.entries hvs ps hps .empty .empty hnodup m₁
        hglobal
    obtain ⟨a, m₃, halloc, hc, hgrows₃⟩ := Eval.alloc_grows (.object ws) m₂
    obtain rfl : ws.entries = entries := hentries
    refine ⟨.ref a, m₃, ?_, ⟨a, ws, rfl, hc, hagrees', hws.grow hgrows₃.heap⟩,
      (hgrows₁.trans hgrows₂).trans hgrows₃⟩
    rw [evalExpr, Eval.bind_ok hvisit, Eval.bind_ok heval]
    exact halloc

/-- Literals come to their data, from the first to the last. -/
theorem Datum.evaluates_each (hlimit : settings.stepLimit ≤ 0) (items : List Datum)
    (vs : List Value) (hvs : h.HoldsEach vs items) (es : List Expr)
    (hes : Expr.mapSpanAll f es =
      Expr.mapSpanAll f (Datum.literals items)) (m : Machine)
    (hglobal : m.scopes.IsGlobal scope natives) :
    ∃ ws m', evalExprs settings scope es m = .ok ws m' ∧ m'.heap.HoldsEach ws items ∧
      m.GrowsTo m' := by
  cases items with
  | nil =>
    obtain rfl : es = [] := by
      cases es with
      | nil => rfl
      | cons e rest => cases hes
    exact ⟨[], m, rfl, rfl, fun _ _ hc => hc, rfl, rfl⟩
  | cons d items =>
    cases es with
    | nil => cases hes
    | cons e es =>
      obtain ⟨he, hes⟩ := List.cons.inj hes
      obtain ⟨v, rest, rfl, hv, hrest⟩ := hvs
      obtain ⟨w, m₁, heval, hw, hgrows₁⟩ := Datum.evaluates hlimit d v hv e he m hglobal
      rw [← hgrows₁.scopes] at hglobal
      obtain ⟨ws, m₂, hevals, hws, hgrows₂⟩ :=
        Datum.evaluates_each hlimit items rest hrest es hes m₁ hglobal
      refine ⟨w :: ws, m₂, ?_, ⟨w, ws, rfl, hw.grow hgrows₂.heap, hws⟩, hgrows₁.trans hgrows₂⟩
      rw [evalExprs, Eval.bind_ok heval, Eval.bind_ok hevals]
      rfl

/-- Properties with new keys go after the entries that are there. -/
theorem Datum.evaluates_properties (hlimit : settings.stepLimit ≤ 0)
    (fields : List (Text.Name × Datum)) (vs : List (Text × Value))
    (hvs : h.HoldsFields vs fields) (ps : List Property)
    (hps : Property.mapSpanAll f ps =
      Property.mapSpanAll f (Datum.properties fields))
    (before : OrderedMap Text Value) (hbefore : before.Agrees)
    (hnodup : (before.keys ++ fields.map fun field => field.1.1).Nodup) (m : Machine)
    (hglobal : m.scopes.IsGlobal scope natives) :
    ∃ after entries m', evalProperties settings scope ps before m = .ok after m' ∧
      after.Agrees ∧ after.entries = before.entries ++ entries ∧
      m'.heap.HoldsFields entries fields ∧ m.GrowsTo m' := by
  cases fields with
  | nil =>
    obtain rfl : ps = [] := by
      cases ps with
      | nil => rfl
      | cons p rest => cases hps
    exact ⟨before, [], m, rfl, hbefore, (List.append_nil _).symm, rfl, fun _ _ hc => hc, rfl, rfl⟩
  | cons field fields =>
    obtain ⟨key, d⟩ := field
    obtain ⟨v, rest, rfl, hv, hrest⟩ := hvs
    obtain ⟨span, e, ps, rfl, he, hps⟩ := Datum.eq_cons_of_mapSpanAll hps
    obtain ⟨w, m₁, heval, hw, hgrows₁⟩ := Datum.evaluates hlimit d v hv e he m hglobal
    rw [← hgrows₁.scopes] at hglobal
    -- the key was not there, so it goes to the end, and the keys after it are still new
    rw [List.map_cons] at hnodup
    have hkey : key.1 ∉ before.keys :=
      fun hmem => (List.nodup_append.1 hnodup).2.2 _ hmem _ List.mem_cons_self rfl
    have hentry := OrderedMap.entries_insert_of_notMem hbefore hkey w
    have hnodup' : ((before.insert key.1 w).keys ++ fields.map fun field => field.1.1).Nodup := by
      rw [← OrderedMap.map_fst_entries, hentry, List.map_append, OrderedMap.map_fst_entries,
        List.append_assoc]
      exact hnodup
    obtain ⟨after, entries, m₂, hevals, hafter, hentries, hws, hgrows₂⟩ :=
      Datum.evaluates_properties hlimit fields rest hrest ps hps (before.insert key.1 w)
        (hbefore.insert key.1 w) hnodup' m₁ hglobal
    refine ⟨after, (key.1, w) :: entries, m₂, ?_, hafter, ?_,
      ⟨w, entries, rfl, hw.grow hgrows₂.heap, hws⟩, hgrows₁.trans hgrows₂⟩
    · rw [evalProperties, Eval.bind_ok heval]
      · exact hevals
      · rintro rfl
        exact d.literal_ne_absent (Expr.eq_absent_of_mapSpan he.symm)
    · rw [hentries, hentry, List.append_assoc]
      rfl

end

end

end Scriptorium
