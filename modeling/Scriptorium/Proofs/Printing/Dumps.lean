/-
  Scriptorium.Proofs.Printing.Dumps: the dump of a tree determines it.

  The document of a part names its kind, and parts of one kind have the same fields, except
  that a declaration or a property may leave out its value.  A value that is left out is an
  absent one, and an absent part anywhere else is `null`, which no part that is there is dumped
  as.  So the document has all of the tree but its places.  From the document it is one step to
  its text, which determines it if the numbers in it can be written and its texts are valid.

  A program that was read has exactly the numbers of its tokens, and a run of digits is read
  as a finite double or as positive infinity.  So whether it can be dumped can be seen in the
  source.

  Main results:
    * `Node.dump_eq_iff`: the document is the tree without its places.
    * `Node.all_dump`: the numbers and texts in the document are those of the parts.
    * `Program.literals_of_parse`: the numbers of a program that was read are its tokens'.
    * `dump_determines_tree`: when there is a text, and what it determines.
-/

import Scriptorium.Tree.Dump
import Scriptorium.Proofs.Parsing.Trees
import Scriptorium.Proofs.Printing.Documents

namespace Scriptorium

/-! ## §1. Kinds. -/

theorem NodeKind.name_injective {k k' : NodeKind} (h : k.name = k'.name) : k = k' := by
  cases k <;> cases k' <;> simp [NodeKind.name] at h ⊢

/-- The name of the kind that a document begins with. -/
def Json.kindName? : Json → Option Text
  | .object ((_, .string name) :: _) => some name
  | _ => none

/-- The document of an expression begins with its kind; an absent one has none. -/
theorem Expr.kindName?_dump (e : Expr) :
    e.dump.kindName? = e.kind?.map fun k => Text.ofString k.name := by
  cases e <;> rw [Expr.dump] <;> rfl

theorem Statement.kindName?_dump (s : Statement) :
    s.dump.kindName? = s.kind?.map fun k => Text.ofString k.name := by
  cases s with
  | declaration => rfl
  | expression e => exact e.kindName?_dump

theorem Node.kindName?_dump (node : Node) :
    node.dump.kindName? = node.kind?.map fun k => Text.ofString k.name := by
  cases node with
  | program p => rfl
  | statement s => exact s.kindName?_dump
  | property p =>
    cases p
    rw [Node.dump, Property.dump]
    rfl

/-- Parts with the same document are of the same kind. -/
theorem Node.kind?_eq_of_dump {node node' : Node} (h : node.dump = node'.dump) :
    node.kind? = node'.kind? := by
  have hnames := congrArg Json.kindName? h
  rw [node.kindName?_dump, node'.kindName?_dump] at hnames
  exact Option.map_injective (fun _ _ hname =>
    NodeKind.name_injective (Text.ofString_injective hname)) hnames

theorem Expr.kind?_eq_of_dump {e e' : Expr} (h : e.dump = e'.dump) : e.kind? = e'.kind? :=
  @Node.kind?_eq_of_dump (.ofExpr e) (.ofExpr e') h

/-- The kinds of which there are no expressions. -/
theorem Expr.kind?_ne (e : Expr) {k : NodeKind}
    (hk : k ∈ [NodeKind.program, .varDeclaration, .property]) : e.kind? ≠ some k := by
  intro h
  cases e <;> cases h <;> exact absurd hk (by decide)

/-- The kinds of which there are no statements. -/
theorem Statement.kind?_ne (s : Statement) {k : NodeKind}
    (hk : k ∈ [NodeKind.program, .property]) : s.kind? ≠ some k := by
  cases s with
  | declaration =>
    intro h
    cases h
    exact absurd hk (by decide)
  | expression e =>
    refine e.kind?_ne ?_
    simp only [List.mem_cons, List.not_mem_nil, or_false] at hk ⊢
    tauto

/-! ## §2. The document determines the tree without its places. -/

/-- Documents of parts of one kind have the same fields only if they are equal. -/
@[simp]
theorem Json.part_inj {kind : NodeKind} {fields fields' : List (String × Json)} :
    Json.part kind fields = Json.part kind fields' ↔ fields = fields' := by
  simp [Json.part]

/-- A value that may be left out can be told from its field. -/
theorem Expr.dump_eq_of_optionalField {key : String} {e e' : Expr}
    (h : Json.optionalField key (!e.isAbsent) e.dump =
      Json.optionalField key (!e'.isAbsent) e'.dump) : e.dump = e'.dump := by
  have hfield : ∀ e : Expr, e = .absent ∨
      Json.optionalField key (!e.isAbsent) e.dump = [(key, e.dump)] := by
    intro e
    cases e with
    | absent => exact .inl rfl
    | _ => exact .inr rfl
  -- a field that is there is told from one that is left out
  rcases hfield e with rfl | he <;> rcases hfield e' with rfl | he'
  · rfl
  · rw [he'] at h
    cases h
  · rw [he] at h
    cases h
  · rw [he, he'] at h
    exact congrArg Prod.snd (List.cons.inj h).1

section Places

variable {place : Span}

mutual

/-- Expressions with the same document differ at most in their places. -/
theorem Expr.mapSpan_eq_of_dump (e e' : Expr) (h : e.dump = e'.dump) :
    e.mapSpan (fun _ => place) = e'.mapSpan fun _ => place := by
  -- the kinds agree, so each constructor meets only itself
  have hkind := Expr.kind?_eq_of_dump h
  cases e with
  | absent =>
    cases e' <;> cases hkind
    rfl
  | identifier span name =>
    cases e' <;> cases hkind
    simp only [Expr.dump, Json.part_inj, List.cons.injEq, Prod.mk.injEq, Json.string.injEq,
      true_and, and_true] at h
    rw [Expr.mapSpan, Expr.mapSpan, h]
  | number span value =>
    cases e' <;> cases hkind
    simp only [Expr.dump, Json.part_inj, List.cons.injEq, Prod.mk.injEq, Json.number.injEq,
      true_and, and_true] at h
    rw [Expr.mapSpan, Expr.mapSpan, h]
  | string span text =>
    cases e' <;> cases hkind
    simp only [Expr.dump, Json.part_inj, List.cons.injEq, Prod.mk.injEq, Json.string.injEq,
      true_and, and_true] at h
    rw [Expr.mapSpan, Expr.mapSpan, h]
  | binary span op left right =>
    cases e' <;> cases hkind
    next _ _ left' right' =>
    simp only [Expr.dump, Json.part_inj, List.cons.injEq, Prod.mk.injEq, Json.string.injEq,
      true_and, and_true] at h
    rw [Expr.mapSpan, Expr.mapSpan, h.2.2, Expr.mapSpan_eq_of_dump left left' h.1,
      Expr.mapSpan_eq_of_dump right right' h.2.1]
  | assign span target value =>
    cases e' <;> cases hkind
    next _ target' value' =>
    simp only [Expr.dump, Json.part_inj, List.cons.injEq, Prod.mk.injEq, true_and, and_true] at h
    rw [Expr.mapSpan, Expr.mapSpan, Expr.mapSpan_eq_of_dump target target' h.1,
      Expr.mapSpan_eq_of_dump value value' h.2]
  | object span properties =>
    cases e' <;> cases hkind
    next _ properties' =>
    simp only [Expr.dump, Json.part_inj, List.cons.injEq, Prod.mk.injEq, Json.array.injEq,
      true_and, and_true] at h
    rw [Expr.mapSpan, Expr.mapSpan, Property.mapSpanAll_eq_of_dump properties properties' h]
  | list span items =>
    cases e' <;> cases hkind
    next _ items' =>
    simp only [Expr.dump, Json.part_inj, List.cons.injEq, Prod.mk.injEq, Json.array.injEq,
      true_and, and_true] at h
    rw [Expr.mapSpan, Expr.mapSpan, Expr.mapSpanAll_eq_of_dump items items' h]
  | member span object property computed =>
    cases e' <;> cases hkind
    next _ object' property' _ =>
    simp only [Expr.dump, Json.part_inj, List.cons.injEq, Prod.mk.injEq, Json.bool.injEq,
      true_and, and_true] at h
    rw [Expr.mapSpan, Expr.mapSpan, h.2.2,
      Expr.mapSpan_eq_of_dump object object' h.1, Expr.mapSpan_eq_of_dump property property' h.2.1]
  | call span callee args =>
    cases e' <;> cases hkind
    next _ callee' args' =>
    simp only [Expr.dump, Json.part_inj, List.cons.injEq, Prod.mk.injEq, Json.array.injEq,
      true_and, and_true] at h
    rw [Expr.mapSpan, Expr.mapSpan, Expr.mapSpan_eq_of_dump callee callee' h.1,
      Expr.mapSpanAll_eq_of_dump args args' h.2]
termination_by structural e

theorem Expr.mapSpanAll_eq_of_dump (es es' : List Expr)
    (h : Expr.dumpAll es = Expr.dumpAll es') :
    Expr.mapSpanAll (fun _ => place) es = Expr.mapSpanAll (fun _ => place) es' := by
  cases es with
  | nil =>
    cases es' with
    | nil => rfl
    | cons => cases h
  | cons e es =>
    cases es' with
    | nil => cases h
    | cons e' es' =>
      obtain ⟨hfirst, hrest⟩ := List.cons.inj h
      rw [Expr.mapSpanAll, Expr.mapSpanAll, Expr.mapSpan_eq_of_dump e e' hfirst,
        Expr.mapSpanAll_eq_of_dump es es' hrest]
termination_by structural es

theorem Property.mapSpan_eq_of_dump (p p' : Property) (h : p.dump = p'.dump) :
    p.mapSpan (fun _ => place) = p'.mapSpan fun _ => place := by
  cases p with
  | mk span key value =>
    cases p' with
    | mk span' key' value' =>
      simp only [Property.dump, Json.part_inj, List.cons.injEq, Prod.mk.injEq, Json.string.injEq,
        true_and] at h
      rw [Property.mapSpan, Property.mapSpan, h.1,
        Expr.mapSpan_eq_of_dump value value' (Expr.dump_eq_of_optionalField h.2)]
termination_by structural p

theorem Property.mapSpanAll_eq_of_dump (ps ps' : List Property)
    (h : Property.dumpAll ps = Property.dumpAll ps') :
    Property.mapSpanAll (fun _ => place) ps = Property.mapSpanAll (fun _ => place) ps' := by
  cases ps with
  | nil =>
    cases ps' with
    | nil => rfl
    | cons => cases h
  | cons p ps =>
    cases ps' with
    | nil => cases h
    | cons p' ps' =>
      obtain ⟨hfirst, hrest⟩ := List.cons.inj h
      rw [Property.mapSpanAll, Property.mapSpanAll, Property.mapSpan_eq_of_dump p p' hfirst,
        Property.mapSpanAll_eq_of_dump ps ps' hrest]
termination_by structural ps

end

theorem Statement.mapSpan_eq_of_dump {s s' : Statement} (h : s.dump = s'.dump) :
    s.mapSpan (fun _ => place) = s'.mapSpan fun _ => place := by
  have hkind := @Node.kind?_eq_of_dump (.statement s) (.statement s') h
  cases s with
  | declaration span constant name value =>
    cases s' with
    | declaration span' constant' name' value' =>
      simp only [Statement.dump, Json.part_inj, List.cons_append, List.cons.injEq, Prod.mk.injEq,
        Json.bool.injEq, Json.string.injEq, List.nil_append, true_and] at h
      rw [Statement.mapSpan, Statement.mapSpan, h.1, h.2.1,
        Expr.mapSpan_eq_of_dump value value' (Expr.dump_eq_of_optionalField h.2.2)]
    | expression e' => exact absurd hkind.symm (e'.kind?_ne (by decide))
  | expression e =>
    cases s' with
    | declaration span' constant' name' value' => exact absurd hkind (e.kind?_ne (by decide))
    | expression e' => rw [Statement.mapSpan, Statement.mapSpan, Expr.mapSpan_eq_of_dump e e' h]

theorem Program.mapSpan_eq_of_dump {p p' : Program} (h : p.dump = p'.dump) :
    p.mapSpan (fun _ => place) = p'.mapSpan fun _ => place := by
  have hbody : ∀ {body body' : List Statement},
      body.map Statement.dump = body'.map Statement.dump →
      body.map (Statement.mapSpan fun _ => place) =
        body'.map (Statement.mapSpan fun _ => place) := by
    intro body
    induction body with
    | nil =>
      intro body' h
      rw [List.map_eq_nil_iff.1 h.symm]
    | cons s body ih =>
      intro body' h
      cases body' with
      | nil => cases h
      | cons s' body' =>
        obtain ⟨hfirst, hrest⟩ := List.cons.inj h
        rw [List.map_cons, List.map_cons, Statement.mapSpan_eq_of_dump hfirst, ih hrest]
  simp only [Program.dump, Json.part_inj, List.cons.injEq, Prod.mk.injEq, Json.array.injEq,
    true_and, and_true] at h
  rw [Program.mapSpan, Program.mapSpan, hbody h]

end Places

/-- Trees with the same document differ at most in their places. -/
theorem Node.clearSpans_eq_of_dump {node node' : Node} (h : node.dump = node'.dump) :
    node.clearSpans = node'.clearSpans := by
  have hkind := Node.kind?_eq_of_dump h
  cases node with
  | program p =>
    cases node' with
    | program p' => exact congrArg Node.program (Program.mapSpan_eq_of_dump h)
    | statement s' => exact absurd hkind.symm (s'.kind?_ne (by decide))
    | property p' => cases hkind
  | statement s =>
    cases node' with
    | program p' => exact absurd hkind (s.kind?_ne (by decide))
    | statement s' => exact congrArg Node.statement (Statement.mapSpan_eq_of_dump h)
    | property p' => exact absurd hkind (s.kind?_ne (by decide))
  | property p =>
    cases node' with
    | program p' => cases hkind
    | statement s' => exact absurd hkind.symm (s'.kind?_ne (by decide))
    | property p' => exact congrArg Node.property (Property.mapSpan_eq_of_dump p p' h)

/-! ## §3. Places are not in the document. -/

theorem Expr.isAbsent_mapSpan (f : Span → Span) (e : Expr) :
    (e.mapSpan f).isAbsent = e.isAbsent := by
  cases e <;> rw [Expr.mapSpan] <;> rfl

mutual

theorem Expr.dump_mapSpan (f : Span → Span) (e : Expr) : (e.mapSpan f).dump = e.dump := by
  cases e with
  | absent => rfl
  | identifier | number | string =>
    rw [Expr.mapSpan, Expr.dump, Expr.dump]
  | binary span op left right =>
    rw [Expr.mapSpan, Expr.dump, Expr.dump, left.dump_mapSpan f, right.dump_mapSpan f]
  | assign span target value =>
    rw [Expr.mapSpan, Expr.dump, Expr.dump, target.dump_mapSpan f, value.dump_mapSpan f]
  | object span properties =>
    rw [Expr.mapSpan, Expr.dump, Expr.dump, Property.dumpAll_mapSpan f properties]
  | list span items => rw [Expr.mapSpan, Expr.dump, Expr.dump, Expr.dumpAll_mapSpan f items]
  | member span object property computed =>
    rw [Expr.mapSpan, Expr.dump, Expr.dump, object.dump_mapSpan f, property.dump_mapSpan f]
  | call span callee args =>
    rw [Expr.mapSpan, Expr.dump, Expr.dump, callee.dump_mapSpan f, Expr.dumpAll_mapSpan f args]

theorem Expr.dumpAll_mapSpan (f : Span → Span) (es : List Expr) :
    Expr.dumpAll (Expr.mapSpanAll f es) = Expr.dumpAll es := by
  cases es with
  | nil => rfl
  | cons e es =>
    rw [Expr.mapSpanAll, Expr.dumpAll, Expr.dumpAll, e.dump_mapSpan f, Expr.dumpAll_mapSpan f es]

theorem Property.dump_mapSpan (f : Span → Span) (p : Property) :
    (p.mapSpan f).dump = p.dump := by
  cases p with
  | mk span key value =>
    rw [Property.mapSpan, Property.dump, Property.dump, value.dump_mapSpan f,
      value.isAbsent_mapSpan f]

theorem Property.dumpAll_mapSpan (f : Span → Span) (ps : List Property) :
    Property.dumpAll (Property.mapSpanAll f ps) = Property.dumpAll ps := by
  cases ps with
  | nil => rfl
  | cons p ps =>
    rw [Property.mapSpanAll, Property.dumpAll, Property.dumpAll, p.dump_mapSpan f,
      Property.dumpAll_mapSpan f ps]

end

theorem Statement.dump_mapSpan (f : Span → Span) (s : Statement) :
    (s.mapSpan f).dump = s.dump := by
  cases s with
  | declaration span constant name value =>
    rw [Statement.mapSpan, Statement.dump, Statement.dump, value.dump_mapSpan f,
      value.isAbsent_mapSpan f]
  | expression e => exact e.dump_mapSpan f

theorem Node.dump_mapSpan (f : Span → Span) (node : Node) :
    (node.mapSpan f).dump = node.dump := by
  cases node with
  | program p =>
    rw [Node.mapSpan, Node.dump, Node.dump, Program.dump, Program.dump, Program.mapSpan,
      List.map_map]
    congr 5
    exact funext fun s => s.dump_mapSpan f
  | statement s => exact s.dump_mapSpan f
  | property p => exact p.dump_mapSpan f

/-- **The document of a tree is the tree without its places.** -/
theorem Node.dump_eq_iff {node node' : Node} :
    node.dump = node'.dump ↔ node.clearSpans = node'.clearSpans := by
  refine ⟨Node.clearSpans_eq_of_dump, fun h => ?_⟩
  calc node.dump = node.clearSpans.dump := (node.dump_mapSpan _).symm
    _ = node'.clearSpans.dump := congrArg Node.dump h
    _ = node'.dump := node'.dump_mapSpan _

/-! ## §4. Numbers and texts in the document. -/

namespace Node

/-- The number that a part is. -/
def literal? : Node → Option Float
  | .statement (.expression (.number _ value)) => some value
  | _ => none

/-- The text that a part has of its own: a name, a string, an operator or a key. -/
def text? : Node → Option Text
  | .statement (.declaration _ _ name _) => some name
  | .statement (.expression (.identifier _ name)) => some name
  | .statement (.expression (.string _ text)) => some text
  | .statement (.expression (.binary _ op _ _)) => some op
  | .property p => some p.key
  | _ => none

/-- Whether what the part has of its own is of some sort. -/
def Own (N : Float → Prop) (T : Text → Prop) (part : Node) : Prop :=
  (∀ x ∈ part.literal?, N x) ∧ ∀ t ∈ part.text?, T t

section Own

variable {N : Float → Prop} {T : Text → Prop} {span : Span} {t : Text} {e e' : Expr}

theorem own_of_literal {part : Node} {x : Float} (hx : part.literal? = some x)
    (ht : part.text? = none) : part.Own N T ↔ N x := by
  simp [Own, hx, ht]

theorem own_of_text {part : Node} (hx : part.literal? = none) (ht : part.text? = some t) :
    part.Own N T ↔ T t := by
  simp [Own, hx, ht]

theorem own_of_none {part : Node} (hx : part.literal? = none) (ht : part.text? = none) :
    part.Own N T := by
  simp [Own, hx, ht]

@[simp]
theorem own_number {x : Float} : (ofExpr (.number span x)).Own N T ↔ N x :=
  own_of_literal rfl rfl

@[simp]
theorem own_identifier : (ofExpr (.identifier span t)).Own N T ↔ T t := own_of_text rfl rfl

@[simp]
theorem own_string : (ofExpr (.string span t)).Own N T ↔ T t := own_of_text rfl rfl

@[simp]
theorem own_binary : (ofExpr (.binary span t e e')).Own N T ↔ T t := own_of_text rfl rfl

@[simp]
theorem own_declaration {constant : Bool} :
    (Node.statement (.declaration span constant t e)).Own N T ↔ T t := own_of_text rfl rfl

@[simp]
theorem own_property : (Node.property (.mk span t e)).Own N T ↔ T t := own_of_text rfl rfl

@[simp]
theorem own_assign : (ofExpr (.assign span e e')).Own N T := own_of_none rfl rfl

@[simp]
theorem own_object {ps : List Property} : (ofExpr (.object span ps)).Own N T :=
  own_of_none rfl rfl

@[simp]
theorem own_list {es : List Expr} : (ofExpr (.list span es)).Own N T := own_of_none rfl rfl

@[simp]
theorem own_member {computed : Bool} : (ofExpr (.member span e e' computed)).Own N T :=
  own_of_none rfl rfl

@[simp]
theorem own_call {es : List Expr} : (ofExpr (.call span e es)).Own N T := own_of_none rfl rfl

@[simp]
theorem own_program {p : Program} : (Node.program p).Own N T := own_of_none rfl rfl

end Own

end Node

/-- Whether the names of the kinds are texts of some sort. -/
def NodeKind.AllNames (T : Text → Prop) : Prop := ∀ k : NodeKind, T (Text.ofString k.name)

section All

variable {N : Float → Prop} {T : Text → Prop}

theorem Json.all_part (hkinds : NodeKind.AllNames T) {k : NodeKind}
    {fields : List (String × Json)} :
    (Json.part k fields).All N T ↔ ∀ f ∈ fields, f.2.All N T := by
  rw [Json.part, Json.all_object, List.forall_mem_cons, Json.all_string]
  exact and_iff_right (hkinds k)

theorem Expr.all_optionalField {key : String} {e : Expr} :
    (∀ f ∈ Json.optionalField key (!e.isAbsent) e.dump, f.2.All N T) ↔ e.dump.All N T := by
  cases e with
  | absent => exact iff_of_true (List.forall_mem_nil _) .null
  | _ => exact List.forall_mem_singleton

mutual

/-- The numbers and the texts in the document are those of the parts. -/
theorem Expr.all_dump (hkinds : NodeKind.AllNames T) (e : Expr) :
    e.dump.All N T ↔ ∀ part ∈ e.visits (fun _ => true), part.Own N T := by
  cases e with
  | absent => exact iff_of_true .null (List.forall_mem_nil _)
  | identifier span name =>
    rw [Expr.dump, Json.all_part hkinds, Expr.visits, List.forall_mem_singleton,
      List.forall_mem_singleton, Json.all_string, Node.own_identifier]
  | number span value =>
    rw [Expr.dump, Json.all_part hkinds, Expr.visits, List.forall_mem_singleton,
      List.forall_mem_singleton, Json.all_number, Node.own_number]
  | string span text =>
    rw [Expr.dump, Json.all_part hkinds, Expr.visits, List.forall_mem_singleton,
      List.forall_mem_singleton, Json.all_string, Node.own_string]
  | binary span op left right =>
    simp only [Expr.dump, Json.all_part hkinds, Expr.visits, if_true, List.forall_mem_cons,
      List.forall_mem_append, List.not_mem_nil, false_implies, implies_true, Node.own_binary,
      Json.all_string, and_true, left.all_dump hkinds, right.all_dump hkinds]
    -- the operator is dumped after the operands
    exact and_rotate.symm
  | assign span target value =>
    simp only [Expr.dump, Json.all_part hkinds, Expr.visits, if_true, List.forall_mem_cons,
      List.forall_mem_append, List.not_mem_nil, false_implies, implies_true, Node.own_assign,
      and_true, true_and, target.all_dump hkinds, value.all_dump hkinds]
  | object span properties =>
    simp only [Expr.dump, Json.all_part hkinds, Expr.visits, if_true, List.forall_mem_cons,
      List.not_mem_nil, false_implies, implies_true, Node.own_object, Json.all_array, and_true,
      true_and, Property.all_dumpAll hkinds]
  | list span items =>
    simp only [Expr.dump, Json.all_part hkinds, Expr.visits, if_true, List.forall_mem_cons,
      List.not_mem_nil, false_implies, implies_true, Node.own_list, Json.all_array, and_true,
      true_and, Expr.all_dumpAll hkinds]
  | member span object property computed =>
    simp only [Expr.dump, Json.all_part hkinds, Expr.visits, if_true, List.forall_mem_cons,
      List.forall_mem_append, List.not_mem_nil, false_implies, implies_true, Node.own_member,
      Json.all_bool, and_true, true_and, object.all_dump hkinds, property.all_dump hkinds]
  | call span callee args =>
    simp only [Expr.dump, Json.all_part hkinds, Expr.visits, if_true, List.forall_mem_cons,
      List.forall_mem_append, List.not_mem_nil, false_implies, implies_true, Node.own_call,
      Json.all_array, and_true, true_and, callee.all_dump hkinds, Expr.all_dumpAll hkinds]

theorem Expr.all_dumpAll (hkinds : NodeKind.AllNames T) (es : List Expr) :
    (∀ j ∈ Expr.dumpAll es, j.All N T) ↔
      ∀ part ∈ Expr.visitsAll (fun _ => true) es, part.Own N T := by
  cases es with
  | nil => exact iff_of_true (List.forall_mem_nil _) (List.forall_mem_nil _)
  | cons e es =>
    rw [Expr.dumpAll, Expr.visitsAll, List.forall_mem_cons, List.forall_mem_append,
      e.all_dump hkinds, Expr.all_dumpAll hkinds es]

theorem Property.all_dump (hkinds : NodeKind.AllNames T) (p : Property) :
    p.dump.All N T ↔ ∀ part ∈ p.visits (fun _ => true), part.Own N T := by
  cases p with
  | mk span key value =>
    simp only [Property.dump, Json.all_part hkinds, List.forall_mem_cons, Json.all_string,
      Expr.all_optionalField, value.all_dump hkinds, Property.visits, if_true, Node.own_property]

theorem Property.all_dumpAll (hkinds : NodeKind.AllNames T) (ps : List Property) :
    (∀ j ∈ Property.dumpAll ps, j.All N T) ↔
      ∀ part ∈ Property.visitsAll (fun _ => true) ps, part.Own N T := by
  cases ps with
  | nil => exact iff_of_true (List.forall_mem_nil _) (List.forall_mem_nil _)
  | cons p ps =>
    rw [Property.dumpAll, Property.visitsAll, List.forall_mem_cons, List.forall_mem_append,
      p.all_dump hkinds, Property.all_dumpAll hkinds ps]

end

theorem Statement.all_dump (hkinds : NodeKind.AllNames T) (s : Statement) :
    s.dump.All N T ↔ ∀ part ∈ s.visits (fun _ => true), part.Own N T := by
  cases s with
  | declaration span constant name value =>
    simp only [Statement.dump, Json.all_part hkinds, List.cons_append, List.nil_append,
      List.forall_mem_cons, Json.all_bool, Json.all_string, Expr.all_optionalField, true_and,
      value.all_dump hkinds, Statement.visits, if_true, Node.own_declaration]
  | expression e => exact e.all_dump hkinds

theorem Node.all_dump (hkinds : NodeKind.AllNames T) (node : Node) :
    node.dump.All N T ↔ ∀ part ∈ node.visits (fun _ => true), part.Own N T := by
  cases node with
  | program p =>
    simp only [Node.dump, Program.dump, Json.all_part hkinds, List.forall_mem_singleton,
      Json.all_array, List.forall_mem_map, Statement.all_dump hkinds, Node.visits, if_true,
      List.forall_mem_cons, Node.own_program, true_and, List.forall_mem_flatMap]
  | statement s => exact s.all_dump hkinds
  | property p => exact p.all_dump hkinds

end All

/-! ## §5. The numbers of a tree that was read. -/

/-- The number that a token stands for. -/
def Token.literal? (t : Token) : Option Float :=
  if t.kind = .number then Number.ofText? t.lexeme else none

theorem Token.literal?_of_kind {t : Token} {k : TokenKind} (h : t.kind = k) (hk : k ≠ .number) :
    t.literal? = none :=
  if_neg (h ▸ hk)

/-- The numbers in a derived tree are those of its tokens, in the same order. -/
theorem Derives.literals {mark : List Token → Span} {phrase : Phrase} {ts : List Token}
    (h : Derives mark phrase ts) :
    phrase.parts.filterMap Node.literal? = ts.filterMap Token.literal? := by
  induction h with
  | value _ ih | sum _ ih | term _ ih | factor _ ih | callee _ ih | base _ ih
  | someArguments _ ih => exact ih
  | assign hl hk hr ih₁ ih₂ =>
    have hnone := Token.literal?_of_kind hk (by decide)
    simp only [Phrase.parts, Expr.parts] at ih₁ ih₂
    simp [Phrase.parts, Expr.parts, Expr.visits, List.filterMap_cons, Node.literal?, Node.ofExpr,
      hnone, ih₁, ih₂]
  | plus hl ho hr ih₁ ih₂ | times hl ho hr ih₁ ih₂ =>
    have hnone := Token.literal?_of_kind ho.1 (by decide)
    simp only [Phrase.parts, Expr.parts] at ih₁ ih₂
    simp [Phrase.parts, Expr.parts, Expr.visits, List.filterMap_cons, Node.literal?, Node.ofExpr,
      hnone, ih₁, ih₂]
  | object ho hd hc ih | list ho hd hc ih | group ho hd hc ih =>
    have hopening := Token.literal?_of_kind ho (by decide)
    have hclosing := Token.literal?_of_kind hc (by decide)
    simp only [Phrase.parts, Expr.parts] at ih
    simp [Phrase.parts, Expr.parts, Expr.visits, List.filterMap_cons, Node.literal?, Node.ofExpr,
      hopening, hclosing, ih]
  | apply hl ho hd hc ih₁ ih₂ | computed hl ho hd hc ih₁ ih₂ =>
    have hopening := Token.literal?_of_kind ho (by decide)
    have hclosing := Token.literal?_of_kind hc (by decide)
    simp only [Phrase.parts, Expr.parts] at ih₁ ih₂
    simp [Phrase.parts, Expr.parts, Expr.visits, List.filterMap_cons, Node.literal?, Node.ofExpr,
      hopening, hclosing, ih₁, ih₂]
  | dotted hl hdot hname ih =>
    have hnone := Token.literal?_of_kind hdot (by decide)
    have hnone' := Token.literal?_of_kind hname (by decide)
    simp only [Phrase.parts, Expr.parts] at ih
    simp [Phrase.parts, Expr.parts, Expr.visits, List.filterMap_cons, Node.literal?, Node.ofExpr,
      hnone, hnone', ih]
  | name hk | string hk =>
    have hnone := Token.literal?_of_kind hk (by decide)
    simp [Phrase.parts, Expr.parts, Expr.visits, List.filterMap_cons, Node.literal?, Node.ofExpr,
      hnone]
  | number hk hw =>
    -- the only production that leaves a number, and the only one with such a token
    simp [Phrase.parts, Expr.parts, Expr.visits, Node.literal?, Node.ofExpr, Token.literal?, hk, hw]
  | noProperties | noItems | noArguments => rfl
  | shorthand hk =>
    have hnone := Token.literal?_of_kind hk (by decide)
    simp [Phrase.parts, Property.visitsAll, Property.visits, Expr.visits, List.filterMap_cons,
      Node.literal?, hnone]
  | shorthandMore hk hc hd ih =>
    have hkey := Token.literal?_of_kind hk (by decide)
    have hcomma := Token.literal?_of_kind hc (by decide)
    simp only [Phrase.parts] at ih
    simp [Phrase.parts, Property.visitsAll, Property.visits, Expr.visits, List.filterMap_cons,
      Node.literal?, hkey, hcomma, ih]
  | keyed hk hc hd ih =>
    have hkey := Token.literal?_of_kind hk (by decide)
    have hcolon := Token.literal?_of_kind hc (by decide)
    simp only [Phrase.parts, Expr.parts] at ih
    simp [Phrase.parts, Property.visitsAll, Property.visits, List.filterMap_cons, Node.literal?,
      hkey, hcolon, ih]
  | keyedMore hk hc hd hm hmore ih₁ ih₂ =>
    have hkey := Token.literal?_of_kind hk (by decide)
    have hcolon := Token.literal?_of_kind hc (by decide)
    have hcomma := Token.literal?_of_kind hm (by decide)
    simp only [Phrase.parts, Expr.parts] at ih₁ ih₂
    simp [Phrase.parts, Property.visitsAll, Property.visits, List.filterMap_cons, Node.literal?,
      hkey, hcolon, hcomma, ih₁, ih₂]
  | item _ ih | argument _ ih =>
    simp only [Phrase.parts, Expr.parts] at ih
    simp [Phrase.parts, Expr.visitsAll, ih]
  | itemMore _ hc _ ih₁ ih₂ | argumentMore _ hc _ ih₁ ih₂ =>
    have hcomma := Token.literal?_of_kind hc (by decide)
    simp only [Phrase.parts, Expr.parts] at ih₁ ih₂
    simp [Phrase.parts, Expr.visitsAll, hcomma, ih₁, ih₂]

theorem Terminates.literals {ts rest : List Token} (h : Terminates ts rest) :
    ts.filterMap Token.literal? = [] := by
  cases h with
  | semicolon hk => exact List.filterMap_cons_none (Token.literal?_of_kind hk (by decide))
  | endOfInput => rfl

theorem DerivesStatement.literals {mark : List Token → Span} {s : Statement}
    {ts rest : List Token} (h : DerivesStatement mark s ts rest) :
    s.parts.filterMap Node.literal? = ts.filterMap Token.literal? := by
  cases h with
  | uninitialized hk hn ht =>
    have hkeyword := Token.literal?_of_kind hk (by decide)
    have hname := Token.literal?_of_kind hn (by decide)
    simp [Statement.parts, Statement.visits, Expr.visits, List.filterMap_cons, Node.literal?,
      hkeyword, hname, ht.literals]
  | initialized constant hk hn he hd ht =>
    have hkeyword := Token.literal?_of_kind hk (by cases constant <;> decide)
    have hname := Token.literal?_of_kind hn (by decide)
    have hequals := Token.literal?_of_kind he (by decide)
    have hvalue := hd.literals
    simp only [Phrase.parts, Expr.parts] at hvalue
    simp [Statement.parts, Statement.visits, List.filterMap_cons, Node.literal?, hkeyword, hname,
      hequals, ht.literals, hvalue]
  | bare hd => exact hd.literals
  | ended hd hk =>
    have hnone := Token.literal?_of_kind hk (by decide)
    rw [List.filterMap_append, List.filterMap_cons_none hnone, List.filterMap_nil, List.append_nil]
    exact hd.literals

theorem Clause.Derived.literals {mark : List Token → Span} {clauses : List Clause}
    (h : Derived mark clauses) :
    ((statements clauses).flatMap Statement.parts).filterMap Node.literal? =
      (tokens clauses).filterMap Token.literal? := by
  induction h with
  | nil => rfl
  | cons hs _ ih =>
    simp only [tokens, statements, List.flatMap_cons, List.map_cons, List.filterMap_append] at ih ⊢
    rw [hs.literals, ih]

/-- **The numbers of a program that was read are those of its tokens.** -/
theorem Program.literals_of_parse {source : Text} {p : Program} {tokens : List Token}
    (hp : Program.parse source = .ok p) (htokens : tokenize source = .ok tokens) :
    p.parts.filterMap Node.literal? = tokens.filterMap Token.literal? := by
  obtain ⟨tokens', clauses, htokens', hd⟩ := derivesProgram_of_parse hp
  rw [htokens] at htokens'
  cases htokens'
  obtain ⟨last, hlast, htok⟩ := hd.tokens_eq
  have hend := Token.literal?_of_kind hlast nofun
  calc p.parts.filterMap Node.literal?
      = ((Clause.statements clauses).flatMap Statement.parts).filterMap Node.literal? := by
        rw [hd.program_eq]
        rfl
    _ = (Clause.tokens clauses).filterMap Token.literal? := hd.derived.literals
    _ = tokens.filterMap Token.literal? := by
        rw [htok, List.filterMap_append, List.filterMap_cons_none hend, List.filterMap_nil,
          List.append_nil]

/-! ## §6. The text of the document. -/

namespace Node

/-- The numbers in a tree, from the first to the last. -/
def literals (node : Node) : List Float := (node.visits fun _ => true).filterMap literal?

/-- Whether every name, string, operator and key in the tree is the encoding of some
    characters. -/
def IsUtf8 (node : Node) : Prop :=
  ∀ part ∈ node.visits (fun _ => true), ∀ t ∈ part.text?, t.IsUtf8

/-- The document of a tree can be written exactly where the numbers in the tree can. -/
theorem writable_dump_iff (node : Node) :
    node.dump.Writable ↔ ∀ x ∈ node.literals, ∃ t, Number.json? x = some t := by
  refine (node.all_dump fun _ => trivial).trans ⟨fun h x hx => ?_, fun h part hpart => ?_⟩
  · obtain ⟨part, hpart, hliteral⟩ := List.mem_filterMap.1 hx
    exact (h part hpart).1 x hliteral
  · exact ⟨fun x hx => h x (List.mem_filterMap.2 ⟨part, hpart, hx⟩), fun _ _ => trivial⟩

theorem not_writable_dump_iff (node : Node) :
    ¬ node.dump.Writable ↔ ∃ x ∈ node.literals, Number.IsNanOrInfinite x := by
  rw [node.writable_dump_iff]
  simp only [not_forall, ← Option.isSome_iff_exists, Bool.not_eq_true, Option.isSome_eq_false_iff,
    Option.isNone_iff_eq_none, Number.json?_eq_none_iff, exists_prop]

/-- The document of a tree that can be written can be read back if the texts in it are encodings
    of characters. -/
theorem IsUtf8.faithful_dump {node : Node} (hutf8 : node.IsUtf8) (h : node.dump.Writable) :
    node.dump.Faithful := by
  refine (node.all_dump fun k => Text.isUtf8_ofString k.name).2 fun part hpart => ?_
  exact ⟨((node.all_dump fun _ => trivial).1 h part hpart).1, hutf8 part hpart⟩

end Node

section Encoding

variable {enc : Json → Except Float Text}

theorem Json.encode_error_iff (henc : enc ∈ Json.encodings) (j : Json) :
    (∃ x, enc j = .error x) ↔ ¬ j.Writable := by
  obtain ⟨lay, hlay⟩ := Json.exists_layout henc
  constructor
  · rintro ⟨x, hx⟩ hwritable
    rw [(hlay j _).2 ⟨hwritable, rfl⟩] at hx
    cases hx
  · intro h
    cases hj : enc j with
    | error x => exact ⟨x, rfl⟩
    | ok t => exact absurd ((hlay j t).1 hj).1 h

theorem Node.encode_error_iff (henc : enc ∈ Json.encodings) (node : Node) :
    (∃ x, enc node.dump = .error x) ↔ ∃ x ∈ node.literals, Number.IsNanOrInfinite x :=
  (Json.encode_error_iff henc node.dump).trans node.not_writable_dump_iff

/-- Trees have the same text exactly where they differ in their places only. -/
theorem Node.IsUtf8.text_eq_iff (henc : enc ∈ Json.encodings) {node node' : Node}
    (hutf8 : node.IsUtf8) (hutf8' : node'.IsUtf8) {t t' : Text} (ht : enc node.dump = .ok t)
    (ht' : enc node'.dump = .ok t') : t = t' ↔ node.clearSpans = node'.clearSpans := by
  obtain ⟨lay, hlay⟩ := Json.exists_layout henc
  obtain ⟨hwritable, rfl⟩ := (hlay _ _).1 ht
  obtain ⟨hwritable', rfl⟩ := (hlay _ _).1 ht'
  rw [← Node.dump_eq_iff]
  constructor
  · exact (hutf8.faithful_dump hwritable).eq_of_write (hutf8'.faithful_dump hwritable')
  · intro h
    rw [h]

/-- The tree without places can be recovered from the text. -/
theorem Node.exists_decoder (henc : enc ∈ Json.encodings) :
    ∃ decode : Text → Option Node, ∀ node : Node, node.IsUtf8 → ∀ t, enc node.dump = .ok t →
      decode t = some node.clearSpans := by
  classical
  -- any tree with this text will do, since all of them are the same without places
  refine ⟨fun t => if h : ∃ node : Node, node.IsUtf8 ∧ enc node.dump = .ok t then
    some h.choose.clearSpans else none, fun node hutf8 t ht => ?_⟩
  have h : ∃ node : Node, node.IsUtf8 ∧ enc node.dump = .ok t := ⟨node, hutf8, ht⟩
  obtain ⟨hchosen, htext⟩ := h.choose_spec
  refine (dif_pos h).trans ?_
  rw [(hchosen.text_eq_iff henc hutf8 htext ht).1 rfl]

/-- Whether the scanner finds a run of digits in the text that is too large for a double. -/
def Text.Overflows (source : Text) : Prop :=
  ∃ tokens, tokenize source = .ok tokens ∧ ∃ t ∈ tokens, t.kind = .number ∧
    t.lexeme.IsNumeral ∧ Number.read (Number.ofDigits t.lexeme) = .infinite false

/-- A number that was read is NaN or infinite only if its digits are too many. -/
theorem Token.Readable.overflows_of_literal {t : Token} {x : Float} (ht : t.Readable)
    (hx : t.literal? = some x) (h : Number.IsNanOrInfinite x) :
    t.kind = .number ∧ t.lexeme.IsNumeral ∧
      Number.read (Number.ofDigits t.lexeme) = .infinite false := by
  unfold Token.literal? at hx
  split at hx
  · next hk =>
    have hnumeral := ht.isNumeral hk
    rw [hnumeral.ofText?] at hx
    cases hx
    refine ⟨hk, hnumeral, (Number.read_ofScientific _).resolve_left ?_⟩
    rintro ⟨d, hd⟩
    rcases h with hnan | ⟨negative, hinfinite⟩
    · rw [Number.ofDigits, hd] at hnan
      cases hnan
    · rw [Number.ofDigits, hd] at hinfinite
      cases hinfinite
  · cases hx

theorem Program.encode_error_iff (henc : enc ∈ Json.encodings) {source : Text} {p : Program}
    (hp : Program.parse source = .ok p) :
    (∃ x, enc p.dump = .error x) ↔ source.Overflows := by
  refine (Node.encode_error_iff henc (.program p)).trans ?_
  obtain ⟨tokens, _, htokens, _⟩ := derivesProgram_of_parse hp
  have hliterals : (Node.program p).literals = tokens.filterMap Token.literal? :=
    Program.literals_of_parse hp htokens
  rw [hliterals]
  constructor
  · rintro ⟨x, hx, hinfinite⟩
    obtain ⟨t, ht, hliteral⟩ := List.mem_filterMap.1 hx
    obtain ⟨ts, stop, hscan, rfl⟩ := tokenize_eq_ok_iff.1 htokens
    have hreadable : t.Readable := by
      rcases List.mem_append.1 ht with hmem | hmem
      · exact (hscan.readable.1 t hmem).1
      · -- the end of the input is no number
        cases List.mem_singleton.1 hmem
        cases hliteral
    exact ⟨_, htokens, t, ht, hreadable.overflows_of_literal hliteral hinfinite⟩
  · rintro ⟨tokens', htokens', t, ht, hk, hnumeral, hoverflow⟩
    rw [htokens] at htokens'
    cases htokens'
    have hliteral : t.literal? = some (Number.ofDigits t.lexeme) := by
      unfold Token.literal?
      rw [if_pos hk, hnumeral.ofText?]
    exact ⟨_, List.mem_filterMap.2 ⟨t, ht, hliteral⟩, .inr ⟨false, hoverflow⟩⟩

/-- **The dump of a tree determines it.**  Encoding fails exactly where a number in the tree is NaN
    or infinite.  Otherwise two trees of valid texts have the same dump exactly where they are
    equal without their places, so these can be decoded from the text.  For a program that was read
    encoding fails exactly where a run of digits in the source is too large for a double. -/
theorem dump_determines_tree (henc : enc ∈ Json.encodings) :
    (∀ node : Node, (∃ x, enc node.dump = .error x) ↔
      ∃ x ∈ node.literals, Number.IsNanOrInfinite x) ∧
    (∀ node node' : Node, node.IsUtf8 → node'.IsUtf8 → ∀ t t', enc node.dump = .ok t →
      enc node'.dump = .ok t' → (t = t' ↔ node.clearSpans = node'.clearSpans)) ∧
    (∃ decode : Text → Option Node, ∀ node : Node, node.IsUtf8 → ∀ t, enc node.dump = .ok t →
      decode t = some node.clearSpans) ∧
    ∀ source p, Program.parse source = .ok p →
      ((∃ x, enc p.dump = .error x) ↔ source.Overflows) :=
  ⟨Node.encode_error_iff henc, fun _ _ hutf8 hutf8' _ _ => hutf8.text_eq_iff henc hutf8',
    Node.exists_decoder henc, fun _ _ => Program.encode_error_iff henc⟩

end Encoding

/-- A list that begins with the expression. -/
def listFrom (first : Expr) : Node :=
  .ofExpr (.list ⟨⟨1, 1⟩, ⟨1, 20⟩⟩ [first, .string .unknown "<é>\n"])

/-- A run of digits that is too large for a double. -/
def nines : Text := List.replicate 309 0x39

theorem isUtf8_listFrom {first : Expr} (h : (Node.ofExpr first).IsUtf8) :
    (listFrom first).IsUtf8 := by
  intro part hpart t ht
  simp only [listFrom, Node.ofExpr, Node.visits, Statement.visits, Expr.visits, Expr.visitsAll,
    if_true, List.append_nil, List.mem_cons, List.mem_append, List.not_mem_nil, or_false] at hpart
  rcases hpart with rfl | hpart | rfl
  · cases ht
  · exact h part hpart t ht
  · cases ht
    exact Text.isUtf8_ofString _

/-- A hole in a list is told from a string that says `null`, and too many digits cannot be
    dumped. -/
theorem dump_determines_tree_holed :
    (∃ t t', Json.encodeIndented (listFrom .absent).dump = .ok t ∧
      Json.encodeIndented (listFrom (.string .unknown "null")).dump = .ok t' ∧ t ≠ t') ∧
    ∃ p, Program.parse nines = .ok p ∧ ∃ x, Json.encodeIndented p.dump = .error x := by
  obtain ⟨_, htext, _, hsource⟩ :=
    @dump_determines_tree Json.encodeIndented (List.mem_cons_of_mem _ List.mem_cons_self)
  have hok : ∀ {r : Except Float Text}, r.toOption.isSome = true → ∃ t, r = .ok t := by
    rintro (x | t) h
    · cases h
    · exact ⟨t, rfl⟩
  constructor
  · have habsent : (Node.ofExpr .absent).IsUtf8 := fun _ h => absurd h List.not_mem_nil
    have hstring : (Node.ofExpr (.string .unknown "null")).IsUtf8 := by
      intro part hpart t ht
      cases List.mem_singleton.1 hpart
      cases ht
      exact Text.isUtf8_ofString _
    obtain ⟨t, ht⟩ := @hok (Json.encodeIndented (listFrom .absent).dump) (by decide +kernel)
    obtain ⟨t', ht'⟩ := @hok (Json.encodeIndented (listFrom (.string .unknown "null")).dump)
      (by decide +kernel)
    refine ⟨t, t', ht, ht', fun heq => ?_⟩
    cases (htext _ _ (isUtf8_listFrom habsent) (isUtf8_listFrom hstring) t t' ht ht').1 heq
  · have htokens : tokenize nines = .ok [⟨.number, nines, ⟨1, 1⟩⟩, .atEnd ⟨1, 310⟩] := by
      decide +kernel
    have hparse : (Program.parse nines).toOption.isSome = true := by decide +kernel
    cases hp : Program.parse nines with
    | error e =>
      rw [hp] at hparse
      cases hparse
    | ok p =>
      refine ⟨p, rfl, (hsource nines p hp).2 ⟨_, htokens, _, List.mem_cons_self, rfl, ?_, ?_⟩⟩
      · exact ⟨by decide +kernel, by decide +kernel⟩
      · decide +kernel

end Scriptorium
