/-
  Scriptorium.Proofs.Evaluation.Custody: what every step keeps, every moment of a run keeps.

  Evaluation in a scope changes a state in few ways.  It counts, prints and logs and reads
  the clock; it declares and assigns names from that scope; it adds containers, and it
  replaces the contents of containers that it got hold of.  It gets hold of values through
  names, from containers and as new ones, and it prints only through a function that it got
  hold of.
  A `Custody` is a property of states, a relation of later states to earlier ones and a
  property of the values that may come up, and lists what has to be shown of these few steps
  for all three to be kept.  The functions of a host may do more than that, so those that
  may come up must keep the three themselves (`Custody.Tolerates`).

  From a custody the property of states follows for all visits of a run and for its end, the
  relation for any two of them in their order, and the property of values for what the run
  gives: for every tree, every limit and every function, after a value and after a stop
  alike.  No tree is taken apart again for it.

  Main results:
    * `Sustains.bind`: steps in a row keep what each of them keeps.
    * `callNative_keeps`: a call keeps it, whatever function is called.
    * `recordNode_sustains`: every visit of an evaluation, and its end.
    * `Course.cut`, `Sustains.keeps`: what a record sustains, the run under any limit keeps.
-/

import Mathlib.Data.List.TakeWhile
import Scriptorium.Proofs.Evaluation.Visits

namespace Scriptorium

/-! ## §1. Custody, and computations that keep it. -/

/-- Whether the limit was used up before the visit. -/
def Visit.exceeds (limit : Int) (v : Visit) : Bool := decide (0 < limit ∧ limit ≤ v.state.steps)

/-- What the run did under a limit: the visits before which it was not used up. -/
def Record.cut {α : Type} (limit : Int) (r : Record α) : Record α :=
  ⟨r.visits.takeWhile fun v => !v.exceeds limit, r.cutAt limit⟩

theorem Record.cutAt_eq {α : Type} (limit : Int) (r : Record α) :
    r.cutAt limit = match r.visits.find? (Visit.exceeds limit) with
      | some v =>
        .error (.error ⟨.stepLimit limit, v.part.span.start⟩)
          { v.state with steps := v.state.steps + 1 }
      | none => r.ending :=
  rfl

/-- A run that gives a value under a limit was not cut. -/
theorem Record.ending_of_cutAt {α : Type} {r : Record α} {limit : Int} {a : α} {m : Machine}
    (h : r.cutAt limit = .ok a m) : r.ending = .ok a m := by
  unfold cutAt at h
  split at h
  · cases h
  · exact h

/-- Whether the value is in the container, under a key or among the items. -/
def Container.Holds : Container → Value → Prop
  | .object fields, v => ∃ key, fields.get? key = some v
  | .list items, v => v ∈ items

theorem Container.holds_object {P : Value → Prop} {fields : OrderedMap Text Value} :
    (∀ v, (Container.object fields).Holds v → P v) ↔ fields.All P := by
  constructor
  · intro h key v hv
    exact h v ⟨key, hv⟩
  · rintro h v ⟨key, hv⟩
    exact h key v hv

/-- Whether the keys and the fields of the container, if it is an object, are in step. -/
def Container.Agrees : Container → Prop
  | .object fields => fields.Agrees
  | .list _ => True

/-- Whether the second container is the first one with one member set. -/
inductive Container.SetsMember : Container → Container → Prop where
  | field (fields : OrderedMap Text Value) (name : Text) (v : Value) :
      SetsMember (.object fields) (.object (fields.insert name v))
  | item (items : List Value) (i : Nat) (v : Value) :
      SetsMember (.list items) (.list (items.set i v))

/-- A property of states, a relation of states to later ones, and the values that may come
    up where the property holds, such that every step of an evaluation in the scope keeps
    them. -/
structure Custody (scope : ScopeId) where
  holds : Machine → Prop
  leads : Machine → Machine → Prop
  fits : Value → Prop
  refl : ∀ m, leads m m
  trans : ∀ m m' m'', leads m m' → leads m' m'' → leads m m''
  /-- Anything but a container or a function may come up anywhere. -/
  plain : ∀ v, (∀ a, v ≠ .ref a) → (∀ fn, v ≠ .native fn) → fits v
  /-- Nothing depends on what was counted and logged, and how often the clock was read. -/
  noted : ∀ m steps readings log, holds m →
    holds { m with steps, readings, log } ∧ leads m { m with steps, readings, log }
  /-- Where a function that prints may come up, nothing depends on what was printed. -/
  printed : ∀ m fn output, holds m → fits (.native fn) → fn.action = .print →
    holds { m with output } ∧ leads m { m with output }
  /-- Names stand for values that may come up. -/
  lookup : ∀ m name v, holds m → m.scopes.lookup scope name = .ok v → fits v
  /-- A name may be declared for such a value. -/
  declare : ∀ m name v constant f, holds m → fits v →
    m.scopes.declare scope name v constant = .ok f →
    holds { m with scopes := f } ∧ leads m { m with scopes := f }
  /-- Such a value may be assigned to a name. -/
  assign : ∀ m name v f, holds m → fits v →
    m.scopes.assign scope name v = .ok f →
    holds { m with scopes := f } ∧ leads m { m with scopes := f }
  /-- A container of such values may be added, and may come up from then on. -/
  alloc : ∀ m c, holds m → c.Agrees → (∀ v, c.Holds v → fits v) →
    (holds { m with heap := (m.heap.alloc c).2 } ∧ leads m { m with heap := (m.heap.alloc c).2 }) ∧
    fits (.ref m.heap.size)
  /-- The members of a container that comes up may come up. -/
  read : ∀ m a c, holds m → fits (.ref a) → m.heap.get? a = some c → ∀ v, c.Holds v → fits v
  /-- A member of a container that comes up may be set to such a value. -/
  write : ∀ m a old c, holds m → fits (.ref a) → m.heap.get? a = some old → old.SetsMember c →
    (∀ v, c.Holds v → fits v) →
    holds { m with heap := m.heap.set a c } ∧ leads m { m with heap := m.heap.set a c }

/-- Two custodies at once. -/
def Custody.meet {scope : ScopeId} (c d : Custody scope) : Custody scope where
  holds := fun m => c.holds m ∧ d.holds m
  leads := fun m m' => c.leads m m' ∧ d.leads m m'
  fits := fun v => c.fits v ∧ d.fits v
  refl := fun m => ⟨c.refl m, d.refl m⟩
  trans := fun m m' m'' h h' => ⟨c.trans m m' m'' h.1 h'.1, d.trans m m' m'' h.2 h'.2⟩
  plain := fun v href hnative => ⟨c.plain v href hnative, d.plain v href hnative⟩
  noted := fun m steps readings log hm =>
    and_and_and_comm.1 ⟨c.noted m steps readings log hm.1, d.noted m steps readings log hm.2⟩
  printed := fun m fn output hm hfn hprint =>
    and_and_and_comm.1 ⟨c.printed m fn output hm.1 hfn.1 hprint,
      d.printed m fn output hm.2 hfn.2 hprint⟩
  lookup := fun m name v hm hv => ⟨c.lookup m name v hm.1 hv, d.lookup m name v hm.2 hv⟩
  declare := fun m name v constant f hm hv hf =>
    and_and_and_comm.1 ⟨c.declare m name v constant f hm.1 hv.1 hf,
      d.declare m name v constant f hm.2 hv.2 hf⟩
  assign := fun m name v f hm hv hf =>
    and_and_and_comm.1 ⟨c.assign m name v f hm.1 hv.1 hf, d.assign m name v f hm.2 hv.2 hf⟩
  alloc := by
    intro m k hm hagrees hk
    obtain ⟨hc, hfits⟩ := c.alloc m k hm.1 hagrees fun v hv => (hk v hv).1
    obtain ⟨hd, hfits'⟩ := d.alloc m k hm.2 hagrees fun v hv => (hk v hv).2
    exact ⟨and_and_and_comm.1 ⟨hc, hd⟩, hfits, hfits'⟩
  read := fun m a k hm ha hget v hv =>
    ⟨c.read m a k hm.1 ha.1 hget v hv, d.read m a k hm.2 ha.2 hget v hv⟩
  write := by
    intro m a old k hm ha hget hset hk
    have hc := c.write m a old k hm.1 ha.1 hget hset fun v hv => (hk v hv).1
    have hd := d.write m a old k hm.2 ha.2 hget hset fun v hv => (hk v hv).2
    exact and_and_and_comm.1 ⟨hc, hd⟩

namespace Eval

variable {α β : Type}

/-- Whether the computation leaves every state as it is. -/
def Still (x : Eval α) : Prop := ∀ m, x.Ensures m (fun _ m' => m' = m) fun _ m' => m' = m

theorem Still.pure (a : α) : Still (pure a) := fun _ => rfl

theorem Still.throw (s : Stop) : Still (throw s : Eval α) := fun _ => rfl

theorem Still.bind {x : Eval α} {f : α → Eval β} (hx : x.Still) (hf : ∀ a, (f a).Still) :
    (x >>= f).Still := by
  intro m
  apply Ensures.bind
  apply (hx m).imp
  · rintro a m' rfl
    exact hf a m'
  · exact fun _ _ h => h

theorem kindOf_still (v : Value) : (kindOf v).Still := by
  intro m
  refine Ensures.get ?_
  cases v.kind? m.heap with
  | some kind => rfl
  | none => rfl

/-- A complaint that names the kind of a value. -/
theorem failKind_still (v : Value) (complaint : Kind → Cause) (pos : Position) :
    (do fail (complaint (← kindOf v)) pos : Eval α).Still :=
  (kindOf_still v).bind fun _ => Still.throw _

end Eval

/-- The key is only read off. -/
theorem memberKey_still (span : Span) (key : Value) : (memberKey span key).Still := by
  unfold memberKey
  split
  · exact .pure _
  · exact .pure _
  · exact Eval.failKind_still _ _ _

/-- So is the index. -/
theorem memberIndex_still (span : Span) (key : Value) (length : Nat) :
    (memberIndex span key length).Still := by
  unfold memberIndex
  split
  · split
    · exact .pure _
    · exact .throw _
  · exact Eval.failKind_still _ _ _

namespace Custody

variable {scope : ScopeId} (c : Custody scope) {α β : Type} {Q : α → Prop} {R : β → Prop}

theorem fits_null : c.fits .null := c.plain _ (fun _ h => nomatch h) fun _ h => nomatch h

theorem fits_number (x : Float) : c.fits (.number x) :=
  c.plain _ (fun _ h => nomatch h) fun _ h => nomatch h

theorem fits_string (t : Text) : c.fits (.string t) :=
  c.plain _ (fun _ h => nomatch h) fun _ h => nomatch h

/-- Whether the property holds in the second state, and the first leads there. -/
structure Onward (m m' : Machine) : Prop where
  holds : c.holds m'
  leads : c.leads m m'

theorem Onward.refl {m : Machine} (hm : c.holds m) : c.Onward m m := ⟨hm, c.refl m⟩

variable {c} in
theorem Onward.trans {m m' m'' : Machine} (h : c.Onward m m') (h' : c.Onward m' m'') :
    c.Onward m m'' :=
  ⟨h'.holds, c.trans m m' m'' h.leads h'.leads⟩

theorem onward_noted {m : Machine} (hm : c.holds m) (steps readings : Nat) (log : List Begun) :
    c.Onward m { m with steps, readings, log } :=
  ⟨(c.noted m steps readings log hm).1, (c.noted m steps readings log hm).2⟩

/-- Whether the computation leads onward, however it ends, and gives a result of this
    sort. -/
def Keeps (x : Eval α) (Q : α → Prop) : Prop :=
  ∀ m, c.holds m → x.Ensures m (fun a m' => c.Onward m m' ∧ Q a) fun _ m' => c.Onward m m'

variable {c}

theorem Keeps.pure {a : α} (h : Q a) : c.Keeps (pure a) Q :=
  fun _ hm => ⟨.refl c hm, h⟩

theorem Keeps.throw (s : Stop) : c.Keeps (throw s : Eval α) Q :=
  fun _ hm => .refl c hm

theorem Keeps.fail (cause : Cause) (pos : Position) : c.Keeps (Eval.fail cause pos : Eval α) Q :=
  Keeps.throw _

theorem Keeps.defect (d : Defect) : c.Keeps (Eval.defect d : Eval α) Q :=
  Keeps.throw _

theorem Keeps.bind {x : Eval α} {f : α → Eval β} (hx : c.Keeps x Q)
    (hf : ∀ a, Q a → c.Keeps (f a) R) : c.Keeps (x >>= f) R := by
  intro m hm
  apply Eval.Ensures.bind
  apply (hx m hm).imp
  · intro a m' ⟨hm', ha⟩
    apply (hf a ha m' hm'.holds).imp
    · exact fun b m'' ⟨hm'', hb⟩ => ⟨hm'.trans hm'', hb⟩
    · exact fun _ m'' hm'' => hm'.trans hm''
  · exact fun _ _ hm' => hm'

/-- What is read from a state is read where the property holds. -/
theorem Keeps.get {f : Machine → Eval β} (h : ∀ m, c.holds m → c.Keeps (f m) R) :
    c.Keeps (get >>= f) R :=
  fun m hm => h m hm m hm

theorem Keeps.modify {g : Machine → Machine} (h : ∀ m, c.holds m → c.Onward m (g m)) :
    c.Keeps (modify g) fun _ => True :=
  fun m hm => ⟨h m hm, trivial⟩

/-- What changes nothing keeps everything. -/
theorem Keeps.still {x : Eval α} (hx : x.Still) : c.Keeps x fun _ => True := by
  intro m hm
  apply (hx m).imp
  · rintro a m' rfl
    exact ⟨.refl c hm, trivial⟩
  · rintro s m' rfl
    exact .refl c hm

/-- An error may receive its place. -/
theorem Keeps.located {result : Except Error α} (pos : Position)
    (h : ∀ a, result = .ok a → Q a) : c.Keeps (Eval.located pos result) Q := by
  cases result with
  | ok a => exact Keeps.pure (h a rfl)
  | error e => exact Keeps.throw _

theorem Keeps.blaming {x : Eval α} (hx : c.Keeps x Q) (pos : Position) :
    c.Keeps (Eval.blaming pos x) Q := by
  intro m hm
  have hrun := hx m hm
  unfold Eval.Ensures at hrun ⊢
  unfold Eval.blaming
  cases he : x m with
  | ok a m' =>
    rw [he] at hrun
    exact hrun
  | error s m' =>
    rw [he] at hrun
    cases s <;> exact hrun

/-! ## §2. The steps of evaluation. -/

theorem log_keeps (b : Begun) :
    c.Keeps (modify fun m => { m with log := m.log ++ [b] }) fun _ => True :=
  Keeps.modify fun m hm => c.onward_noted hm m.steps m.readings (m.log ++ [b])

/-- The time may be read. -/
theorem readClock_keeps (clock : Nat → Float) :
    c.Keeps (Eval.readClock clock) fun _ => True :=
  fun m hm => ⟨c.onward_noted hm m.steps (m.readings + 1) m.log, trivial⟩

theorem alloc_keeps {k : Container} (hagrees : k.Agrees) (hk : ∀ v, k.Holds v → c.fits v) :
    c.Keeps (Eval.alloc k) c.fits := by
  intro m hm
  obtain ⟨⟨hholds, hleads⟩, hfits⟩ := c.alloc m k hm hagrees hk
  exact ⟨⟨hholds, hleads⟩, hfits⟩

/-- A complaint that names the kind of a value. -/
theorem failKind_keeps (v : Value) (complaint : Kind → Cause) (pos : Position) :
    c.Keeps (do Eval.fail (complaint (← Eval.kindOf v)) pos : Eval α) Q :=
  (Keeps.still (Eval.kindOf_still v)).bind fun _ _ => Keeps.fail _ _

theorem write_keeps {fn : Native} (hfn : c.fits (.native fn)) (hprint : fn.action = .print)
    (sink : Sink) (t : Text) : c.Keeps (Eval.write sink t) fun _ => True := by
  intro m hm
  have hset : ∀ output : Text, c.Onward m { m with output } := by
    intro output
    obtain ⟨hholds, hleads⟩ := c.printed m fn output hm hfn hprint
    exact ⟨hholds, hleads⟩
  unfold Eval.Ensures Eval.write
  simp only [bind, EStateM.bind, get, getThe, MonadStateOf.get, EStateM.get, set, EStateM.set]
  cases (sink.answer (m.earlier ++ m.output) t).2 with
  | none => exact ⟨hset _, trivial⟩
  | some reason => exact hset _

section Names

variable {name : Text} {v : Value} {pos : Position}

theorem lookup_keeps : c.Keeps (Eval.lookup scope name pos) c.fits := by
  apply Keeps.get
  intro m hm
  exact Keeps.located pos fun v hv => c.lookup m name v hm hv

/-- A change of the scopes keeps the property if all that it can lead to does. -/
theorem rebind_keeps (change : Forest → Except Error Forest) (hv : c.fits v)
    (h : ∀ m f, c.holds m → change m.scopes = .ok f →
      c.holds { m with scopes := f } ∧ c.leads m { m with scopes := f }) :
    c.Keeps (do
      let scopes ← Eval.located pos (change (← get).scopes)
      modify fun m => { m with scopes }
      return v) c.fits := by
  intro m hm
  unfold Eval.Ensures Eval.located
  simp only [bind, EStateM.bind, get, getThe, MonadStateOf.get, EStateM.get]
  cases hchange : change m.scopes with
  | ok f =>
    obtain ⟨hholds, hleads⟩ := h m f hm hchange
    exact ⟨⟨hholds, hleads⟩, hv⟩
  | error e => exact .refl c hm

theorem declare_keeps {constant : Bool} (hv : c.fits v) :
    c.Keeps (Eval.declare scope name v constant pos) c.fits :=
  rebind_keeps (fun f => f.declare scope name v constant) hv
    fun m f hm hf => c.declare m name v constant f hm hv hf

theorem assign_keeps (hv : c.fits v) : c.Keeps (Eval.assign scope name v pos) c.fits :=
  rebind_keeps (fun f => f.assign scope name v) hv fun m f hm hf => c.assign m name v f hm hv hf

theorem checkUndeclared_keeps : c.Keeps (checkUndeclared scope name pos) fun _ => True := by
  apply Keeps.get
  intro m _
  split
  · exact Keeps.located pos fun _ _ => trivial
  · exact Keeps.pure trivial

end Names

/-! ## §3. Members. -/

section Members

variable {container key v : Value} (span : Span)

theorem readMember_keeps (hcontainer : c.fits container) (key : Value) :
    c.Keeps (readMember span container key) c.fits := by
  unfold readMember
  split
  · next a =>
    apply Keeps.get
    intro m hm
    split
    · next fields hget =>
      have hfields := Container.holds_object.1 (c.read m a _ hm hcontainer hget)
      apply (Keeps.still (memberKey_still span key)).bind
      intro name _
      cases hfield : fields.get? name with
      | none => exact Keeps.pure c.fits_null
      | some v => exact Keeps.pure (hfields.get? hfield)
    · next items hget =>
      have hitems : ∀ v ∈ items, c.fits v := c.read m a _ hm hcontainer hget
      apply (Keeps.still (memberIndex_still span key items.length)).bind
      intro i _
      rw [List.getD_eq_getElem?_getD]
      cases hitem : items[i]? with
      | none => exact Keeps.pure c.fits_null
      | some v => exact Keeps.pure (hitems v (List.mem_of_getElem? hitem))
    · exact Keeps.defect _
  · exact failKind_keeps _ _ _

theorem writeMember_keeps (hcontainer : c.fits container) (key : Value) (hv : c.fits v) :
    c.Keeps (writeMember span container key v) c.fits := by
  intro m hm
  cases container with
  | ref a =>
    -- whichever member it is, it is set in the container that was found
    have hstore : ∀ old new, m.heap.get? a = some old → old.SetsMember new →
        (∀ w, new.Holds w → c.fits w) →
        Eval.Ensures (do
          modify fun m => { m with heap := m.heap.set a new }
          return v) m (fun w m' => c.Onward m m' ∧ c.fits w) fun _ m' => c.Onward m m' := by
      intro old new hget hset hnew
      obtain ⟨hholds, hleads⟩ := c.write m a old new hm hcontainer hget hset hnew
      exact ⟨⟨hholds, hleads⟩, hv⟩
    refine Eval.Ensures.get ?_
    split
    · next fields hget =>
      have hfields := Container.holds_object.1 (c.read m a _ hm hcontainer hget)
      apply Eval.Ensures.bind
      apply (memberKey_still span key m).imp
      · rintro name m' rfl
        exact hstore _ _ hget (.field fields name v)
          (Container.holds_object.2 (hfields.insert name v hv))
      · rintro s m' rfl
        exact .refl c hm
    · next items hget =>
      have hitems : ∀ w ∈ items, c.fits w := c.read m a _ hm hcontainer hget
      apply Eval.Ensures.bind
      apply (memberIndex_still span key items.length m).imp
      · rintro i m' rfl
        apply hstore _ _ hget (.item items i v)
        intro w hw
        rcases List.mem_or_eq_of_mem_set hw with hw | rfl
        · exact hitems w hw
        · exact hv
      · rintro s m' rfl
        exact .refl c hm
    · exact .refl c hm
  | _ => exact failKind_keeps _ _ _ m hm

theorem applyOperator_keeps (operator : Text) (x y : Value) :
    c.Keeps (applyOperator span operator x y) c.fits := by
  unfold applyOperator
  split
  · split
    · exact Keeps.pure (c.fits_number _)
    · exact Keeps.fail _ _
  · exact Keeps.pure c.fits_null

theorem dottedName_keeps (property : Expr) : c.Keeps (dottedName property) c.fits := by
  cases property with
  | identifier _ name => exact Keeps.pure (c.fits_string name)
  | absent => exact Keeps.defect _
  | _ => exact Keeps.fail _ _

/-- A function that is to be called came up as a value. -/
theorem asNative_keeps (hv : c.fits v) :
    c.Keeps (asNative span v) fun fn => c.fits (.native fn) := by
  unfold asNative
  split
  · exact Keeps.pure hv
  · exact failKind_keeps _ _ _

end Members

/-! ## §4. Functions.

No function of the language changes the state but by printing, by a new list and by reading
the clock.  A function of the host may do anything, so that it keeps what every step keeps is
asked of it. -/

variable (c) in
/-- Whether the functions of the host that may come up keep what every step keeps. -/
def Tolerates (o : Outside) : Prop :=
  ∀ fn handle args, c.fits (.native fn) → fn.action = .host handle → (∀ v ∈ args, c.fits v) →
    c.Keeps (o.functions handle scope args) c.fits

section Natives

variable {function : Text} {args : List Value}

theorem numberArgument_keeps (index : Nat) (v : Value) :
    c.Keeps (Action.numberArgument function index v) fun _ => True := by
  unfold Action.numberArgument
  split
  · exact Keeps.pure trivial
  · exact failKind_keeps _ _ _

theorem extremum_keeps {better : Float → Float → Bool} (rest : List Value) (index : Nat)
    (best : Float) : c.Keeps (Action.extremum function better index best rest) fun _ => True := by
  induction rest generalizing index best with
  | nil => exact Keeps.pure trivial
  | cons v rest ih => exact (numberArgument_keeps index v).bind fun _ _ => ih _ _

theorem extremumOf_keeps {better : Float → Float → Bool} (args : List Value) :
    c.Keeps (Action.extremumOf function better args) c.fits := by
  cases args with
  | nil => exact Keeps.pure c.fits_null
  | cons v rest =>
    apply (numberArgument_keeps 1 v).bind
    intro x _
    exact (extremum_keeps rest 2 x).bind fun y _ => Keeps.pure (c.fits_number y)

theorem lengthOf_keeps (v : Value) : c.Keeps (Action.lengthOf v) c.fits := by
  unfold Action.lengthOf
  split
  · exact Keeps.pure (c.fits_number _)
  · apply Keeps.get
    intro m _
    split
    · exact Keeps.pure (c.fits_number _)
    · exact Keeps.pure (c.fits_number _)
    · exact Keeps.defect _
  · exact failKind_keeps _ _ _

theorem keysOf_keeps (v : Value) : c.Keeps (Action.keysOf v) c.fits := by
  apply Keeps.get
  intro m _
  dsimp only
  split
  · split
    · next fields _ =>
      apply alloc_keeps (k := .list (fields.keys.map .string)) trivial
      intro w hw
      obtain ⟨key, _, rfl⟩ := List.mem_map.1 hw
      exact c.fits_string key
    · exact failKind_keeps _ _ _
  · exact failKind_keeps _ _ _

theorem formatted_keeps (find : Text → Option (Float → Text)) (v : Value)
    (locale : Option Value) : c.Keeps (Action.formatted find v locale) c.fits := by
  have hlocale : c.Keeps (Action.localeOf locale) fun _ => True := by
    unfold Action.localeOf
    split
    · exact Keeps.pure trivial
    · exact Keeps.pure trivial
    · exact failKind_keeps _ _ _
  unfold Action.formatted
  split
  · apply hlocale.bind
    intro name _
    split
    · exact Keeps.pure (c.fits_string _)
    · exact Keeps.fail _ _
  · exact failKind_keeps _ _ _

/-- Every function that came up, called in the scope with values that did. -/
theorem run_keeps {settings : Settings} (hhost : c.Tolerates settings.outside) {fn : Native}
    (hfn : c.fits (.native fn)) (hargs : ∀ v ∈ args, c.fits v) :
    c.Keeps (fn.action.run settings scope args) c.fits := by
  cases haction : fn.action with
  | print =>
    apply Keeps.get
    intro m _
    apply (write_keeps hfn haction settings.sink _).bind
    exact fun _ _ => Keeps.pure c.fits_null
  | greatest => exact extremumOf_keeps args
  | least => exact extremumOf_keeps args
  | length =>
    cases args with
    | nil => exact Keeps.defect _
    | cons v rest => exact lengthOf_keeps v
  | keys =>
    cases args with
    | nil => exact Keeps.defect _
    | cons v rest => exact keysOf_keeps v
  | clock =>
    apply (readClock_keeps settings.outside.clock).bind
    exact fun _ _ => Keeps.pure (c.fits_number _)
  | formatNumber =>
    match args with
    | [] => exact Keeps.fail _ _
    | [v] => exact formatted_keeps _ v none
    | [v, locale] => exact formatted_keeps _ v (some locale)
    | _ :: _ :: _ :: _ => exact Keeps.fail _ _
  | host handle => exact hhost fn handle args hfn haction hargs

/-- **A call keeps what every step keeps**, whatever function is called. -/
theorem callNative_keeps {settings : Settings} (hhost : c.Tolerates settings.outside)
    (span : Span) {fn : Native} (hfn : c.fits (.native fn)) (hargs : ∀ v ∈ args, c.fits v) :
    c.Keeps (callNative settings scope span fn args) c.fits := by
  have hrun := (run_keeps hhost hfn hargs).blaming span.start
  unfold callNative
  split
  · refine (Keeps.fail (Q := fun _ => True) _ _).bind fun _ _ => hrun.bind fun v hv => ?_
    split
    · exact Keeps.pure c.fits_null
    · exact Keeps.pure hv
  · refine hrun.bind fun v hv => ?_
    split
    · exact Keeps.pure c.fits_null
    · exact Keeps.pure hv

end Natives

/-! ## §5. Records. -/

variable (c) in
/-- Whether the visits come one after the other on the way from the first state to the
    second. -/
structure Course (m : Machine) (visits : List Visit) (m' : Machine) : Prop where
  begins : ∀ v ∈ visits, c.Onward m v.state
  order : visits.Pairwise fun v w => c.leads v.state w.state
  ends : ∀ v ∈ visits, c.leads v.state m'
  arrives : c.Onward m m'

theorem Course.nil {m m' : Machine} (h : c.Onward m m') : c.Course m [] m' :=
  ⟨List.forall_mem_nil _, .nil, List.forall_mem_nil _, h⟩

/-- Two ways in a row. -/
theorem Course.append {m m' m'' : Machine} {visits visits' : List Visit}
    (h : c.Course m visits m') (h' : c.Course m' visits' m'') :
    c.Course m (visits ++ visits') m'' where
  begins := List.forall_mem_append.2 ⟨h.begins, fun v hv => h.arrives.trans (h'.begins v hv)⟩
  order := by
    refine List.pairwise_append.2 ⟨h.order, h'.order, ?_⟩
    intro v hv w hw
    exact c.trans _ m' _ (h.ends v hv) (h'.begins w hw).leads
  ends := by
    refine List.forall_mem_append.2 ⟨?_, h'.ends⟩
    exact fun v hv => c.trans _ m' _ (h.ends v hv) h'.arrives.leads
  arrives := h.arrives.trans h'.arrives

variable (c) in
/-- Whether the recorded computation leads onward from visit to visit and however it ends,
    and gives a result of this sort. -/
def Sustains (x : Recorded α) (Q : α → Prop) : Prop :=
  ∀ m, c.holds m → c.Course m (x m).visits (x m).after ∧ ∀ a m', (x m).ending = .ok a m' → Q a

theorem Sustains.plain {x : Eval α} (hx : c.Keeps x Q) : c.Sustains (.plain x) Q := by
  intro m hm
  have hrun := hx m hm
  unfold Eval.Ensures at hrun
  unfold Recorded.plain Record.after
  cases he : x m with
  | ok a m' =>
    rw [he] at hrun
    refine ⟨.nil hrun.1, ?_⟩
    intro a' m'' heq
    cases heq
    exact hrun.2
  | error s m' =>
    rw [he] at hrun
    exact ⟨.nil hrun, fun _ _ heq => nomatch heq⟩

theorem Sustains.pure {a : α} (h : Q a) : c.Sustains (Pure.pure a) Q :=
  Sustains.plain (Keeps.pure h)

theorem Sustains.visit (part : Node) : c.Sustains (.visit part) fun _ => True := by
  intro m hm
  have hcounted := c.onward_noted hm (m.steps + 1) m.readings m.log
  refine ⟨⟨?_, List.pairwise_singleton _ _, ?_, hcounted⟩, fun _ _ _ => trivial⟩
  · exact List.forall_mem_singleton.2 (.refl c hm)
  · exact List.forall_mem_singleton.2 hcounted.leads

/-- Steps in a row keep what each of them keeps. -/
theorem Sustains.bind {x : Recorded α} {f : α → Recorded β} (hx : c.Sustains x Q)
    (hf : ∀ a, Q a → c.Sustains (f a) R) : c.Sustains (x >>= f) R := by
  intro m hm
  obtain ⟨hcourse, hresult⟩ := hx m hm
  show c.Course m (Recorded.bind x f m).visits (Recorded.bind x f m).after ∧
    ∀ b m', (Recorded.bind x f m).ending = .ok b m' → R b
  unfold Recorded.bind
  rcases he : x m with ⟨visits, ⟨a, m'⟩ | ⟨s, m'⟩⟩
  · rw [he] at hcourse hresult
    obtain ⟨hcourse', hresult'⟩ := hf a (hresult a m' rfl) m' hcourse.arrives.holds
    exact ⟨hcourse.append hcourse', hresult'⟩
  · rw [he] at hcourse
    exact ⟨hcourse, fun _ _ heq => nomatch heq⟩

/-- Two ways to the same continuation. -/
theorem Sustains.branch {p : Prop} [Decidable p] {x y : Recorded α} {f : α → Recorded β}
    (hx : c.Sustains x Q) (hy : c.Sustains y Q) (hf : ∀ a, Q a → c.Sustains (f a) R) :
    c.Sustains (if p then x >>= f else y >>= f) R := by
  split
  · exact hx.bind hf
  · exact hy.bind hf

/-- The course of a run that a limit cuts. -/
theorem Course.cut {m : Machine} {r : Record α} (h : c.Course m r.visits r.after) (limit : Int) :
    c.Course m (r.cut limit).visits (r.cut limit).after := by
  unfold Record.cut
  rw [Record.cutAt_eq]
  cases hfind : r.visits.find? (Visit.exceeds limit) with
  | none =>
    have hall : r.visits.takeWhile (fun v => !v.exceeds limit) = r.visits := by
      refine List.takeWhile_eq_self_iff.2 fun v hv => ?_
      simpa using List.find?_eq_none.1 hfind v hv
    rw [hall]
    exact h
  | some v =>
    -- what was visited stands before the visit that was about to begin
    obtain ⟨hv, before, rest, hvisits, hbefore⟩ := List.find?_eq_some_iff_append.1 hfind
    have htaken : r.visits.takeWhile (fun v => !v.exceeds limit) = before := by
      rw [hvisits, List.takeWhile_append_of_pos hbefore, List.takeWhile_cons_of_neg (by simp [hv]),
        List.append_nil]
    have horder := h.order
    rw [hvisits, List.pairwise_append] at horder
    have hmem : ∀ w ∈ before, w ∈ r.visits := by
      intro w hw
      rw [hvisits]
      exact List.mem_append_left _ hw
    have hstart := h.begins v (List.mem_of_find?_eq_some hfind)
    have hstop := c.onward_noted hstart.holds (v.state.steps + 1) v.state.readings v.state.log
    rw [htaken]
    refine ⟨fun w hw => h.begins w (hmem w hw), horder.1, ?_, hstart.trans hstop⟩
    intro w hw
    exact c.trans _ v.state _ (horder.2.2 w hw v List.mem_cons_self) hstop.leads

/-- What a record sustains, the run under any limit keeps. -/
theorem Sustains.keeps {o : Outside} {limit : Int} {cost : Nat} {r : Recorded α} {x : Eval α}
    (hr : c.Sustains r Q) (hx : Records o limit cost r x) : c.Keeps x Q := by
  intro m hm
  obtain ⟨hcourse, hresult⟩ := hr m hm
  have harrives := (hcourse.cut limit).arrives
  unfold Record.after at harrives
  unfold Eval.Ensures
  rw [hx.cut m]
  cases he : (r m).cutAt limit with
  | ok a m' =>
    rw [show ((r m).cut limit).ending = _ from he] at harrives
    exact ⟨harrives, hresult a m' (Record.ending_of_cutAt he)⟩
  | error s m' =>
    rw [show ((r m).cut limit).ending = _ from he] at harrives
    exact harrives

/-! ## §6. Trees. -/

section Trees

variable {settings : Settings}

mutual

/-- The evaluation of an expression keeps what every step keeps. -/
theorem recordExpr_sustains (hhost : c.Tolerates settings.outside) (e : Expr) :
    c.Sustains (recordExpr settings scope e) c.fits := by
  cases e with
  | absent =>
    rw [recordExpr]
    exact .plain (.fail _ _)
  | identifier span name =>
    rw [recordExpr]
    exact (Sustains.visit _).bind fun _ _ => .plain lookup_keeps
  | number span x =>
    rw [recordExpr]
    exact (Sustains.visit _).bind fun _ _ => .pure (c.fits_number x)
  | string span t =>
    rw [recordExpr]
    exact (Sustains.visit _).bind fun _ _ => .pure (c.fits_string t)
  | binary span operator left right =>
    rw [recordExpr]
    apply (Sustains.visit _).bind
    intro _ _
    apply (recordExpr_sustains hhost left).bind
    intro x _
    apply (recordExpr_sustains hhost right).bind
    intro y _
    exact .plain (applyOperator_keeps span operator x y)
  | assign span target value =>
    cases target with
    | identifier tspan name =>
      rw [recordExpr]
      apply (Sustains.visit _).bind
      intro _ _
      apply (recordExpr_sustains hhost value).bind
      intro v hv
      exact .plain (assign_keeps hv)
    | member tspan object property computed =>
      rw [recordExpr]
      apply (Sustains.visit _).bind
      intro _ _
      apply (recordExpr_sustains hhost object).bind
      intro container hcontainer
      apply Sustains.branch (recordExpr_sustains hhost property)
        (.plain (dottedName_keeps property))
      intro key _
      apply (recordExpr_sustains hhost value).bind
      intro v hv
      exact .plain (writeMember_keeps tspan hcontainer key hv)
    | absent =>
      simp only [recordExpr, Expr.kind?]
      exact (Sustains.visit _).bind fun _ _ => .plain (.defect _)
    | _ =>
      simp only [recordExpr, Expr.kind?]
      exact (Sustains.visit _).bind fun _ _ => .plain (.fail _ _)
  | object span properties =>
    rw [recordExpr]
    apply (Sustains.visit _).bind
    intro _ _
    apply (recordProperties_sustains hhost properties .empty OrderedMap.all_empty).bind
    rintro fields ⟨hagrees, hfields⟩
    exact .plain (alloc_keeps hagrees (Container.holds_object.2 hfields))
  | list span items =>
    rw [recordExpr]
    apply (Sustains.visit _).bind
    intro _ _
    apply (recordExprs_sustains hhost items).bind
    intro values hvalues
    exact .plain (alloc_keeps (k := .list values) trivial hvalues)
  | member span object property computed =>
    rw [recordExpr]
    apply (Sustains.visit _).bind
    intro _ _
    apply (recordExpr_sustains hhost object).bind
    intro container hcontainer
    apply Sustains.branch (recordExpr_sustains hhost property) (.plain (dottedName_keeps property))
    intro key _
    exact .plain (readMember_keeps span hcontainer key)
  | call span callee args =>
    rw [recordExpr]
    apply (Sustains.visit _).bind
    intro _ _
    apply (recordExpr_sustains hhost callee).bind
    intro v hv
    apply (Sustains.plain (asNative_keeps span hv)).bind
    intro fn hfn
    apply (recordExprs_sustains hhost args).bind
    intro values hvalues
    exact .plain (callNative_keeps hhost span hfn hvalues)

theorem recordExprs_sustains (hhost : c.Tolerates settings.outside) (es : List Expr) :
    c.Sustains (recordExprs settings scope es) fun values => ∀ v ∈ values, c.fits v := by
  cases es with
  | nil =>
    rw [recordExprs]
    exact .pure (List.forall_mem_nil _)
  | cons e rest =>
    rw [recordExprs]
    apply (recordExpr_sustains hhost e).bind
    intro v hv
    apply (recordExprs_sustains hhost rest).bind
    intro values hvalues
    exact .pure (List.forall_mem_cons.2 ⟨hv, hvalues⟩)

theorem recordProperties_sustains (hhost : c.Tolerates settings.outside) (ps : List Property)
    {fields : OrderedMap Text Value} (hagrees : fields.Agrees) (hfields : fields.All c.fits) :
    c.Sustains (recordProperties settings scope ps fields) fun fs =>
      fs.Agrees ∧ fs.All c.fits := by
  cases ps with
  | nil =>
    rw [recordProperties]
    exact .pure ⟨hagrees, hfields⟩
  | cons p rest =>
    obtain ⟨span, key, value⟩ := p
    have hnext : ∀ v, c.fits v →
        c.Sustains (recordProperties settings scope rest (fields.insert key v)) fun fs =>
          fs.Agrees ∧ fs.All c.fits := by
      intro v hv
      exact recordProperties_sustains hhost rest (hagrees.insert key v) (hfields.insert key v hv)
    by_cases habsent : value = .absent
    · subst habsent
      rw [recordProperties]
      exact (Sustains.plain lookup_keeps).bind hnext
    · rw [recordProperties]
      · exact (recordExpr_sustains hhost value).bind hnext
      · exact habsent

end

theorem recordStatement_sustains (hhost : c.Tolerates settings.outside) (s : Statement) :
    c.Sustains (recordStatement settings scope s) c.fits := by
  cases s with
  | expression e => exact recordExpr_sustains hhost e
  | declaration span constant name value =>
    rw [recordStatement]
    apply (Sustains.visit _).bind
    intro _ _
    apply (Sustains.plain checkUndeclared_keeps).bind
    intro _ _
    apply Sustains.branch (.pure c.fits_null) (recordExpr_sustains hhost value)
    intro v hv
    exact .plain (declare_keeps hv)

/-- Statements, one after the other. -/
theorem recordBody_sustains (hhost : c.Tolerates settings.outside) (body : List Statement)
    (index : Nat) {last : Value} (hlast : c.fits last) :
    c.Sustains (recordBody settings scope index last body) c.fits := by
  induction body generalizing index last with
  | nil =>
    rw [recordBody]
    exact .pure hlast
  | cons s rest ih =>
    rw [recordBody]
    cases s.kind? with
    | none => exact .plain (.defect _)
    | some kind =>
      apply (Sustains.plain (log_keeps _)).bind
      intro _ _
      apply (recordStatement_sustains hhost s).bind
      intro v hv
      exact ih (index + 1) hv

/-- **Every visit of an evaluation keeps what every step keeps**, and so does its end. -/
theorem recordNode_sustains (hhost : c.Tolerates settings.outside) (node : Node) :
    c.Sustains (recordNode settings scope node) c.fits := by
  cases node with
  | program p =>
    apply (Sustains.visit _).bind
    intro _ _
    exact recordBody_sustains hhost p.body 0 c.fits_null
  | statement s => exact recordStatement_sustains hhost s
  | property p => exact (Sustains.visit _).bind fun _ _ => .plain (.fail _ _)

/-- Any part of a tree, evaluated under the limit that there is. -/
theorem evalNode_keeps (hhost : c.Tolerates settings.outside) (node : Node) :
    c.Keeps (evalNode settings scope node) c.fits :=
  (recordNode_sustains hhost node).keeps (recordNode_records scope settings.stepLimit node)

end Trees

/-- In a session, the property holds after an evaluation if it holds when it starts. -/
theorem holds_evaluate (i : Interpreter) (hhost : c.Tolerates i.settings.outside) (node : Node)
    (h : c.holds i.start) : c.holds (i.evaluate scope node).2.machine := by
  rcases Interpreter.evaluate_ensures (evalNode_keeps hhost node i.start h) with
    ⟨_, _, hholds, _⟩ | ⟨_, _, hholds⟩
  · exact hholds.holds
  · exact hholds.holds

end Custody

end Scriptorium
