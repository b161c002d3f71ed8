/-
  Scriptorium.Proofs.Evaluation.Slots: a member that was written is read wherever it is shared.

  A container has slots: an object one for every name, a list one for every index below its
  length.  A key denotes a slot or none; reading and writing with it go through where it
  denotes one, and are refused for the same reason where it does not.  A number denotes an
  item if its exact value is the index, whatever double it is, so negative zero denotes the
  first item and NaN none.

  A write replaces what is in one slot.  It is seen through every name for the container and
  with every key that denotes the slot, and nothing else in the heap or the scopes differs.

  Main results:
    * `indexOf_eq_ok_iff`: the index of a number is the integer it equals.
    * `Container.find_eq_ok_iff`: which slot is found for a key.
    * `Heap.slot?_put`: a write is seen in its slot and nowhere else.
    * `readMember_eq`, `writeMember_eq`: members are read and written by slots.
    * `members_written_are_read`: assignments `a[k] = e` and what `b[k']` is after them.
-/

import Scriptorium.Proofs.Evaluation.Growth
import Scriptorium.Proofs.Numbers.Decimals

namespace Scriptorium

/-! ## §1. Numbers that are indexes. -/

namespace Number

/-- The exact value. -/
def Dyadic.value (d : Dyadic) : ℚ :=
  if d.negative then -(d.mantissa * 2 ^ d.exponent) else d.mantissa * 2 ^ d.exponent

/-- Whether the number is finite and its exact value is the integer. -/
def Equals (x : Float) (i : Int) : Prop := ∃ d, read x = .finite d ∧ d.value = i

/-- The magnitude is a natural number exactly if there is no fraction and that is its whole
    part. -/
theorem magnitude_eq_iff (d : Dyadic) (n : Nat) :
    (d.mantissa * 2 ^ d.exponent : ℚ) = n ↔ d.isWhole = true ∧ d.whole = n := by
  have hmatches : (d.mantissa * 2 ^ d.exponent : ℚ) = n ↔ Matches d.mantissa d.exponent n := by
    have hpos : (2 : ℚ) ^ (-d.exponent).toNat ≠ 0 := by positivity
    unfold Matches
    rw [zpow_eq_div 2 (by norm_num), ← mul_div_assoc, div_eq_iff hpos]
    exact_mod_cast Iff.rfl
  rw [hmatches]
  constructor
  · intro h
    have hwhole : d.isWhole = true := by
      unfold Dyadic.isWhole
      by_cases he : 0 ≤ d.exponent
      · simp [he]
      · unfold Matches at h
        rw [show d.exponent.toNat = 0 by omega, Nat.pow_zero, Nat.mul_one] at h
        simp [h]
    refine ⟨hwhole, ?_⟩
    -- both match, so they agree
    have h' := matches_whole hwhole
    unfold Matches at h h'
    exact Nat.eq_of_mul_eq_mul_right (Nat.two_pow_pos _) (h'.symm.trans h)
  · rintro ⟨hwhole, rfl⟩
    exact matches_whole hwhole

/-- What a natural number is exactly: zero may have a sign. -/
theorem Dyadic.value_eq_iff (d : Dyadic) (n : Nat) :
    d.value = (n : Int) ↔
      d.isWhole = true ∧ d.whole = n ∧ (d.negative = true → d.mantissa = 0) := by
  rw [← and_assoc, ← magnitude_eq_iff, Int.cast_natCast]
  unfold value
  have hnonneg : (0 : ℚ) ≤ d.mantissa * 2 ^ d.exponent := by positivity
  cases hsign : d.negative with
  | false => simp
  | true =>
    rw [if_pos rfl]
    constructor
    · intro h
      have hn : (0 : ℚ) ≤ n := by positivity
      have hzero : (d.mantissa * 2 ^ d.exponent : ℚ) = 0 := by linarith
      refine ⟨by linarith, fun _ => ?_⟩
      have hmantissa := (mul_eq_zero.1 hzero).resolve_right (by positivity)
      exact_mod_cast hmantissa
    · rintro ⟨h, hzero⟩
      rw [hzero rfl] at h ⊢
      simpa using h

end Number

/-- **The index of a number is the integer it equals**, if the list has such an item. -/
theorem indexOf_eq_ok_iff {x : Float} {length i : Nat} :
    indexOf x length = .ok i ↔ Number.Equals x i ∧ i < length := by
  unfold indexOf Number.Equals
  cases hread : Number.read x with
  | nan => simp
  | infinite negative => simp
  | finite d =>
    simp only [Number.Reading.finite.injEq, exists_eq_left', Number.Dyadic.value_eq_iff]
    by_cases hwhole : d.isWhole = true
    · rw [if_pos hwhole]
      by_cases hout : (d.negative && decide (d.mantissa ≠ 0) || decide (length ≤ d.whole)) = true
      · rw [if_pos hout]
        simp only [Bool.or_eq_true, Bool.and_eq_true, decide_eq_true_eq] at hout
        constructor
        · exact fun h => nomatch h
        · rintro ⟨⟨_, rfl, hzero⟩, hlt⟩
          rcases hout with ⟨hsign, hne⟩ | hle
          · exact absurd (hzero hsign) hne
          · omega
      · rw [if_neg hout, Except.ok.injEq]
        simp only [Bool.or_eq_true, Bool.and_eq_true, decide_eq_true_eq, not_or, not_and,
          not_not] at hout
        constructor
        · rintro rfl
          exact ⟨⟨hwhole, rfl, hout.1⟩, by omega⟩
        · exact fun h => h.1.2.1
    · rw [if_neg hwhole]
      constructor
      · exact fun h => nomatch h
      · exact fun h => absurd h.1.1 hwhole

/-! ## §2. Slots. -/

/-- A place for a value in a container. -/
inductive Slot where
  /-- The field of an object with this name. -/
  | field (name : Text)
  /-- The item of a list at this index. -/
  | item (index : Nat)
deriving DecidableEq, Repr

namespace Container

/-- What is in a slot, if there is anything. -/
def slot? : Container → Slot → Option Value
  | .object fields, .field name => fields.get? name
  | .list items, .item i => items[i]?
  | _, _ => none

/-- `c.Denotes key slot`: the key stands for the slot.  The fields of an object go by their
    names, or by numbers with that text; the items of a list by numbers equal to the index. -/
inductive Denotes : Container → Value → Slot → Prop where
  | name {fields} (t : Text) : Denotes (.object fields) (.string t) (.field t)
  | numeral {fields} (x : Float) : Denotes (.object fields) (.number x) (.field (Number.text x))
  | index {items x} {i : Nat} (equals : Number.Equals x i) (inside : i < items.length) :
      Denotes (.list items) (.number x) (.item i)

/-- The container with a value put into a slot. -/
def put : Container → Slot → Value → Container
  | .object fields, .field name, v => .object (fields.insert name v)
  | .list items, .item i, v => .list (items.set i v)
  | c, _, _ => c

/-- The slot that is used for a key of this kind, or the reason to stop. -/
def find (span : Span) (kind : Option Kind) : Container → Value → Except Stop Slot
  | .object _, .string t => .ok (.field t)
  | .object _, .number x => .ok (.field (Number.text x))
  | .list items, .number x =>
    match indexOf x items.length with
    | .ok i => .ok (.item i)
    | .error cause => .error (.error ⟨cause, span.start⟩)
  | c, _ =>
    match kind with
    | none => .error (.defect .absentValue)
    | some kind =>
      match c with
      | .object _ => .error (.error ⟨.objectKey kind, span.start⟩)
      | .list _ => .error (.error ⟨.indexKind kind, span.start⟩)

variable {c : Container} {span : Span} {kind : Option Kind} {key : Value} {slot : Slot}

/-- **Which slot is found for a key**: the one that it denotes. -/
theorem find_eq_ok_iff : c.find span kind key = .ok slot ↔ c.Denotes key slot := by
  constructor
  · intro h
    unfold find at h
    split at h
    · cases h
      exact .name _
    · cases h
      exact .numeral _
    · split at h
      · next hindex =>
        cases h
        obtain ⟨hequals, hinside⟩ := indexOf_eq_ok_iff.1 hindex
        exact .index hequals hinside
      · cases h
    · split at h
      · cases h
      · split at h <;> cases h
  · intro h
    cases h with
    | name t => rfl
    | numeral x => rfl
    | index hequals hinside =>
      unfold find
      dsimp only
      rw [indexOf_eq_ok_iff.2 ⟨hequals, hinside⟩]

/-- A key denotes one slot at most. -/
theorem Denotes.unique {slot' : Slot} (h : c.Denotes key slot) (h' : c.Denotes key slot') :
    slot = slot' := by
  have hfound : c.find ⟨.unknown, .unknown⟩ none key = .ok slot := find_eq_ok_iff.2 h
  rw [find_eq_ok_iff.2 h'] at hfound
  cases hfound
  rfl

/-- A number that denotes no slot is an error. -/
theorem find_number {x : Float} {stop : Stop} (h : c.find span kind (.number x) = .error stop) :
    ∃ cause, stop = .error ⟨cause, span.start⟩ := by
  cases c with
  | object fields => cases h
  | list items =>
    unfold find at h
    dsimp only at h
    split at h
    · cases h
    · cases h
      exact ⟨_, rfl⟩

/-- What was put into a container does not change where its keys lead. -/
theorem find_put (c : Container) (slot : Slot) (v : Value) (span : Span) (kind : Option Kind)
    (key : Value) : (c.put slot v).find span kind key = c.find span kind key := by
  cases c with
  | object fields => cases slot <;> cases key <;> rfl
  | list items =>
    cases slot with
    | field name => rfl
    | item i =>
      unfold put find
      cases key <;> simp only [List.length_set]

/-- What is put into a slot is there, and every other slot is as it was. -/
theorem slot?_put (h : c.Denotes key slot) (v : Value) (other : Slot) :
    (c.put slot v).slot? other = if other = slot then some v else c.slot? other := by
  have hfield : ∀ (fields : OrderedMap Text Value) (t : Text),
      (put (.object fields) (.field t) v).slot? other =
        if other = .field t then some v else (Container.object fields).slot? other := by
    intro fields t
    cases other with
    | item i => rfl
    | field t' =>
      show (fields.insert t v).get? t' = if Slot.field t' = .field t then some v else fields.get? t'
      rw [OrderedMap.get?_insert]
      simp only [Slot.field.injEq, eq_comm]
  cases h with
  | name t => exact hfield _ t
  | numeral x => exact hfield _ (Number.text x)
  | @index items x i hequals hinside =>
    cases other with
    | field t => rfl
    | item i' =>
      show (items.set i v)[i']? = if Slot.item i' = .item i then some v else items[i']?
      rw [List.getElem?_set, if_pos hinside]
      simp only [Slot.item.injEq, eq_comm]

/-- Whether a key of this kind can be used: on an object a string or a number, on a list a
    number equal to an integer from zero to below the length. -/
def Accepts : Container → Value → Prop
  | .object _, key => (∃ t, key = .string t) ∨ ∃ x, key = .number x
  | .list items, key =>
    ∃ (x : Float) (i : Int), key = .number x ∧ Number.Equals x i ∧ 0 ≤ i ∧ i < items.length

/-- The keys that can be used are those that denote a slot. -/
theorem accepts_iff : c.Accepts key ↔ ∃ slot, c.Denotes key slot := by
  cases c with
  | object fields =>
    constructor
    · rintro (⟨t, rfl⟩ | ⟨x, rfl⟩)
      · exact ⟨_, .name t⟩
      · exact ⟨_, .numeral x⟩
    · rintro ⟨slot, h⟩
      cases h with
      | name t => exact .inl ⟨t, rfl⟩
      | numeral x => exact .inr ⟨x, rfl⟩
  | list items =>
    constructor
    · rintro ⟨x, i, rfl, hequals, hnonneg, hlt⟩
      lift i to Nat using hnonneg
      exact ⟨_, .index hequals (by omega)⟩
    · rintro ⟨slot, h⟩
      cases h with
      | @index _ x i hequals hinside => exact ⟨x, i, rfl, hequals, by omega, by omega⟩

end Container

namespace Heap

variable {h : Heap} {p : Address} {c : Container} {key : Value} {slot : Slot}

/-- What is in a slot of the container at an address. -/
def slot? (h : Heap) (a : Address) (s : Slot) : Option Value := (h.get? a).bind fun c => c.slot? s

/-- **A write is seen in its slot and nowhere else.** -/
theorem slot?_put (hc : h.get? p = some c) (hslot : c.Denotes key slot) (v : Value) (a : Address)
    (s : Slot) : (h.set p (c.put slot v)).slot? a s =
      if a = p ∧ s = slot then some v else h.slot? a s := by
  unfold slot?
  rw [get?_set]
  by_cases ha : p = a
  · subst ha
    rw [if_pos rfl, hc]
    show (c.put slot v).slot? s = _
    rw [Container.slot?_put hslot]
    simp
  · rw [if_neg ha, if_neg fun h => ha h.1.symm]

/-- A container is of the same kind after a write. -/
theorem kind?_put (hc : h.get? p = some c) (slot : Slot) (v w : Value) :
    w.kind? (h.set p (c.put slot v)) = w.kind? h := by
  cases w with
  | ref a =>
    simp only [Value.kind?]
    rw [get?_set]
    by_cases ha : p = a
    · subst ha
      rw [if_pos rfl, hc]
      cases c <;> cases slot <;> rfl
    · rw [if_neg ha]
  | _ => rfl

end Heap

/-! ## §3. Reading and writing by slots. -/

section Members

variable {m : Machine} {p : Address} {c : Container}

/-- The kind of a value, or the defect that it has none. -/
theorem Eval.kindOf_eq (v : Value) (m : Machine) :
    kindOf v m = match v.kind? m.heap with
      | some kind => .ok kind m
      | none => .error (.defect .absentValue) m := by
  show (match v.kind? m.heap with
    | some kind => pure kind
    | none => defect .absentValue : Eval Kind) m = _
  cases v.kind? m.heap with
  | some kind => rfl
  | none => rfl

/-- Whether the computation leaves the state as it is and gives what the slot is known by, or
    stops for the reason that there is none. -/
def Eval.Finds {α : Type} (x : Eval α) (slotOf : α → Slot) (r : Except Stop Slot)
    (m : Machine) : Prop :=
  (∃ a, r = .ok (slotOf a) ∧ x m = .ok a m) ∨ ∃ stop, r = .error stop ∧ x m = .error stop m

/-- What comes of it if this is done with the slot that is found. -/
def Machine.onSlot (m : Machine) (act : Slot → Except Stop Value × Machine) :
    Except Stop Slot → Except Stop Value × Machine
  | .ok slot => act slot
  | .error stop => (.error stop, m)

theorem Eval.Finds.bind {α : Type} {x : Eval α} {slotOf : α → Slot} {r : Except Stop Slot}
    (h : x.Finds slotOf r m) {f : α → Eval Value} {act : Slot → Except Stop Value × Machine}
    (hf : ∀ a, outcomeOf (f a m) = act (slotOf a)) :
    outcomeOf ((x >>= f) m) = m.onSlot act r := by
  obtain ⟨a, rfl, hx⟩ | ⟨stop, rfl, hx⟩ := h
  · rw [bind_ok hx]
    exact hf a
  · rw [bind_error hx]
    rfl

/-- A complaint about the kind of a key finds nothing. -/
theorem Eval.failKind_finds {α : Type} (slotOf : α → Slot) (key : Value)
    (complaint : Kind → Cause) (pos : Position) (m : Machine) :
    Finds (do fail (complaint (← kindOf key)) pos : Eval α) slotOf
      (match key.kind? m.heap with
        | none => .error (.defect .absentValue)
        | some kind => .error (.error ⟨complaint kind, pos⟩)) m := by
  right
  have hkindOf := kindOf_eq key m
  cases hkind : key.kind? m.heap with
  | none =>
    rw [hkind] at hkindOf
    exact ⟨_, rfl, bind_error hkindOf⟩
  | some kind =>
    rw [hkind] at hkindOf
    exact ⟨_, rfl, bind_ok hkindOf⟩

/-- The name of a field is that of the slot that is found. -/
theorem memberKey_finds (span : Span) (fields : OrderedMap Text Value) (key : Value)
    (m : Machine) : (memberKey span key).Finds .field
      ((Container.object fields).find span (key.kind? m.heap) key) m := by
  cases key with
  | string t => exact .inl ⟨t, rfl, rfl⟩
  | number x => exact .inl ⟨Number.text x, rfl, rfl⟩
  | _ => exact Eval.failKind_finds _ _ _ _ m

/-- The index of an item is that of the slot that is found. -/
theorem memberIndex_finds (span : Span) (items : List Value) (key : Value) (m : Machine) :
    (memberIndex span key items.length).Finds .item
      ((Container.list items).find span (key.kind? m.heap) key) m := by
  cases key with
  | number x =>
    unfold Container.find memberIndex
    dsimp only
    cases indexOf x items.length with
    | ok i => exact .inl ⟨i, rfl, rfl⟩
    | error cause => exact .inr ⟨_, rfl, rfl⟩
  | _ => exact Eval.failKind_finds _ _ _ _ m

/-- **A member is read from the slot that is found**; nothing changes. -/
theorem readMember_eq (hc : m.heap.get? p = some c) (span : Span) (key : Value) :
    outcomeOf (readMember span (.ref p) key m) =
      m.onSlot (fun slot => (.ok ((c.slot? slot).getD .null), m))
        (c.find span (key.kind? m.heap) key) := by
  have hget : (get : Eval Machine) m = .ok m m := rfl
  unfold readMember
  dsimp only
  rw [Eval.bind_ok hget, hc]
  cases c with
  | object fields => exact (memberKey_finds span fields key m).bind fun _ => rfl
  | list items =>
    apply (memberIndex_finds span items key m).bind
    intro i
    show (Except.ok (items.getD i .null), m) = (Except.ok (items[i]?.getD .null), m)
    rw [List.getD_eq_getElem?_getD]

/-- **A member is written to the slot that is found**; if there is none, nothing changes. -/
theorem writeMember_eq (hc : m.heap.get? p = some c) (span : Span) (key v : Value) :
    outcomeOf (writeMember span (.ref p) key v m) =
      m.onSlot (fun slot => (.ok v, { m with heap := m.heap.set p (c.put slot v) }))
        (c.find span (key.kind? m.heap) key) := by
  have hget : (get : Eval Machine) m = .ok m m := rfl
  unfold writeMember
  dsimp only
  rw [Eval.bind_ok hget, hc]
  cases c with
  | object fields => exact (memberKey_finds span fields key m).bind fun _ => rfl
  | list items => exact (memberIndex_finds span items key m).bind fun _ => rfl

end Members

/-! ## §4. Members of containers that names stand for. -/

/-- `e.StandsFor f scope v`: the expression is a literal of the value, or a name bound to it. -/
inductive Expr.StandsFor (f : Forest) (scope : ScopeId) : Expr → Value → Prop where
  | number (span : Span) (x : Float) : StandsFor f scope (.number span x) (.number x)
  | string (span : Span) (t : Text) : StandsFor f scope (.string span t) (.string t)
  | name (span : Span) {x : Text} {v : Value} (bound : f.lookup scope x = .ok v) :
      StandsFor f scope (.identifier span x) v

/-- The expression `x[k]`. -/
def Expr.memberOf (span here : Span) (x : Text) (k : Expr) : Expr :=
  .member span (.identifier here x) k true

/-- The state after so many more visits. -/
def Machine.ticked (m : Machine) (n : Nat) : Machine := { m with steps := m.steps + n }

section Sharing

variable {settings : Settings} {scope : ScopeId} {m : Machine} {p q : Address}
  {c d : Container} {x y : Text} {k e : Expr} {key v : Value}

theorem Eval.visit_ticks (hlimit : settings.stepLimit ≤ 0) (pos : Position) (m : Machine) :
    visit settings pos m = .ok () (m.ticked 1) := by
  rw [visit_eq, if_neg (by omega)]
  rfl

theorem Expr.StandsFor.evaluates (hlimit : settings.stepLimit ≤ 0)
    (h : e.StandsFor m.scopes scope v) : evalExpr settings scope e m = .ok v (m.ticked 1) := by
  cases h with
  | number span x =>
    rw [evalExpr, Eval.bind_ok (Eval.visit_ticks hlimit _ m)]
    rfl
  | string span t =>
    rw [evalExpr, Eval.bind_ok (Eval.visit_ticks hlimit _ m)]
    rfl
  | name span hbound =>
    rw [evalExpr, Eval.bind_ok (Eval.visit_ticks hlimit _ m)]
    show Eval.located span.start (m.scopes.lookup scope _) (m.ticked 1) = _
    rw [hbound]
    rfl

/-- The container and the key are computed first, whatever is done with them. -/
theorem containerAndKey_ticks (hlimit : settings.stepLimit ≤ 0)
    (hx : m.scopes.lookup scope x = .ok (.ref p)) (hk : k.StandsFor m.scopes scope key)
    (here : Span) (act : Value → Value → Eval Value) :
    (do
      let container ← evalExpr settings scope (.identifier here x)
      let key ← if true then evalExpr settings scope k else dottedName k
      act container key : Eval Value) (m.ticked 1) = act (.ref p) key (m.ticked 3) := by
  have hobject : evalExpr settings scope (.identifier here x) (m.ticked 1) =
      .ok (.ref p) (m.ticked 2) :=
    Expr.StandsFor.evaluates hlimit (m := m.ticked 1) (.name here hx)
  have hkey : evalExpr settings scope k (m.ticked 2) = .ok key (m.ticked 3) :=
    Expr.StandsFor.evaluates hlimit (m := m.ticked 2) hk
  rw [Eval.bind_ok hobject, if_pos rfl, Eval.bind_ok hkey]

/-- What `x[k]` comes to, if `x` is a container. -/
theorem outcomeOf_memberOf (hlimit : settings.stepLimit ≤ 0)
    (hx : m.scopes.lookup scope x = .ok (.ref p)) (hc : m.heap.get? p = some c)
    (hk : k.StandsFor m.scopes scope key) (span here : Span) :
    outcomeOf (evalExpr settings scope (.memberOf span here x k) m) =
      (m.ticked 3).onSlot (fun slot => (.ok ((c.slot? slot).getD .null), m.ticked 3))
        (c.find span (key.kind? m.heap) key) := by
  unfold Expr.memberOf
  rw [evalExpr, Eval.bind_ok (Eval.visit_ticks hlimit _ m), containerAndKey_ticks hlimit hx hk]
  exact readMember_eq (m := m.ticked 3) hc span key

/-- What `x[k] = e` comes to, if `x` is a container. -/
theorem outcomeOf_assign_memberOf (hlimit : settings.stepLimit ≤ 0)
    (hx : m.scopes.lookup scope x = .ok (.ref p)) (hc : m.heap.get? p = some c)
    (hk : k.StandsFor m.scopes scope key) (he : e.StandsFor m.scopes scope v)
    (span target here : Span) :
    outcomeOf (evalExpr settings scope (.assign span (.memberOf target here x k) e) m) =
      (m.ticked 4).onSlot
        (fun slot => (.ok v, { m.ticked 4 with heap := m.heap.set p (c.put slot v) }))
        (c.find target (key.kind? m.heap) key) := by
  have hvalue : evalExpr settings scope e (m.ticked 3) = .ok v (m.ticked 4) :=
    Expr.StandsFor.evaluates hlimit (m := m.ticked 3) he
  unfold Expr.memberOf
  rw [evalExpr, Eval.bind_ok (Eval.visit_ticks hlimit _ m),
    containerAndKey_ticks hlimit hx hk here fun container key => do
      let v ← evalExpr settings scope e
      writeMember target container key v,
    Eval.bind_ok hvalue]
  exact writeMember_eq (m := m.ticked 4) hc target key v

/-- What `y[k]` comes to after a slot of a container was written: the value that was written,
    if it is the same container and `k` denotes that slot, and else what it came to before. -/
theorem outcomeOf_memberOf_put (hlimit : settings.stepLimit ≤ 0) (hp : m.heap.get? p = some c)
    {written : Value} {slot : Slot} (hslot : c.Denotes written slot)
    (hy : m.scopes.lookup scope y = .ok (.ref q)) (hq : m.heap.get? q = some d)
    (hk : k.StandsFor m.scopes scope key) (span here : Span) (v : Value) (n : Nat) :
    let reading : Expr := .memberOf span here y k
    let after : Machine := { m.ticked n with heap := m.heap.set p (c.put slot v) }
    (q = p ∧ d.Denotes key slot → (outcomeOf (evalExpr settings scope reading after)).1 = .ok v) ∧
    (¬ (q = p ∧ d.Denotes key slot) →
      (outcomeOf (evalExpr settings scope reading after)).1 =
        (outcomeOf (evalExpr settings scope reading m)).1) := by
  intro reading after
  have hkind : key.kind? after.heap = key.kind? m.heap := Heap.kind?_put hp slot v key
  rw [outcomeOf_memberOf hlimit hy hq hk]
  by_cases hsame : q = p
  · subst hsame
    cases hq.symm.trans hp
    have hafter : after.heap.get? q = some (c.put slot v) := by
      show (m.heap.set q (c.put slot v)).get? q = _
      rw [Heap.get?_set, if_pos rfl, hq]
      rfl
    rw [outcomeOf_memberOf (m := after) hlimit hy hafter hk, hkind, Container.find_put]
    constructor
    · rintro ⟨_, hdenotes⟩
      rw [Container.find_eq_ok_iff.2 hdenotes]
      show Except.ok (((c.put slot v).slot? slot).getD .null) = _
      rw [Container.slot?_put hslot, if_pos rfl]
      rfl
    · intro hother
      cases hfind : c.find span (key.kind? m.heap) key with
      | error stop => rfl
      | ok slot' =>
        have hne : slot' ≠ slot := by
          rintro rfl
          exact hother ⟨rfl, Container.find_eq_ok_iff.1 hfind⟩
        show Except.ok (((c.put slot v).slot? slot').getD .null) = Except.ok _
        rw [Container.slot?_put hslot, if_neg hne]
  · have hafter : after.heap.get? q = some d := by
      show (m.heap.set p (c.put slot v)).get? q = _
      rw [Heap.get?_set, if_neg (Ne.symm hsame), hq]
    rw [outcomeOf_memberOf (m := after) hlimit hy hafter hk, hkind]
    refine ⟨fun h => absurd h.1 hsame, fun _ => ?_⟩
    cases d.find span (key.kind? m.heap) key with
    | error stop => rfl
    | ok slot' => rfl

end Sharing

/-- **A member that was written is read wherever it is shared.**  Let `a` and `b` be names of
    containers, perhaps of the same one, and `k`, `k'` and `e` literals or bound names.  Both
    `a[k]` and `a[k] = e` go through exactly if the container accepts the key, and a number that
    it does not accept is an error.  An assignment that goes through gives the value back and
    changes the slot that the key denotes and no other, in no container, nor any binding; after
    it `b[k']` is that value if it is about the same slot of the same container, and else it is
    or fails as before.  An assignment that fails changes nothing. -/
theorem members_written_are_read {settings : Settings} (hlimit : settings.stepLimit ≤ 0)
    (m : Machine) (scope : ScopeId) {a b : Text} {p q : Address} {c d : Container}
    (ha : m.scopes.lookup scope a = .ok (.ref p)) (hp : m.heap.get? p = some c)
    (hb : m.scopes.lookup scope b = .ok (.ref q)) (hq : m.heap.get? q = some d)
    {k k' e : Expr} {key key' v : Value} (hk : k.StandsFor m.scopes scope key)
    (hk' : k'.StandsFor m.scopes scope key') (he : e.StandsFor m.scopes scope v)
    (s₁ s₂ s₃ s₄ s₅ s₆ s₇ : Span) :
    let run (m : Machine) (e : Expr) : Except Stop Value × Machine :=
      outcomeOf (evalExpr settings scope e m)
    let read := run m (.memberOf s₁ s₂ a k)
    let write := run m (.assign s₃ (.memberOf s₄ s₅ a k) e)
    let other : Expr := .memberOf s₆ s₇ b k'
    ((∃ w, read.1 = .ok w) ↔ c.Accepts key) ∧
    ((∃ w, write.1 = .ok w) ↔ c.Accepts key) ∧
    (∀ x stop, key = .number x → read.1 = .error stop ∨ write.1 = .error stop →
      ∃ err, stop = .error err) ∧
    (∀ w, write.1 = .ok w →
      w = v ∧ write.2.scopes = m.scopes ∧
      ∃ slot, c.Denotes key slot ∧ read.1 = .ok ((c.slot? slot).getD .null) ∧
        (∀ r s, write.2.heap.slot? r s =
          if r = p ∧ s = slot then some v else m.heap.slot? r s) ∧
        (∀ r, r ≠ p → write.2.heap.get? r = m.heap.get? r) ∧
        (q = p ∧ d.Denotes key' slot → (run write.2 other).1 = .ok v) ∧
        (¬ (q = p ∧ d.Denotes key' slot) → (run write.2 other).1 = (run m other).1)) ∧
    (∀ stop, write.1 = .error stop → write.2.heap = m.heap ∧ write.2.scopes = m.scopes) := by
  intro run read write other
  have hread : read = _ := outcomeOf_memberOf hlimit ha hp hk s₁ s₂
  have hwrite : write = _ := outcomeOf_assign_memberOf hlimit ha hp hk he s₃ s₄ s₅
  by_cases haccepts : c.Accepts key
  · obtain ⟨slot, hslot⟩ := Container.accepts_iff.1 haccepts
    rw [Container.find_eq_ok_iff.2 hslot] at hread hwrite
    refine ⟨iff_of_true ⟨_, congrArg Prod.fst hread⟩ haccepts,
      iff_of_true ⟨_, congrArg Prod.fst hwrite⟩ haccepts, ?_, ?_, ?_⟩
    · rintro x stop - (hstop | hstop)
      · rw [hread] at hstop
        cases hstop
      · rw [hwrite] at hstop
        cases hstop
    · intro w hw
      rw [hwrite] at hw
      cases hw
      rw [hwrite, hread]
      refine ⟨rfl, rfl, slot, hslot, rfl, Heap.slot?_put hp hslot v, ?_,
        outcomeOf_memberOf_put hlimit hp hslot hb hq hk' s₆ s₇ v 4⟩
      intro r hr
      show (m.heap.set p (c.put slot v)).get? r = _
      rw [Heap.get?_set, if_neg (Ne.symm hr)]
    · intro stop hstop
      rw [hwrite] at hstop
      cases hstop
  · have hnone : ∀ span kind, ∃ stop, c.find span kind key = .error stop := by
      intro span kind
      cases hfind : c.find span kind key with
      | ok slot =>
        exact absurd (Container.accepts_iff.2 ⟨slot, Container.find_eq_ok_iff.1 hfind⟩) haccepts
      | error stop => exact ⟨stop, rfl⟩
    obtain ⟨stop, hstop⟩ := hnone s₁ (key.kind? m.heap)
    obtain ⟨stop', hstop'⟩ := hnone s₄ (key.kind? m.heap)
    rw [hstop] at hread
    rw [hstop'] at hwrite
    replace hread : read = (.error stop, m.ticked 3) := hread
    replace hwrite : write = (.error stop', m.ticked 4) := hwrite
    rw [hread, hwrite]
    refine ⟨iff_of_false ?_ haccepts, iff_of_false ?_ haccepts, ?_, ?_, fun _ _ => ⟨rfl, rfl⟩⟩
    · exact fun ⟨_, h⟩ => nomatch h
    · exact fun ⟨_, h⟩ => nomatch h
    · rintro x _ rfl (h | h)
      · cases h
        obtain ⟨cause, rfl⟩ := Container.find_number hstop
        exact ⟨_, rfl⟩
      · cases h
        obtain ⟨cause, rfl⟩ := Container.find_number hstop'
        exact ⟨_, rfl⟩
    · exact fun _ h => nomatch h

/-- A list of two numbers with the names `a` and `b`, and the index `i` of its last item. -/
def sharedList : Machine :=
  let shared : Names := (Names.empty.bind "a" ⟨.ref 0, false⟩).bind "b" ⟨.ref 0, false⟩
  { (default : Machine) with
    heap := ⟨#[.list [.number 10, .number 20]]⟩
    scopes := (Forest.empty.add (shared.bind "i" ⟨.number 1, true⟩) none).2 }

/-- After `a[1] = "new"`, `b[i]` is the new item and the first one is as it was. -/
theorem members_written_are_read_shared :
    let settings : Settings := ⟨0, .collect, .bare⟩
    let run (m : Machine) (e : Expr) : Except Stop Value × Machine :=
      outcomeOf (evalExpr settings 0 e m)
    let write := run sharedList (.assign somewhere
      (.memberOf somewhere somewhere "a" (.number somewhere 1)) (.string somewhere "new"))
    settings.stepLimit ≤ 0 ∧ sharedList.scopes.lookup 0 "a" = .ok (.ref 0) ∧
    sharedList.scopes.lookup 0 "b" = .ok (.ref 0) ∧
    sharedList.scopes.lookup 0 "i" = .ok (.number 1) ∧
    write.1 = .ok (.string "new") ∧
    (run write.2 (.memberOf somewhere somewhere "b" (.identifier somewhere "i"))).1 =
      .ok (.string "new") ∧
    write.2.heap.slot? 0 (.item 0) = some (.number 10) := by
  intro settings run write
  have hlimit : settings.stepLimit ≤ 0 := by decide
  have ha : sharedList.scopes.lookup 0 "a" = .ok (.ref 0) := by decide +kernel
  have hb : sharedList.scopes.lookup 0 "b" = .ok (.ref 0) := by decide +kernel
  have hi : sharedList.scopes.lookup 0 "i" = .ok (.number 1) := by decide +kernel
  have hlist : sharedList.heap.get? 0 = some (.list [.number 10, .number 20]) := rfl
  have hindex := indexOf_eq_ok_iff.1 (by decide +kernel : indexOf 1 2 = .ok 1)
  have hslot : (Container.list [.number 10, .number 20]).Denotes (.number 1) (.item 1) :=
    .index hindex.1 hindex.2
  obtain ⟨_, hok, _, hwrite, _⟩ := members_written_are_read hlimit sharedList 0 ha hlist hb hlist
    (.number somewhere 1) (.name somewhere hi) (.string somewhere "new") somewhere somewhere
    somewhere somewhere somewhere somewhere somewhere
  obtain ⟨w, hw⟩ := hok.2 (Container.accepts_iff.2 ⟨_, hslot⟩)
  obtain ⟨rfl, -, slot, hslot', -, hframe, -, hsame, -⟩ := hwrite w hw
  cases hslot.unique hslot'
  exact ⟨hlimit, ha, hb, hi, hw, hsame ⟨rfl, hslot⟩, hframe 0 (.item 0)⟩

end Scriptorium
