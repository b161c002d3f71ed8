/-
  Scriptorium.Proofs.Evaluation.Safe: computations that cannot go wrong.

  `x.Settles stops n Q` says what is wanted of a computation: from every sound state with
  at least `n` containers it ends in a sound state with no fewer containers, either with a
  result that has the property `Q` there, or with one of the stops `stops`.  The number `n`
  is what the soundness of the values at hand depends on.  `x.Safe place n Q` says that the
  stops are errors that a script brings about and that are blamed on one of the places
  `place`; then it never ends with a defect.

  Rules for the building blocks come first; from then on no computation is run.

  Main results:
    * `Settles.bind`, `Safe.bind`: computations in a row.
    * `Safe.blaming`: an error that had no place has one after the call.
    * `readMember_safe`, `writeMember_safe`: members of sound containers.
    * `Native.run_safe`: the functions of the language, called with as many arguments as
      they want.
-/

import Mathlib
import Scriptorium.Proofs.Evaluation.Invariant

namespace Scriptorium

/-! ## §1. Stops that a script brings about. -/

/-- Whether only a broken tree leads to the cause. -/
def Cause.isInternal : Cause → Bool
  | .missingNode | .notEvaluable _ | .unsupportedOperator _ | .memberName _ => true
  | _ => false

/-- Whether a running script can bring the cause about. -/
structure Cause.Scripted (c : Cause) : Prop where
  runtime : c.kind.isRuntime = true
  notInternal : c.isInternal = false

/-- Whether the stop is an error of a script, blamed on one of the places. -/
def Stop.Blames (place : Position → Prop) : Stop → Prop
  | .error e => e.cause.Scripted ∧ place e.pos
  | .outside _ | .defect _ => False

namespace Forest

variable {f : Forest} {scope : ScopeId} {name : Text} {v : Value} {e : Error}

/-- An error of a name that is bound nowhere has no place yet. -/
theorem scripted_of_resolve (h : f.resolve scope name = .error e) :
    e.cause.Scripted ∧ e.pos = .unknown := by
  unfold resolve at h
  split at h
  · cases h
  · cases h
    exact ⟨⟨rfl, rfl⟩, rfl⟩

theorem scripted_of_lookup (h : f.lookup scope name = .error e) :
    e.cause.Scripted ∧ e.pos = .unknown := by
  unfold lookup at h
  split at h
  · next he =>
    cases h
    exact scripted_of_resolve he
  · cases h

theorem scripted_of_declare {constant : Bool} (h : f.declare scope name v constant = .error e) :
    e.cause.Scripted ∧ e.pos = .unknown := by
  unfold declare at h
  split at h
  · cases h
    exact ⟨⟨rfl, rfl⟩, rfl⟩
  · cases h

theorem scripted_of_assign (h : f.assign scope name v = .error e) :
    e.cause.Scripted ∧ e.pos = .unknown := by
  unfold assign at h
  split at h
  · next he =>
    cases h
    exact scripted_of_resolve he
  · split at h
    · cases h
      exact ⟨⟨rfl, rfl⟩, rfl⟩
    · cases h

end Forest

/-! ## §2. Safe computations. -/

namespace Eval

variable {α β : Type} {place : Position → Prop} {n : Nat} {pos : Position}
  {Q : Nat → α → Prop} {R : Nat → β → Prop}

/-- Whether the computation, run from `m`, ends with a result or a stop of this sort. -/
def Ensures (x : Eval α) (m : Machine) (result : α → Machine → Prop)
    (stop : Stop → Machine → Prop) : Prop :=
  match x m with
  | .ok a m' => result a m'
  | .error s m' => stop s m'

theorem Ensures.imp {x : Eval α} {m : Machine} {result result' : α → Machine → Prop}
    {stop stop' : Stop → Machine → Prop} (h : x.Ensures m result stop)
    (hresult : ∀ a m', result a m' → result' a m') (hstop : ∀ s m', stop s m' → stop' s m') :
    x.Ensures m result' stop' := by
  unfold Ensures at h ⊢
  cases he : x m with
  | ok a m' =>
    rw [he] at h
    exact hresult a m' h
  | error s m' =>
    rw [he] at h
    exact hstop s m' h

/-- A sequence ends as its second part does after the first, or stops as the first. -/
theorem Ensures.bind {x : Eval α} {f : α → Eval β} {m : Machine} {result : β → Machine → Prop}
    {stop : Stop → Machine → Prop}
    (h : x.Ensures m (fun a m' => (f a).Ensures m' result stop) stop) :
    (x >>= f).Ensures m result stop := by
  unfold Ensures at h ⊢
  simp only [Bind.bind, EStateM.bind]
  cases he : x m with
  | ok a m' =>
    rw [he] at h
    exact h
  | error s m' =>
    rw [he] at h
    exact h

/-- What reads the state goes on with it. -/
theorem Ensures.get {f : Machine → Eval α} {m : Machine} {result : α → Machine → Prop}
    {stop : Stop → Machine → Prop} (h : (f m).Ensures m result stop) :
    (MonadState.get >>= f).Ensures m result stop :=
  h

/-- Whether the computation, from every sound state with at least `n` containers, ends in a
    sound state with no fewer, with such a result there or with such a stop. -/
def Settles (stops : Stop → Prop) (n : Nat) (x : Eval α) (Q : Nat → α → Prop) : Prop :=
  ∀ m : Machine, m.Sound → n ≤ m.heap.size →
    x.Ensures m (fun a m' => m'.Sound ∧ m.heap.size ≤ m'.heap.size ∧ Q m'.heap.size a)
      fun s m' => m'.Sound ∧ stops s

section Settles

variable {stops stops' : Stop → Prop}

theorem Settles.imp {x : Eval α} (hx : Settles stops n x Q) (h : ∀ s, stops s → stops' s) :
    Settles stops' n x Q :=
  fun m hm hn => (hx m hm hn).imp (fun _ _ ha => ha) fun s _ hs => ⟨hs.1, h s hs.2⟩

theorem Settles.pure {a : α} (h : ∀ k, n ≤ k → Q k a) : Settles stops n (pure a) Q :=
  fun m hm hn => ⟨hm, Nat.le_refl _, h m.heap.size hn⟩

theorem Settles.throw {s : Stop} (h : stops s) : Settles stops n (throw s : Eval α) Q :=
  fun _ hm _ => ⟨hm, h⟩

/-- Computations that settle settle in a row. -/
theorem Settles.bind {x : Eval α} {f : α → Eval β} (hx : Settles stops n x Q)
    (hf : ∀ k a, n ≤ k → Q k a → Settles stops k (f a) R) : Settles stops n (x >>= f) R := by
  intro m hm hn
  refine Ensures.bind ((hx m hm hn).imp ?_ fun _ _ h => h)
  intro a m' ⟨hm', hle, ha⟩
  refine (hf m'.heap.size a (Nat.le_trans hn hle) ha m' hm' (Nat.le_refl _)).imp ?_ fun _ _ h => h
  intro b m'' ⟨hm'', hle', hb⟩
  exact ⟨hm'', Nat.le_trans hle hle', hb⟩

/-- What is read from the state may be used in every later one. -/
theorem Settles.get {f : Machine → Eval β}
    (h : ∀ m : Machine, m.Sound → n ≤ m.heap.size → Settles stops m.heap.size (f m) R) :
    Settles stops n (get >>= f) R :=
  fun m hm hn => h m hm hn m hm (Nat.le_refl _)

theorem Settles.modify {g : Machine → Machine}
    (h : ∀ m : Machine, m.Sound → n ≤ m.heap.size →
      (g m).Sound ∧ m.heap.size ≤ (g m).heap.size) :
    Settles stops n (modify g) fun _ _ => True :=
  fun m hm hn => ⟨(h m hm hn).1, (h m hm hn).2, trivial⟩

/-- Two ways to the same continuation. -/
theorem Settles.branch {c : Prop} [Decidable c] {x y : Eval α} {f : α → Eval β}
    (hx : c → Settles stops n x Q) (hy : ¬ c → Settles stops n y Q)
    (hf : ∀ k a, n ≤ k → Q k a → Settles stops k (f a) R) :
    Settles stops n (if c then x >>= f else y >>= f) R := by
  split
  · next hc => exact (hx hc).bind hf
  · next hc => exact (hy hc).bind hf

/-- Nothing comes after a stop. -/
theorem Settles.stop {x : Eval α} {f : α → Eval β} (hx : Settles stops n x fun _ _ => False) :
    Settles stops n (x >>= f) R :=
  hx.bind fun _ _ _ h => h.elim

/-- An error receives its place. -/
theorem Settles.located {r : Except Error α} (hok : ∀ a, r = .ok a → ∀ k, n ≤ k → Q k a)
    (herror : ∀ e, r = .error e → stops (.error (e.locate pos))) :
    Settles stops n (located pos r) Q := by
  cases r with
  | ok a => exact Settles.pure (hok a rfl)
  | error e => exact Settles.throw (herror e rfl)

/-- Only errors are changed by a call, and only their places. -/
theorem Settles.blaming {x : Eval α} (hx : Settles stops n x Q)
    (herror : ∀ e, stops (.error e) → stops' (.error (e.locate pos)))
    (hother : ∀ s, (∀ e, s ≠ .error e) → stops s → stops' s) :
    Settles stops' n (blaming pos x) Q := by
  intro m hm hn
  have hrun := hx m hm hn
  unfold Ensures at hrun ⊢
  unfold Eval.blaming
  cases he : x m with
  | ok a m' =>
    rw [he] at hrun
    exact hrun
  | error s m' =>
    rw [he] at hrun
    cases s with
    | error e => exact ⟨hrun.1, herror e hrun.2⟩
    | outside message => exact ⟨hrun.1, hother _ (fun _ h => nomatch h) hrun.2⟩
    | defect d => exact ⟨hrun.1, hother _ (fun _ h => nomatch h) hrun.2⟩

end Settles

/-- Whether the computation cannot go wrong where there are `n` containers or more. -/
def Safe (place : Position → Prop) (n : Nat) (x : Eval α) (Q : Nat → α → Prop) : Prop :=
  ∀ m : Machine, m.Sound → n ≤ m.heap.size →
    x.Ensures m (fun a m' => m'.Sound ∧ m.heap.size ≤ m'.heap.size ∧ Q m'.heap.size a)
      fun s m' => m'.Sound ∧ s.Blames place

/-- To be safe is to settle with no stops but errors that can be blamed. -/
theorem safe_iff {x : Eval α} : Safe place n x Q ↔ Settles (Stop.Blames place) n x Q := Iff.rfl

theorem Safe.pure {a : α} (h : ∀ k, n ≤ k → Q k a) : Safe place n (pure a) Q :=
  Settles.pure h

/-- Safe computations in a row are safe. -/
theorem Safe.bind {x : Eval α} {f : α → Eval β} (hx : Safe place n x Q)
    (hf : ∀ k a, n ≤ k → Q k a → Safe place k (f a) R) : Safe place n (x >>= f) R :=
  Settles.bind hx hf

theorem Safe.fail {cause : Cause} (hcause : cause.Scripted) (hpos : place pos) :
    Safe place n (fail cause pos) Q :=
  Settles.throw ⟨hcause, hpos⟩

theorem Safe.get {f : Machine → Eval β}
    (h : ∀ m : Machine, m.Sound → n ≤ m.heap.size → Safe place m.heap.size (f m) R) :
    Safe place n (get >>= f) R :=
  Settles.get h

theorem Safe.modify {g : Machine → Machine}
    (h : ∀ m : Machine, m.Sound → n ≤ m.heap.size →
      (g m).Sound ∧ m.heap.size ≤ (g m).heap.size) :
    Safe place n (modify g) fun _ _ => True :=
  Settles.modify h

theorem Safe.branch {c : Prop} [Decidable c] {x y : Eval α} {f : α → Eval β}
    (hx : c → Safe place n x Q) (hy : ¬ c → Safe place n y Q)
    (hf : ∀ k a, n ≤ k → Q k a → Safe place k (f a) R) :
    Safe place n (if c then x >>= f else y >>= f) R :=
  Settles.branch hx hy hf

theorem Safe.stop {x : Eval α} {f : α → Eval β} (hx : Safe place n x fun _ _ => False) :
    Safe place n (x >>= f) R :=
  Settles.stop hx

/-! ## §3. Places for errors that have none. -/

theorem locate_unplaced (hknown : pos.isKnown = true) {e : Error} (hcause : e.cause.Scripted)
    (he : e.pos = .unknown) : e.locate pos = ⟨e.cause, pos⟩ := by
  have hunknown : e.pos.isKnown = false := by
    rw [he]
    rfl
  unfold Error.locate
  rw [hknown, hcause.runtime, hunknown]
  rfl

/-- The error of something that was refused, when it receives a known place. -/
theorem blames_locate (hpos : place pos) (hknown : pos.isKnown = true) {e : Error}
    (h : e.cause.Scripted ∧ e.pos = .unknown) : (Stop.error (e.locate pos)).Blames place := by
  rw [locate_unplaced hknown h.1 h.2]
  exact ⟨h.1, hpos⟩

theorem Safe.located {r : Except Error α} (hpos : place pos) (hknown : pos.isKnown = true)
    (hok : ∀ a, r = .ok a → ∀ k, n ≤ k → Q k a)
    (herror : ∀ e, r = .error e → e.cause.Scripted ∧ e.pos = .unknown) :
    Safe place n (located pos r) Q :=
  Settles.located hok fun e he => blames_locate hpos hknown (herror e he)

/-- An error that had no place has one afterwards. -/
theorem Safe.blaming {x : Eval α} (hpos : place pos) (hknown : pos.isKnown = true)
    (hx : Safe (· = .unknown) n x Q) : Safe place n (blaming pos x) Q := by
  refine Settles.blaming hx (fun e he => blames_locate hpos hknown he) ?_
  intro s hs hblames
  cases s with
  | error e => exact absurd rfl (hs e)
  | outside _ => exact hblames
  | defect _ => exact hblames

/-! ## §4. The steps of evaluation. -/

theorem visit_safe (settings : Settings) (hpos : place pos) :
    Safe place n (visit settings pos) fun _ _ => True := by
  unfold visit
  refine Safe.bind (Safe.modify fun m hm _ => ⟨⟨hm.heap, hm.scopes⟩, Nat.le_refl _⟩) ?_
  intro k _ _ _
  refine Safe.get ?_
  intro m _ _
  split
  · exact Safe.fail ⟨rfl, rfl⟩ hpos
  · exact Safe.pure fun _ _ => trivial

theorem alloc_safe {c : Container} (hc : c.Sound n) : Safe place n (alloc c) Value.Sound := by
  intro m hm hn
  have hheap := hm.heap.alloc (hc.mono hn)
  have hle : m.heap.size ≤ (m.heap.alloc c).2.size := by
    rw [Heap.size_alloc]
    omega
  refine ⟨⟨hheap, hm.scopes.mono hle⟩, hle, ?_⟩
  show m.heap.size < (m.heap.alloc c).2.size
  rw [Heap.size_alloc]
  omega

theorem kindOf_safe {v : Value} (hv : v.Sound n) : Safe place n (kindOf v) fun _ _ => True := by
  refine Safe.get ?_
  intro m _ hn
  obtain ⟨kind, hkind⟩ := (hv.mono hn).exists_kind?
  rw [hkind]
  exact Safe.pure fun _ _ => trivial

/-- Printing is safe whatever becomes of the text. -/
theorem write_safe (sink : Sink) (t : Text) :
    Safe (· = .unknown) n (write sink t) fun _ _ => True := by
  intro m hm hn
  -- what was printed is no part of the invariant
  have hset : ∀ output : Text, { m with output }.Sound := fun _ => ⟨hm.heap, hm.scopes⟩
  unfold Ensures write
  simp only [bind, EStateM.bind, get, getThe, MonadStateOf.get, EStateM.get, set, EStateM.set]
  cases (sink.answer (m.earlier ++ m.output) t).2 with
  | none => exact ⟨hset _, Nat.le_refl _, trivial⟩
  | some reason => exact ⟨hset _, ⟨rfl, rfl⟩, rfl⟩

/-- Reading the clock is safe: what counts its readings is no part of the invariant. -/
theorem readClock_safe (clock : Nat → Float) :
    Safe (· = .unknown) n (readClock clock) fun _ _ => True :=
  fun _ hm _ => ⟨⟨hm.heap, hm.scopes⟩, Nat.le_refl _, trivial⟩

section Names

variable {scope : ScopeId} {name : Text} {v : Value}

/-- Looking a name up settles if a name that is bound nowhere may be complained of. -/
theorem lookup_settles {stops : Stop → Prop}
    (herror : ∀ e : Error, e.cause.Scripted ∧ e.pos = .unknown → stops (.error (e.locate pos))) :
    Settles stops n (lookup scope name pos) Value.Sound := by
  refine Settles.get ?_
  intro m hm _
  refine Settles.located ?_ fun e he => herror e (Forest.scripted_of_lookup he)
  intro v hv k hk
  exact (hm.scopes.lookup hv).mono hk

theorem lookup_safe (hpos : place pos) (hknown : pos.isKnown = true) :
    Safe place n (lookup scope name pos) Value.Sound :=
  lookup_settles fun _ he => blames_locate hpos hknown he

/-- Changing the scopes settles if the change keeps them sound and may be complained of if
    it is refused. -/
theorem rebind_settles {stops : Stop → Prop} (change : Forest → Except Error Forest)
    (hv : v.Sound n) (hok : ∀ k f f', n ≤ k → f.Sound k → change f = .ok f' → f'.Sound k)
    (herror : ∀ f e, change f = .error e → stops (.error (e.locate pos))) :
    Settles stops n (do
      let scopes ← located pos (change (← get).scopes)
      modify fun m => { m with scopes }
      return v) Value.Sound := by
  refine Settles.get ?_
  intro m hm hn
  -- the error of a refused change has no place until `located` supplies it
  have hchange : Settles stops m.heap.size (located pos (change m.scopes)) fun k f => f.Sound k :=
    Settles.located (fun f hf k hk => (hok _ _ f hn hm.scopes hf).mono hk) fun e he => herror _ e he
  refine hchange.bind ?_
  intro k scopes hk hscopes
  have hset : Settles stops k (modify fun m => { m with scopes }) fun _ _ => True :=
    Settles.modify fun _ hm hn => ⟨⟨hm.heap, hscopes.mono hn⟩, Nat.le_refl _⟩
  refine hset.bind ?_
  intro k' _ hk' _
  exact Settles.pure fun l hl => hv.mono (by omega)

theorem declare_settles {stops : Stop → Prop} {constant : Bool} (hv : v.Sound n)
    (herror : ∀ e : Error, e.cause.Scripted ∧ e.pos = .unknown → stops (.error (e.locate pos))) :
    Settles stops n (declare scope name v constant pos) Value.Sound :=
  rebind_settles (fun f => f.declare scope name v constant) hv
    (fun _ _ _ hk hf h => hf.declare (hv.mono hk) h)
    fun _ e he => herror e (Forest.scripted_of_declare he)

theorem assign_settles {stops : Stop → Prop} (hv : v.Sound n)
    (herror : ∀ e : Error, e.cause.Scripted ∧ e.pos = .unknown → stops (.error (e.locate pos))) :
    Settles stops n (assign scope name v pos) Value.Sound :=
  rebind_settles (fun f => f.assign scope name v) hv
    (fun _ _ _ hk hf h => hf.assign (hv.mono hk) h)
    fun _ e he => herror e (Forest.scripted_of_assign he)

theorem declare_safe {constant : Bool} (hv : v.Sound n) (hpos : place pos)
    (hknown : pos.isKnown = true) : Safe place n (declare scope name v constant pos) Value.Sound :=
  declare_settles hv fun _ he => blames_locate hpos hknown he

theorem assign_safe (hv : v.Sound n) (hpos : place pos) (hknown : pos.isKnown = true) :
    Safe place n (assign scope name v pos) Value.Sound :=
  assign_settles hv fun _ he => blames_locate hpos hknown he

end Names

/-- A complaint that names the kind of a value is safe if there is a value. -/
theorem failKind_safe {v : Value} {complaint : Kind → Cause} (hv : v.Sound n)
    (hcause : ∀ kind, (complaint kind).Scripted) (hpos : place pos) :
    Safe place n (do fail (complaint (← kindOf v)) pos) Q :=
  (kindOf_safe hv).bind fun _ kind _ _ => Safe.fail (hcause kind) hpos

end Eval

/-! ## §5. Members. -/

section Members

variable {place : Position → Prop} {n : Nat} {span : Span} {container key v : Value}

open Eval (Safe)

theorem memberKey_safe (hkey : key.Sound n) (hpos : place span.start) :
    Safe place n (memberKey span key) fun _ _ => True := by
  unfold memberKey
  split
  · exact Safe.pure fun _ _ => trivial
  · exact Safe.pure fun _ _ => trivial
  · exact Eval.failKind_safe hkey (fun _ => ⟨rfl, rfl⟩) hpos

theorem indexOf_error {x : Float} {length : Nat} {cause : Cause}
    (h : indexOf x length = .error cause) : cause.Scripted := by
  unfold indexOf at h
  split at h
  · cases h
    exact ⟨rfl, rfl⟩
  · cases h
    exact ⟨rfl, rfl⟩
  · split at h
    · split at h
      · cases h
        exact ⟨rfl, rfl⟩
      · cases h
    · cases h
      exact ⟨rfl, rfl⟩

theorem memberIndex_safe (hkey : key.Sound n) (hpos : place span.start) (length : Nat) :
    Safe place n (memberIndex span key length) fun _ _ => True := by
  unfold memberIndex
  split
  · split
    · exact Safe.pure fun _ _ => trivial
    · next cause hcause => exact Safe.fail (indexOf_error hcause) hpos
  · exact Eval.failKind_safe hkey (fun _ => ⟨rfl, rfl⟩) hpos

theorem readMember_safe (hcontainer : container.Sound n) (hkey : key.Sound n)
    (hpos : place span.start) : Safe place n (readMember span container key) Value.Sound := by
  unfold readMember
  split
  · next a =>
    refine Safe.get ?_
    intro m hm hn
    obtain ⟨c, hc⟩ := Heap.exists_get?_of_lt (Nat.lt_of_lt_of_le hcontainer hn)
    have hsound := hm.heap a c hc
    rw [hc]
    cases c with
    | object fields =>
      refine (memberKey_safe (hkey.mono hn) hpos).bind ?_
      intro k name hk _
      refine Safe.pure fun l hl => ?_
      cases hget : fields.get? name with
      | none => trivial
      | some v => exact (hsound.get? hget).mono (Nat.le_trans hk hl)
    | list items =>
      refine (memberIndex_safe (hkey.mono hn) hpos items.length).bind ?_
      intro k i hk _
      refine Safe.pure fun l hl => ?_
      rw [List.getD_eq_getElem?_getD]
      cases hget : items[i]? with
      | none => trivial
      | some v => exact (hsound v (List.mem_of_getElem? hget)).mono (Nat.le_trans hk hl)
  · exact Eval.failKind_safe hcontainer (fun _ => ⟨rfl, rfl⟩) hpos

theorem writeMember_safe (hcontainer : container.Sound n) (hkey : key.Sound n) (hv : v.Sound n)
    (hpos : place span.start) : Safe place n (writeMember span container key v) Value.Sound := by
  unfold writeMember
  split
  · next a =>
    refine Safe.get ?_
    intro m hm hn
    obtain ⟨c, hc⟩ := Heap.exists_get?_of_lt (Nat.lt_of_lt_of_le hcontainer hn)
    have hsound := hm.heap a c hc
    -- whichever container it is, a sound replacement keeps the heap sound
    have hstore : ∀ k c', m.heap.size ≤ k → c'.Sound k → Safe place k (do
        modify fun m => { m with heap := m.heap.set a c' }
        return v) Value.Sound := by
      intro k c' hk hc'
      refine (Safe.modify ?_).bind fun l _ hl _ => Safe.pure fun l' hl' => hv.mono (by omega)
      intro m' hm' hn'
      refine ⟨⟨hm'.heap.set (hc'.mono hn') a, ?_⟩, ?_⟩
      · rw [Heap.size_set]
        exact hm'.scopes
      · exact Nat.le_of_eq (Heap.size_set _ _ _).symm
    rw [hc]
    cases c with
    | object fields =>
      refine (memberKey_safe (hkey.mono hn) hpos).bind ?_
      intro k name hk _
      exact hstore k _ hk ((Container.Sound.mono hk hsound).insert name v (hv.mono (by omega)))
    | list items =>
      refine (memberIndex_safe (hkey.mono hn) hpos items.length).bind ?_
      intro k i hk _
      refine hstore k _ hk ?_
      intro w hw
      rcases List.mem_or_eq_of_mem_set hw with hw | rfl
      · exact (hsound w hw).mono hk
      · exact hv.mono (by omega)
  · exact Eval.failKind_safe hcontainer (fun _ => ⟨rfl, rfl⟩) hpos

end Members

/-! ## §6. The functions of the language.

A function does not know where it was called, so its errors have no place. -/

section Natives

variable {n : Nat} {function : Text} {v : Value}

open Eval (Safe)

namespace Action

theorem numberArgument_safe (hv : v.Sound n) (index : Nat) :
    Safe (· = .unknown) n (numberArgument function index v) fun _ _ => True := by
  unfold numberArgument
  split
  · exact Safe.pure fun _ _ => trivial
  · exact Eval.failKind_safe hv (fun _ => ⟨rfl, rfl⟩) rfl

theorem extremum_safe {better : Float → Float → Bool} {rest : List Value}
    (hrest : ∀ v ∈ rest, v.Sound n) (index : Nat) (best : Float) :
    Safe (· = .unknown) n (extremum function better index best rest) fun _ _ => True := by
  induction rest generalizing n index best with
  | nil => exact Safe.pure fun _ _ => trivial
  | cons v rest ih =>
    refine (numberArgument_safe (hrest v List.mem_cons_self) index).bind ?_
    intro k x hk _
    exact ih (fun w hw => (hrest w (List.mem_cons_of_mem v hw)).mono hk) _ _

theorem extremumOf_safe {better : Float → Float → Bool} {args : List Value}
    (hargs : ∀ v ∈ args, v.Sound n) :
    Safe (· = .unknown) n (extremumOf function better args) Value.Sound := by
  cases args with
  | nil => exact Safe.pure fun _ _ => trivial
  | cons v rest =>
    refine (numberArgument_safe (hargs v List.mem_cons_self) 1).bind ?_
    intro k x hk _
    refine (extremum_safe (fun w hw => ?_) 2 x).bind fun _ _ _ _ => Safe.pure fun _ _ => trivial
    exact (hargs w (List.mem_cons_of_mem v hw)).mono hk

theorem lengthOf_safe (hv : v.Sound n) : Safe (· = .unknown) n (lengthOf v) Value.Sound := by
  unfold lengthOf
  split
  · exact Safe.pure fun _ _ => trivial
  · next a =>
    refine Safe.get ?_
    intro m _ hn
    obtain ⟨c, hc⟩ := Heap.exists_get?_of_lt (Nat.lt_of_lt_of_le hv hn)
    rw [hc]
    cases c with
    | object fields => exact Safe.pure fun _ _ => trivial
    | list items => exact Safe.pure fun _ _ => trivial
  · exact Eval.failKind_safe hv (fun _ => ⟨rfl, rfl⟩) rfl

theorem keysOf_safe (hv : v.Sound n) : Safe (· = .unknown) n (keysOf v) Value.Sound := by
  refine Safe.get ?_
  intro m _ hn
  have hv' := hv.mono hn
  dsimp only
  split
  · split
    · next fields _ =>
      refine Eval.alloc_safe ?_
      intro w hw
      obtain ⟨key, _, rfl⟩ := List.mem_map.1 hw
      trivial
    · exact Eval.failKind_safe hv' (fun _ => ⟨rfl, rfl⟩) rfl
  · exact Eval.failKind_safe hv' (fun _ => ⟨rfl, rfl⟩) rfl

theorem localeOf_safe {locale : Option Value} (hlocale : ∀ v ∈ locale, v.Sound n) :
    Safe (· = .unknown) n (localeOf locale) fun _ _ => True := by
  unfold localeOf
  split
  · exact Safe.pure fun _ _ => trivial
  · exact Safe.pure fun _ _ => trivial
  · exact Eval.failKind_safe (hlocale _ rfl) (fun _ => ⟨rfl, rfl⟩) rfl

theorem formatted_safe (find : Text → Option (Float → Text)) (hv : v.Sound n)
    {locale : Option Value} (hlocale : ∀ v ∈ locale, v.Sound n) :
    Safe (· = .unknown) n (formatted find v locale) Value.Sound := by
  unfold formatted
  split
  · refine (localeOf_safe hlocale).bind ?_
    intro k name _ _
    split
    · exact Safe.pure fun _ _ => trivial
    · exact Safe.fail ⟨rfl, rfl⟩ rfl
  · exact Eval.failKind_safe hv (fun _ => ⟨rfl, rfl⟩) rfl

theorem formatNumber_safe (settings : Settings) (scope : ScopeId) {args : List Value}
    (hargs : ∀ v ∈ args, v.Sound n) :
    Safe (· = .unknown) n (run settings scope .formatNumber args) Value.Sound := by
  match args with
  | [] => exact Safe.fail ⟨rfl, rfl⟩ rfl
  | [v] =>
    refine formatted_safe _ (hargs v List.mem_cons_self) ?_
    intro w hw
    cases hw
  | [v, locale] =>
    refine formatted_safe _ (hargs v List.mem_cons_self) ?_
    intro w hw
    cases hw
    exact hargs locale (List.mem_cons_of_mem v List.mem_cons_self)
  | _ :: _ :: _ :: _ => exact Safe.fail ⟨rfl, rfl⟩ rfl

end Action

/-- **The functions of the language cannot go wrong** when they are called with as many
    sound values as they want. -/
theorem Native.run_safe {fn : Native} (hfn : fn ∈ table) (settings : Settings) (scope : ScopeId)
    {args : List Value} (hcount : ¬ (0 ≤ fn.arity ∧ (args.length : Int) ≠ fn.arity))
    (hargs : ∀ v ∈ args, v.Sound n) :
    Safe (· = .unknown) n (fn.action.run settings scope args) Value.Sound := by
  -- functions of one argument read the first without looking
  have hsingle : fn.arity = 1 → ∃ v, args = [v] ∧ v.Sound n := by
    intro harity
    obtain ⟨v, rfl⟩ : ∃ v, args = [v] := List.length_eq_one_iff.1 (by omega)
    exact ⟨v, rfl, hargs v List.mem_cons_self⟩
  simp only [table, List.mem_cons, List.not_mem_nil, or_false] at hfn
  rcases hfn with rfl | rfl | rfl | rfl | rfl | rfl | rfl
  · refine Safe.get fun m _ hn => ?_
    refine (Eval.write_safe settings.sink _).bind ?_
    exact fun _ _ _ _ => Safe.pure fun _ _ => trivial
  · exact Action.extremumOf_safe hargs
  · exact Action.extremumOf_safe hargs
  · obtain ⟨v, rfl, hv⟩ := hsingle rfl
    exact Action.lengthOf_safe hv
  · obtain ⟨v, rfl, hv⟩ := hsingle rfl
    exact Action.keysOf_safe hv
  · refine (Eval.readClock_safe _).bind ?_
    exact fun _ _ _ _ => Safe.pure fun _ _ => trivial
  · exact Action.formatNumber_safe settings scope hargs

end Natives

end Scriptorium
