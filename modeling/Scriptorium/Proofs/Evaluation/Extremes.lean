/-
  Scriptorium.Proofs.Evaluation.Extremes: the greatest and the least argument.

  The two functions go through their arguments from the left and keep the best so far; a later
  one takes its place only if it is better.  NaN is neither better nor worse than anything.  So
  NaN stays if it comes first, and is passed over if it comes later: where NaN stands among
  other numbers, the result depends on the order.  Apart from NaN the numbers are ranked, and
  then the order of the arguments does not matter.

  Main results:
    * `lt_iff_rank`, `le_iff_rank`, `beq_iff_rank`: numbers are compared by their ranks.
    * `Prefers.best_spec`: what is kept is one of the numbers, and none of them is better.
    * `extreme_of_arguments`: the functions, and when they depend on the order.
    * `greatest_depends_on_order`: one of two arguments is NaN.
-/

import Mathlib.Data.Prod.Lex
import Scriptorium.Proofs.Evaluation.Slots

namespace Scriptorium

/-! ## §1. The order of numbers. -/

namespace Number

open Float.Model

/-- Numbers are ranked by sign first, with the infinities outside; of two with the same sign
    the exponent decides, and then the mantissa. -/
abbrev Rank := Int ×ₗ Int ×ₗ Int

/-- The rank of what a double stands for.  Both zeros have the same one.  There is no place for
    NaN, which gets that of zero. -/
def rankOf : UnpackedFloat → Rank
  | .infinity .negative => toLex (-2, toLex (0, 0))
  | .finite .negative mantissa exponent _ => toLex (-1, toLex (-exponent, -(mantissa : Int)))
  | .zero _ | .notANumber => toLex (0, toLex (0, 0))
  | .finite .positive mantissa exponent _ => toLex (1, toLex (exponent, (mantissa : Int)))
  | .infinity .positive => toLex (2, toLex (0, 0))

def rank (x : Float) : Rank := rankOf x.toModel.unpack

theorem compare_natCast (m n : Nat) : compare (m : Int) n = compare m n := by
  rcases Nat.lt_trichotomy m n with h | h | h
  · rw [compare_lt_iff_lt.2 h, compare_lt_iff_lt.2 (Int.ofNat_lt.2 h)]
  · rw [compare_eq_iff_eq.2 h, compare_eq_iff_eq.2 (congrArg _ h)]
  · rw [compare_gt_iff_gt.2 h, compare_gt_iff_gt.2 (Int.ofNat_lt.2 h)]

theorem compare_neg (m n : Int) : compare (-m) (-n) = (compare m n).swap := by
  rcases Int.lt_trichotomy m n with h | h | h
  · rw [compare_lt_iff_lt.2 h, compare_gt_iff_gt.2 (Int.neg_lt_neg h)]
    rfl
  · rw [compare_eq_iff_eq.2 h, compare_eq_iff_eq.2 (congrArg _ h)]
    rfl
  · rw [compare_gt_iff_gt.2 h, compare_lt_iff_lt.2 (Int.neg_lt_neg h)]
    rfl

theorem compare_toLex (a b c d e f : Int) :
    compare (toLex (a, toLex (b, c)) : Rank) (toLex (d, toLex (e, f))) =
      (compare a d).then ((compare b e).then (compare c f)) := by
  rw [Prod.Lex.compare_def]
  show (compare a d).then (compare (toLex (b, c)) (toLex (e, f))) = _
  rw [Prod.Lex.compare_def]
  rfl

/-- Comparing two numbers is comparing their ranks. -/
theorem compare_eq_rankOf {u v : UnpackedFloat} (hu : u.isNaN = false) (hv : v.isNaN = false) :
    u.compare v = some (compare (rankOf u) (rankOf v)) := by
  cases u with
  | notANumber => cases hu
  | infinity s | zero s =>
    cases v with
    | notANumber => cases hv
    | _ t =>
      cases s <;> cases t <;> simp only [rankOf, compare_toLex] <;> rfl
  | finite s m e hm =>
    cases v with
    | notANumber => cases hv
    | infinity t | zero t =>
      cases s <;> cases t <;> simp only [rankOf, compare_toLex] <;> rfl
    | finite t m' e' hm' =>
      cases s <;> cases t <;> simp only [rankOf, compare_toLex, compare_neg, compare_natCast]
      · rw [← Ordering.swap_then, ← Ordering.swap_then]
        rfl
      · rfl
      · rfl
      · rfl

/-- NaN cannot be compared. -/
theorem compare_eq_none {u v : UnpackedFloat} (h : u.isNaN = true ∨ v.isNaN = true) :
    u.compare v = none := by
  rcases h with h | h
  · cases u with
    | notANumber => rfl
    | _ => cases h
  · cases v with
    | notANumber => cases u <;> rfl
    | _ => cases h

/-- What a comparison gives, as a condition on ranks. -/
theorem compare_iff {x y : Float} (holds : Ordering → Prop) {related : Rank → Rank → Prop}
    (hrelated : ∀ a b, holds (compare a b) ↔ related a b) :
    (∃ o, x.toModel.unpack.compare y.toModel.unpack = some o ∧ holds o) ↔
      x.isNaN = false ∧ y.isNaN = false ∧ related (rank x) (rank y) := by
  by_cases hnan : x.isNaN = false ∧ y.isNaN = false
  · rw [compare_eq_rankOf hnan.1 hnan.2]
    simp only [Option.some.injEq, exists_eq_left', hrelated, hnan.1, hnan.2, true_and]
    rfl
  · have hnone : x.toModel.unpack.compare y.toModel.unpack = none := by
      refine compare_eq_none ?_
      rw [← Bool.not_eq_false, ← Bool.not_eq_false]
      exact not_and_or.1 hnan
    rw [hnone]
    constructor
    · intro ⟨o, ho, _⟩
      cases ho
    · intro ⟨hx, hy, _⟩
      exact absurd ⟨hx, hy⟩ hnan

theorem lt_iff_rank {x y : Float} :
    x < y ↔ x.isNaN = false ∧ y.isNaN = false ∧ rank x < rank y := by
  rw [← compare_iff (· = .lt) fun a b => compare_lt_iff_lt]
  show decide ((x.toModel.unpack.compare y.toModel.unpack == some .lt) = true) = true ↔ _
  simp

theorem le_iff_rank {x y : Float} :
    x ≤ y ↔ x.isNaN = false ∧ y.isNaN = false ∧ rank x ≤ rank y := by
  rw [← compare_iff (·.isLE = true) fun a b =>
    Ordering.ne_gt_iff_isLE.symm.trans compare_le_iff_le]
  show decide ((x.toModel.unpack.compare y.toModel.unpack).any (·.isLE) = true) = true ↔ _
  simp [Option.any_eq_true]

theorem beq_iff_rank {x y : Float} :
    (x == y) = true ↔ x.isNaN = false ∧ y.isNaN = false ∧ rank x = rank y := by
  rw [← compare_iff (· = .eq) fun a b => compare_eq_iff_eq]
  show (x.toModel.unpack.compare y.toModel.unpack == some .eq) = true ↔ _
  simp

/-- Whether two results are the same as numbers: both are NaN, or they are equal. -/
def SameValue (x y : Float) : Prop := x.isNaN = true ∧ y.isNaN = true ∨ (x == y) = true

theorem SameValue.isNaN_eq {x y : Float} (h : SameValue x y) : x.isNaN = y.isNaN := by
  rcases h with ⟨hx, hy⟩ | h
  · rw [hx, hy]
  · obtain ⟨hx, hy, _⟩ := beq_iff_rank.1 h
    rw [hx, hy]

end Number

/-! ## §2. The best of some numbers. -/

/-- The best of the numbers, from the left. -/
def best (better : Float → Float → Bool) : Float → List Float → Float :=
  List.foldl fun kept x => if better x kept then x else kept

/-- Whether of two numbers the one that is ranked higher is better.  NaN is not better than
    anything, and nothing is better than NaN. -/
def Prefers {α : Type} [LinearOrder α] (better : Float → Float → Bool) (rank : Float → α) : Prop :=
  ∀ x y, better x y = true ↔ x.isNaN = false ∧ y.isNaN = false ∧ rank y < rank x

theorem Action.prefers_greater : Prefers greater Number.rank := by
  intro x y
  unfold greater
  rw [decide_eq_true_iff, Number.lt_iff_rank]
  tauto

/-- Less is better: the ranks are taken the other way round. -/
theorem Action.prefers_less : Prefers less fun x => OrderDual.toDual (Number.rank x) := by
  intro x y
  unfold less
  rw [decide_eq_true_iff, Number.lt_iff_rank, OrderDual.toDual_lt_toDual]

namespace Prefers

variable {α : Type} [LinearOrder α] {better : Float → Float → Bool} {rank : Float → α} {x : Float}

/-- NaN stays once it is kept. -/
theorem best_of_isNaN (h : Prefers better rank) (hx : x.isNaN = true) (xs : List Float) :
    best better x xs = x := by
  induction xs with
  | nil => rfl
  | cons y xs ih =>
    have hworse : better y x = false := by
      rw [← Bool.not_eq_true, h]
      intro ⟨_, hx', _⟩
      rw [hx] at hx'
      cases hx'
    show best better (if better y x = true then y else x) xs = x
    rw [hworse]
    exact ih

/-- **What is kept is one of the numbers, and none of them is better.**  NaN is not kept unless
    it comes first. -/
theorem best_spec (h : Prefers better rank) (hx : x.isNaN = false) (xs : List Float) :
    best better x xs ∈ x :: xs ∧ (best better x xs).isNaN = false ∧
      ∀ y ∈ x :: xs, y.isNaN = false → rank y ≤ rank (best better x xs) := by
  induction xs generalizing x with
  | nil =>
    refine ⟨List.mem_cons_self, hx, fun y hy _ => ?_⟩
    rw [List.mem_singleton.1 hy]
    exact le_refl _
  | cons y xs ih =>
    show best better (if better y x = true then y else x) xs ∈ _ ∧ _
    by_cases hbetter : better y x = true
    · obtain ⟨hy, _, hlt⟩ := (h y x).1 hbetter
      obtain ⟨hmem, hnan, hall⟩ := ih hy
      simp only [best, List.foldl_cons, if_pos hbetter] at hmem hnan hall ⊢
      refine ⟨List.mem_cons_of_mem _ hmem, hnan, fun z hz hznan => ?_⟩
      rcases List.mem_cons.1 hz with rfl | hz
      · exact (le_of_lt hlt).trans (hall y List.mem_cons_self hy)
      · exact hall z hz hznan
    · obtain ⟨hmem, hnan, hall⟩ := ih hx
      simp only [best, List.foldl_cons, if_neg hbetter] at hmem hnan hall ⊢
      refine ⟨?_, hnan, fun z hz hznan => ?_⟩
      · rcases List.mem_cons.1 hmem with hmem | hmem
        · rw [hmem]
          exact List.mem_cons_self
        · exact List.mem_cons_of_mem _ (List.mem_cons_of_mem _ hmem)
      · rcases List.mem_cons.1 hz with rfl | hz
        · exact hall z List.mem_cons_self hznan
        rcases List.mem_cons.1 hz with rfl | hz
        · -- it was not better than what was kept
          have hle : rank z ≤ rank x := by
            rw [← not_lt]
            exact fun hlt => hbetter ((h z x).2 ⟨hznan, hx, hlt⟩)
          exact hle.trans (hall x List.mem_cons_self hx)
        · exact hall z (List.mem_cons_of_mem _ hz) hznan

end Prefers

/-! ## §3. The functions. -/

namespace Action

variable {function : Text} {better : Float → Float → Bool} {v : Value} {kind : Kind} {m : Machine}

theorem extremum_numbers (function : Text) (better : Float → Float → Bool) (xs : List Float)
    (index : Nat) (x : Float) :
    extremum function better index x (xs.map .number) = pure (best better x xs) := by
  induction xs generalizing index x with
  | nil => rfl
  | cons y xs ih =>
    show extremum function better (index + 1) (if better y x then y else x) (xs.map .number) = _
    rw [ih]
    rfl

theorem extremumOf_numbers (function : Text) (better : Float → Float → Bool) (x : Float)
    (xs : List Float) (m : Machine) :
    extremumOf function better ((x :: xs).map .number) m =
      .ok (.number (best better x xs)) m := by
  have hbest : extremum function better 2 x (xs.map .number) m = .ok (best better x xs) m := by
    rw [extremum_numbers]
    rfl
  exact (Eval.bind_ok (Eval.bind_ok rfl)).trans (Eval.bind_ok hbest)

/-- Anything but a number is refused, with its kind and where it stands. -/
theorem numberArgument_of_kind (hv : ∀ x, v ≠ .number x) (hkind : v.kind? m.heap = some kind)
    (index : Nat) :
    numberArgument function index v m =
      .error (.error (.unplaced (.argumentNotNumber function index kind))) m := by
  have hkindOf : Eval.kindOf v m = .ok kind m := by
    rw [Eval.kindOf_eq, hkind]
  unfold numberArgument
  cases v with
  | number x => exact absurd rfl (hv x)
  | _ => exact (Eval.bind_ok hkindOf).trans rfl

/-- The first of the arguments that is no number is named by its place among them. -/
theorem extremum_of_misfit (hv : ∀ x, v ≠ .number x) (hkind : v.kind? m.heap = some kind)
    (xs : List Float) (rest : List Value) (index : Nat) (x : Float) :
    extremum function better index x (xs.map .number ++ v :: rest) m =
      .error (.error (.unplaced (.argumentNotNumber function (index + xs.length) kind))) m := by
  induction xs generalizing index x with
  | nil => exact Eval.bind_error (numberArgument_of_kind hv hkind index)
  | cons y xs ih =>
    show extremum function better (index + 1) (if better y x then y else x)
      (xs.map .number ++ v :: rest) m = _
    rw [ih, List.length_cons, Nat.add_assoc, Nat.add_comm 1]

theorem extremumOf_of_misfit (hv : ∀ x, v ≠ .number x) (hkind : v.kind? m.heap = some kind)
    (xs : List Float) (rest : List Value) :
    extremumOf function better (xs.map .number ++ v :: rest) m =
      .error (.error (.unplaced (.argumentNotNumber function (xs.length + 1) kind))) m := by
  cases xs with
  | nil => exact Eval.bind_error (numberArgument_of_kind hv hkind 1)
  | cons x xs =>
    have hmisfit : extremum function better 2 x (xs.map .number ++ v :: rest) m =
        .error (.error (.unplaced (.argumentNotNumber function (xs.length + 2) kind))) m := by
      rw [extremum_of_misfit hv hkind, Nat.add_comm 2]
    exact (Eval.bind_ok rfl).trans (Eval.bind_error hmisfit)

end Action

/-- The two functions that pick one of their arguments. -/
inductive Extreme where
  | greatest
  | least

namespace Extreme

/-- The name that scripts have for the function. -/
def name : Extreme → Text
  | .greatest => "max"
  | .least => "min"

/-- Whether a result is not surpassed by an argument. -/
def Reaches : Extreme → (result x : Float) → Prop
  | .greatest, result, x => x ≤ result
  | .least, result, x => result ≤ x

/-- Whether one number is better than another for the function. -/
def better : Extreme → Float → Float → Bool
  | .greatest => Action.greater
  | .least => Action.less

/-- The action of the function. -/
def action : Extreme → Action
  | .greatest => .greatest
  | .least => .least

variable {ext : Extreme}

/-- The function of the language that has the name takes any number of arguments. -/
theorem eq_of_name {fn : Native} (hfn : fn ∈ Native.table) (hname : fn.name = ext.name) :
    fn = ⟨ext.name, -1, ext.action⟩ := by
  revert fn
  cases ext <;> decide

theorem run_eq (settings : Settings) (scope : ScopeId) (args : List Value) :
    ext.action.run settings scope args = Action.extremumOf ext.name ext.better args := by
  cases ext <;> rfl

/-- What the function picks from numbers: one of them, NaN exactly if the first is, and
    otherwise one that no other number surpasses. -/
theorem best_spec (x : Float) (xs : List Float) :
    best ext.better x xs ∈ x :: xs ∧ (best ext.better x xs).isNaN = x.isNaN ∧
      ∀ y ∈ x :: xs, x.isNaN = false → y.isNaN = false →
        ext.Reaches (best ext.better x xs) y := by
  cases hx : x.isNaN with
  | true =>
    have hkept : best ext.better x xs = x := by
      cases ext with
      | greatest => exact Action.prefers_greater.best_of_isNaN hx xs
      | least => exact Action.prefers_less.best_of_isNaN hx xs
    rw [hkept]
    refine ⟨List.mem_cons_self, hx, fun y _ hfalse => ?_⟩
    cases hfalse
  | false =>
    cases ext with
    | greatest =>
      obtain ⟨hmem, hnan, hall⟩ := Action.prefers_greater.best_spec hx xs
      refine ⟨hmem, hnan, fun y hy _ hynan => ?_⟩
      exact Number.le_iff_rank.2 ⟨hynan, hnan, hall y hy hynan⟩
    | least =>
      obtain ⟨hmem, hnan, hall⟩ := Action.prefers_less.best_spec hx xs
      refine ⟨hmem, hnan, fun y hy _ hynan => ?_⟩
      exact Number.le_iff_rank.2 ⟨hnan, hynan, hall y hy hynan⟩

/-- Two numbers that reach each other are equal. -/
theorem Reaches.beq {x y : Float} (h : ext.Reaches x y) (h' : ext.Reaches y x) :
    (x == y) = true := by
  have hle : x ≤ y ∧ y ≤ x := by
    cases ext with
    | greatest => exact ⟨h', h⟩
    | least => exact ⟨h, h'⟩
  obtain ⟨hx, hy, hxy⟩ := Number.le_iff_rank.1 hle.1
  obtain ⟨_, _, hyx⟩ := Number.le_iff_rank.1 hle.2
  exact Number.beq_iff_rank.2 ⟨hx, hy, le_antisymm hxy hyx⟩

section Order

variable {x y : Float} {xs ys : List Float}

/-- Where no number is NaN, or every one is, the order does not matter. -/
theorem sameValue_of_perm (hperm : (x :: xs).Perm (y :: ys))
    (h : (∀ z ∈ x :: xs, z.isNaN = false) ∨ ∀ z ∈ x :: xs, z.isNaN = true) :
    Number.SameValue (best ext.better x xs) (best ext.better y ys) := by
  obtain ⟨hmem, hnan, hall⟩ := ext.best_spec x xs
  obtain ⟨hmem', hnan', hall'⟩ := ext.best_spec y ys
  have hy : y ∈ x :: xs := hperm.mem_iff.2 List.mem_cons_self
  rcases h with h | h
  · -- each of the two results is an argument of the other call
    have hx := h x List.mem_cons_self
    have hreach := hall _ (hperm.mem_iff.2 hmem') hx (hnan'.trans (h y hy))
    have hreach' := hall' _ (hperm.mem_iff.1 hmem) (h y hy) (hnan.trans hx)
    exact .inr (hreach.beq hreach')
  · exact .inl ⟨hnan.trans (h x List.mem_cons_self), hnan'.trans (h y hy)⟩

/-- If the order does not matter, NaN does not stand among other numbers. -/
theorem alike_of_sameValue
    (h : ∀ y ys, (x :: xs).Perm (y :: ys) →
      Number.SameValue (best ext.better x xs) (best ext.better y ys)) :
    ∀ z ∈ x :: xs, z.isNaN = x.isNaN := by
  intro z hz
  -- the same numbers, and `z` is the first of them
  obtain ⟨before, after, hsplit⟩ := List.append_of_mem hz
  have hperm : (x :: xs).Perm (z :: (before ++ after)) := by
    rw [hsplit]
    exact List.perm_middle
  have hsame := (h z (before ++ after) hperm).isNaN_eq
  rw [(ext.best_spec x xs).2.1, (ext.best_spec z (before ++ after)).2.1] at hsame
  exact hsame.symm

end Order

section Calls

variable {fn : Native}

/-- What a call with numbers gives; nothing else happens. -/
theorem callNative_numbers (ext : Extreme) (hfn : fn ∈ Native.table) (hname : fn.name = ext.name)
    (settings : Settings) (scope : ScopeId) (span : Span) (x : Float) (xs : List Float)
    (m : Machine) :
    callNative settings scope span fn ((x :: xs).map .number) m =
      .ok (.number (best ext.better x xs)) m := by
  rw [eq_of_name hfn hname]
  refine callNative_of_ok (.inl (by simp)) (by simp) ?_ span
  rw [run_eq, Action.extremumOf_numbers]

/-- What a call with something else among the numbers gives. -/
theorem callNative_of_misfit (hfn : fn ∈ Native.table) (hname : fn.name = ext.name)
    (settings : Settings) (scope : ScopeId) (span : Span) {v : Value} {kind : Kind} {m : Machine}
    (hv : ∀ x, v ≠ .number x) (hkind : v.kind? m.heap = some kind) (xs : List Float)
    (rest : List Value) :
    callNative settings scope span fn (xs.map .number ++ v :: rest) m =
      .error (.error ((Error.unplaced (.argumentNotNumber fn.name (xs.length + 1) kind)).locate
        span.start)) m := by
  rw [eq_of_name hfn hname]
  refine callNative_of_error (.inl (by simp)) ?_ span
  rw [run_eq, Action.extremumOf_of_misfit hv hkind]

end Calls

end Extreme

/-- **The greatest and the least argument.**  Called with numbers, each of the two functions
    changes nothing and gives one of them.  It is NaN exactly if the first argument is; otherwise
    it reaches every argument that is not NaN.  Whatever the order of the arguments, the result
    is the same number, if and only if none of them is NaN or all are.  The first argument that
    is no number is refused: the error has its place among the arguments, from one, and its
    kind. -/
theorem extreme_of_arguments (ext : Extreme) {fn : Native} (hfn : fn ∈ Native.table)
    (hname : fn.name = ext.name) (settings : Settings) (scope : ScopeId) (span : Span)
    (m : Machine) :
    (∀ x xs, ∃ r, callNative settings scope span fn ((x :: xs).map .number) m =
        .ok (.number r) m ∧ r ∈ x :: xs ∧ r.isNaN = x.isNaN ∧
        ∀ y ∈ x :: xs, x.isNaN = false → y.isNaN = false → ext.Reaches r y) ∧
    (∀ xs : List Float, xs ≠ [] →
      ((∀ ys r r', xs.Perm ys →
        callNative settings scope span fn (xs.map .number) m = .ok (.number r) m →
        callNative settings scope span fn (ys.map .number) m = .ok (.number r') m →
        Number.SameValue r r') ↔
      (∀ x ∈ xs, x.isNaN = false) ∨ ∀ x ∈ xs, x.isNaN = true)) ∧
    ∀ (xs : List Float) (v : Value) (rest : List Value) (kind : Kind), (∀ x, v ≠ .number x) →
      v.kind? m.heap = some kind →
      ∃ cause : Cause, callNative settings scope span fn (xs.map .number ++ v :: rest) m =
          .error (.error ((Error.unplaced cause).locate span.start)) m ∧
        cause.kind = .interpret ∧
        cause.message = ext.name ++ " expects numbers, argument " ++ Text.ofNat (xs.length + 1) ++
          " is " ++ kind.name := by
  have hcall := ext.callNative_numbers hfn hname settings scope span
  refine ⟨?_, ?_, ?_⟩
  · intro x xs
    exact ⟨_, hcall x xs m, ext.best_spec x xs⟩
  · intro xs hne
    obtain ⟨x, xs, rfl⟩ := List.exists_cons_of_ne_nil hne
    constructor
    · intro h
      have halike : ∀ z ∈ x :: xs, z.isNaN = x.isNaN :=
        Extreme.alike_of_sameValue fun y ys hperm =>
          h (y :: ys) _ _ hperm (hcall x xs m) (hcall y ys m)
      cases hx : x.isNaN with
      | false => exact .inl fun z hz => (halike z hz).trans hx
      | true => exact .inr fun z hz => (halike z hz).trans hx
    · intro h ys r r' hperm hr hr'
      obtain ⟨y, ys, rfl⟩ : ∃ y ys', ys = y :: ys' :=
        List.exists_cons_of_ne_nil fun hnil => hne (List.perm_nil.1 (hnil ▸ hperm))
      rw [hcall] at hr hr'
      cases hr
      cases hr'
      exact Extreme.sameValue_of_perm hperm h
  · intro xs v rest kind hv hkind
    refine ⟨.argumentNotNumber fn.name (xs.length + 1) kind, ?_, rfl, ?_⟩
    · exact Extreme.callNative_of_misfit hfn hname settings scope span hv hkind xs rest
    · rw [hname]
      rfl

/-- Zero over zero, as a script computes it. -/
def zeroOverZero : Float := 0 / 0

/-- The greatest of two, of which the second is NaN, the least of none but NaN, and a text in
    the third place. -/
theorem extreme_of_arguments_mixed :
    ∃ r r' cause, callNative ⟨0, .collect, .bare⟩ 0 .unknown ⟨"max", -1, .greatest⟩
        [.number 1, .number zeroOverZero] default = .ok (.number r) default ∧
      r.isNaN = false ∧
      callNative ⟨0, .collect, .bare⟩ 0 .unknown ⟨"min", -1, .least⟩
        [.number zeroOverZero, .number zeroOverZero] default = .ok (.number r') default ∧
      r'.isNaN = true ∧
      callNative ⟨0, .collect, .bare⟩ 0 .unknown ⟨"min", -1, .least⟩
        [.number 1, .number 2, .string [], .null] default =
          .error (.error ((Error.unplaced cause).locate .unknown)) default ∧
      cause.message = Text.ofString "min expects numbers, argument 3 is string" := by
  have hmax : (⟨"max", -1, .greatest⟩ : Native) ∈ Native.table := by decide
  have hmin : (⟨"min", -1, .least⟩ : Native) ∈ Native.table := by decide
  have hgreatest := extreme_of_arguments .greatest hmax rfl ⟨0, .collect, .bare⟩ 0 .unknown default
  have hleast := extreme_of_arguments .least hmin rfl ⟨0, .collect, .bare⟩ 0 .unknown default
  obtain ⟨r, hr, _, hnan, _⟩ := hgreatest.1 1 [zeroOverZero]
  obtain ⟨r', hr', _, hnan', _⟩ := hleast.1 zeroOverZero [zeroOverZero]
  obtain ⟨cause, hcause, _, hmessage⟩ :=
    hleast.2.2 [1, 2] (.string []) [.null] .string (by simp) rfl
  refine ⟨r, r', cause, hr, hnan.trans ?_, hr', hnan'.trans ?_, hcause, hmessage.trans ?_⟩
  · decide +kernel
  · decide +kernel
  · decide +kernel

/-- **NaN makes the greatest argument depend on the order.**  Of NaN and one it is NaN, and of
    one and NaN it is one. -/
theorem greatest_depends_on_order :
    [zeroOverZero, 1].Perm [1, zeroOverZero] ∧
    callNative ⟨0, .collect, .bare⟩ 0 .unknown ⟨"max", -1, .greatest⟩
      [.number zeroOverZero, .number 1] default = .ok (.number zeroOverZero) default ∧
    callNative ⟨0, .collect, .bare⟩ 0 .unknown ⟨"max", -1, .greatest⟩
      [.number 1, .number zeroOverZero] default = .ok (.number 1) default ∧
    ¬ Number.SameValue zeroOverZero 1 := by
  have hmax : (⟨"max", -1, .greatest⟩ : Native) ∈ Native.table := by decide
  have hcall := Extreme.callNative_numbers .greatest hmax rfl ⟨0, .collect, .bare⟩ 0 .unknown
  have hfirst : best Action.greater zeroOverZero [1] = zeroOverZero := by decide +kernel
  have hsecond : best Action.greater 1 [zeroOverZero] = 1 := by decide +kernel
  refine ⟨.swap _ _ _, ?_, ?_, ?_⟩
  · refine (hcall zeroOverZero [1] default).trans ?_
    show EStateM.Result.ok (Value.number (best Action.greater zeroOverZero [1])) _ = _
    rw [hfirst]
  · refine (hcall 1 [zeroOverZero] default).trans ?_
    show EStateM.Result.ok (Value.number (best Action.greater 1 [zeroOverZero])) _ = _
    rw [hsecond]
  · intro h
    exact absurd h.isNaN_eq (by decide +kernel)

end Scriptorium
