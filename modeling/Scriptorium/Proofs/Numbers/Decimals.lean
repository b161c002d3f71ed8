/-
  Scriptorium.Proofs.Numbers.Decimals: the digits of a double tell it from all others.

  The shortest digits of a double stand for a fraction that is nearer to it than to the doubles
  next to it, or as near where its mantissa is even.  Seventeen digits are always enough, so
  the search for the shortest ones finds some.  No fraction rounds to two doubles, and the
  digits, the point and the exponent, wherever they are put, give the fraction back.  So two
  doubles that are written alike are one.

  Main results:
    * `Rounds.unique`: a fraction rounds to one double.
    * `rounds_shortest`: the shortest digits round to the double they are written for.
    * `Decimal.spells_positional`, `Decimal.spells_scientific`: both ways to write a decimal give
      it back.
    * `json?_injective`: different doubles are written differently.
-/

import Mathlib.Algebra.Order.Field.Power
import Mathlib.Data.Rat.Cast.Order
import Mathlib.Tactic.FieldSimp
import Mathlib.Tactic.Linarith
import Mathlib.Tactic.Positivity
import Mathlib.Tactic.Ring
import Scriptorium.Proofs.Numbers.Whole

namespace Scriptorium.Number

/-! ## §1. The fractions that round to a double. -/

/-- The fraction that a decimal stands for. -/
def Decimal.value (d : Decimal) : ℚ := d.digits * 10 ^ d.exponent

/-- Whether the fraction is between the middles to the two neighbours of a double; they belong
    to it if its mantissa is even. -/
structure Rounds (m : Nat) (e : Int) (r : ℚ) : Prop where
  low : (m - below m e / 4 : ℚ) * 2 ^ e ≤ r
  high : r ≤ (m + 1 / 2 : ℚ) * 2 ^ e
  ends : m % 2 = 1 → (m - below m e / 4 : ℚ) * 2 ^ e ≠ r ∧ r ≠ (m + 1 / 2 : ℚ) * 2 ^ e

theorem zpow_eq_div (b : ℚ) (hb : b ≠ 0) (e : Int) :
    b ^ e = b ^ e.toNat / b ^ (-e).toNat := by
  rw [← zpow_natCast, ← zpow_natCast, ← zpow_sub₀ hb]
  congr 1
  omega

variable {m num den : Nat} {e : Int}

/-- The ends of the interval of a double, as fractions. -/
theorem around_ends (hm : 0 < m) (e : Int) :
    (m - below m e / 4 : ℚ) * 2 ^ e =
        (Interval.around m e).low / (Interval.around m e).denominator ∧
      (m + 1 / 2 : ℚ) * 2 ^ e =
        (Interval.around m e).high / (Interval.around m e).denominator := by
  obtain ⟨hdown, hup, hvalue, hden⟩ := around_bounds hm e
  have hlow : ((Interval.around m e).low : ℚ) + below m e * 2 ^ e.toNat =
      4 * (m * 2 ^ e.toNat) := by
    rw [hvalue] at hdown
    exact_mod_cast hdown
  have hhigh : ((Interval.around m e).high : ℚ) = 4 * (m * 2 ^ e.toNat) + 2 * 2 ^ e.toNat := by
    rw [hvalue] at hup
    exact_mod_cast hup.symm
  have hden' : ((Interval.around m e).denominator : ℚ) = 4 * 2 ^ (-e).toNat := by
    exact_mod_cast hden
  have hpos : (0 : ℚ) < 2 ^ (-e).toNat := by positivity
  rw [zpow_eq_div 2 (by norm_num) e, hden', hhigh, eq_sub_of_add_eq hlow]
  constructor
  · field_simp
  · field_simp
    ring

/-- What the interval holds rounds to the double. -/
theorem rounds_of_holds (hm : 0 < m) (hden : 0 < den)
    (h : (Interval.around m e).holds num den = true) : Rounds m e (num / den) := by
  obtain ⟨hfrom, hto, hodd⟩ := bounds_of_holds_div h
  obtain ⟨hlow, hhigh⟩ := around_ends hm e
  have hpos : (0 : ℚ) < (Interval.around m e).denominator := by
    exact_mod_cast denominator_pos m e
  have hden' : (0 : ℚ) < den := by exact_mod_cast hden
  constructor
  · rw [hlow, div_le_div_iff₀ hpos hden']
    exact_mod_cast hfrom
  · rw [hhigh, div_le_div_iff₀ hden' hpos]
    exact_mod_cast hto
  · intro hm'
    obtain ⟨hneLow, hneHigh⟩ := hodd hm'
    rw [hlow, hhigh, Ne, Ne, div_eq_div_iff hpos.ne' hden'.ne', div_eq_div_iff hden'.ne' hpos.ne']
    exact ⟨by exact_mod_cast hneLow, by exact_mod_cast hneHigh⟩

/-- Whether a double has this mantissa and exponent. -/
def Canonical (m : Nat) (e : Int) : Prop :=
  0 < m ∧ m < 2 ^ 53 ∧ -1074 ≤ e ∧ (2 ^ 52 ≤ m ∨ e = -1074)

/-- The least fraction that rounds to a double of normal size which is not the least one. -/
theorem le_sub_below {m : Nat} {e : Int} (hm : 2 ^ 52 ≤ m) (he : -1074 < e) :
    (2 ^ 52 - 1 / 4 : ℚ) ≤ m - below m e / 4 := by
  unfold below
  split
  · next hleast =>
    rw [hleast.1]
    norm_num
  · next hmore =>
    have hless : 2 ^ 52 + 1 ≤ m := by
      have hne : m ≠ 2 ^ 52 := fun h => hmore ⟨h, he⟩
      omega
    have hless' : (2 ^ 52 + 1 : ℚ) ≤ m := by exact_mod_cast hless
    push_cast
    linarith

/-- A fraction does not round to two doubles, one greater than the other: their ranges meet at
    most in one point, and there one of the two mantissas is odd. -/
theorem Rounds.not_lt {m m' : Nat} {e e' : Int} {r : ℚ} (h : Rounds m e r) (h' : Rounds m' e' r)
    (hc : Canonical m e) (hc' : Canonical m' e') (hless : e < e' ∨ e = e' ∧ m < m') : False := by
  have hpos : (0 : ℚ) < 2 ^ e := by positivity
  obtain ⟨_, hhigh, hmin, _⟩ := hc
  rcases hless with hexponent | ⟨rfl, hmantissa⟩
  · have hnormal : 2 ^ 52 ≤ m' := hc'.2.2.2.resolve_right (by omega)
    have hscale : (2 : ℚ) * 2 ^ e ≤ 2 ^ e' := by
      rw [← zpow_one_add₀ (by norm_num)]
      exact zpow_le_zpow_right₀ (by norm_num) (by omega)
    have hfrom : (2 ^ 53 - 1 / 2 : ℚ) * 2 ^ e ≤ r := by
      calc (2 ^ 53 - 1 / 2 : ℚ) * 2 ^ e = (2 ^ 52 - 1 / 4) * (2 * 2 ^ e) := by ring
        _ ≤ (2 ^ 52 - 1 / 4) * 2 ^ e' := mul_le_mul_of_nonneg_left hscale (by norm_num)
        _ ≤ (m' - below m' e' / 4) * 2 ^ e' :=
          mul_le_mul_of_nonneg_right (le_sub_below hnormal (by omega)) (by positivity)
        _ ≤ r := h'.low
    -- so the mantissa is the greatest one, which is odd
    have hle : (2 ^ 53 - 1 / 2 : ℚ) ≤ m + 1 / 2 :=
      le_of_mul_le_mul_right (hfrom.trans h.high) hpos
    have hgreatest : m = 2 ^ 53 - 1 := by
      have hnat : 2 ^ 53 ≤ m + 1 := by
        have hcast : (2 ^ 53 : ℚ) ≤ m + 1 := by linarith
        exact_mod_cast hcast
      omega
    apply (h.ends (by omega)).2
    apply le_antisymm h.high
    rw [hgreatest]
    push_cast
    linarith
  · have hbelow : (below m' e : ℚ) ≤ 2 := by exact_mod_cast (below_bounds m' e).2
    have hnext : (m + 1 : ℚ) ≤ m' := by exact_mod_cast hmantissa
    have hmiddle : (m + 1 / 2 : ℚ) * 2 ^ e ≤ (m' - below m' e / 4) * 2 ^ e :=
      mul_le_mul_of_nonneg_right (by linarith) hpos.le
    -- the two ranges meet in the middle, so the mantissas are neighbours
    have hmeet : r = (m + 1 / 2 : ℚ) * 2 ^ e := le_antisymm h.high (hmiddle.trans h'.low)
    have hmeet' : (m' - below m' e / 4 : ℚ) * 2 ^ e = r :=
      le_antisymm h'.low (h.high.trans hmiddle)
    have hneighbour : m' = m + 1 := by
      have hle : (m' - below m' e / 4 : ℚ) ≤ m + 1 / 2 :=
        le_of_mul_le_mul_right (hmeet'.trans hmeet).le hpos
      have hnat : m' ≤ m + 1 := by
        have hcast : (m' : ℚ) ≤ m + 1 := by linarith
        exact_mod_cast hcast
      omega
    rcases Nat.mod_two_eq_zero_or_one m with heven | hodd
    · exact (h'.ends (by omega)).1 hmeet'
    · exact (h.ends hodd).2 hmeet

/-- **A fraction rounds to one double at most.** -/
theorem Rounds.unique {m m' : Nat} {e e' : Int} {r : ℚ} (h : Rounds m e r) (h' : Rounds m' e' r)
    (hc : Canonical m e) (hc' : Canonical m' e') : m = m' ∧ e = e' := by
  have hless : ¬ (e < e' ∨ e = e' ∧ m < m') := h.not_lt h' hc hc'
  have hmore : ¬ (e' < e ∨ e' = e ∧ m' < m) := h'.not_lt h hc' hc
  omega

/-! ## §2. The shortest digits. -/

/-- The interval in units of which so many make up the old ones. -/
def Interval.scale (i : Interval) (c : Nat) : Interval :=
  { i with low := i.low * c, value := i.value * c, high := i.high * c }

theorem Interval.scale_value (i : Interval) (c : Nat) : (i.scale c).value = i.value * c := rfl

theorem Interval.scale_denominator (i : Interval) (c : Nat) :
    (i.scale c).denominator = i.denominator := rfl

theorem Interval.holds_scale (i : Interval) (num c : Nat) :
    (i.scale c).holds num 1 = i.holds num c := by
  simp only [holds, scale, Nat.mul_one]

/-- Decimal places are the units of a scaled interval. -/
theorem Interval.atLength_scale (i : Interval) (top : Int) (count : Nat) :
    i.atLength top count =
      ((i.scale (10 ^ (-(top - count)).toNat)).atLength ((top - count).toNat + count : Nat)
        count).map fun d => ⟨d.digits, top - count⟩ := by
  have hexponent : (((top - count).toNat + count : Nat) : Int) - count = (top - count).toNat := by
    omega
  have hdown : (-((top - count).toNat : Int)).toNat = 0 := by omega
  simp only [Interval.atLength, hexponent, Int.toNat_natCast, hdown, Nat.pow_eq, Nat.pow_zero,
    Nat.mul_one, holds_scale, scale_value, scale_denominator, apply_ite (Option.map _),
    Option.map_some, Option.map_none]

/-- The first digit of a fraction. -/
theorem decimalExponent_le (hnum : 0 < num) (hden : 0 < den) :
    (10 : ℚ) ^ (decimalExponent num den - 1) ≤ num / den := by
  have hden' : (0 : ℚ) < den := by exact_mod_cast hden
  unfold decimalExponent
  split
  · next hle =>
    have hne : num / den ≠ 0 := (Nat.div_pos hle hden).ne'
    obtain ⟨hcount, hfrom, _⟩ := digitCount_bounds hne
    have hexponent : ((digitCount (num / den) : Int) - 1) = (digitCount (num / den) - 1 : Nat) := by
      omega
    rw [hexponent, zpow_natCast, le_div_iff₀ hden']
    have hmul : 10 ^ (digitCount (num / den) - 1) * den ≤ num :=
      (Nat.mul_le_mul_right den hfrom).trans (Nat.div_mul_le_self num den)
    exact_mod_cast hmul
  · next hlt =>
    -- the whole part of the inverse, or one less if there is nothing behind it
    generalize hq : (den + num - 1) / num - 1 = q
    have hceil : den ≤ num * (q + 1) := by
      have hlarge : 1 ≤ (den + num - 1) / num := (Nat.le_div_iff_mul_le hnum).2 (by omega)
      have hsplit := Nat.div_add_mod (den + num - 1) num
      have hrest := Nat.mod_lt (den + num - 1) hnum
      rw [show q + 1 = (den + num - 1) / num by omega]
      omega
    have hq0 : q ≠ 0 := by
      rintro rfl
      omega
    obtain ⟨_, _, hto⟩ := digitCount_bounds hq0
    have hexponent : (1 - (digitCount q : Int) - 1) = -(digitCount q : Nat) := by omega
    rw [hexponent, zpow_neg, zpow_natCast, inv_eq_one_div, div_le_div_iff₀ (by positivity) hden',
      one_mul]
    have hmul : den ≤ num * 10 ^ digitCount q := hceil.trans (Nat.mul_le_mul_left num hto)
    exact_mod_cast hmul

/-- The seventeenth digit of a double counts less than its last bit does, if they are brought
    to a common scale. -/
theorem seventeenth_digit_le (hm : 0 < m) {top : Int} (htop : top =
    decimalExponent (Interval.around m e).value (Interval.around m e).denominator) :
    10 ^ 16 * (2 ^ (-e).toNat * 10 ^ (top - 17).toNat) ≤
      m * (2 ^ e.toNat * 10 ^ (-(top - 17)).toNat) := by
  obtain ⟨_, _, hvalue, hden⟩ := around_bounds hm e
  have hpos : 0 < (Interval.around m e).value := by
    rw [hvalue]
    positivity
  have hfirst := decimalExponent_le hpos (denominator_pos m e)
  rw [← htop, hvalue, hden] at hfirst
  have hscaled : (10 : ℚ) ^ (top - 1) = 10 ^ 16 * 10 ^ (top - 17) := by
    rw [← zpow_natCast, ← zpow_add₀ (by norm_num)]
    congr 1
    push_cast
    ring
  rw [hscaled, zpow_eq_div 10 (by norm_num) (top - 17), ← mul_div_assoc,
    div_le_div_iff₀ (by positivity) (by positivity)] at hfirst
  have hcast : 10 ^ 16 * 10 ^ (top - 17).toNat * (4 * 2 ^ (-e).toNat) ≤
      4 * (m * 2 ^ e.toNat) * 10 ^ (-(top - 17)).toNat := by exact_mod_cast hfirst
  apply Nat.le_of_mul_le_mul_left _ (show 0 < 4 by decide)
  calc 4 * (10 ^ 16 * (2 ^ (-e).toNat * 10 ^ (top - 17).toNat))
      = 10 ^ 16 * 10 ^ (top - 17).toNat * (4 * 2 ^ (-e).toNat) := by ring
    _ ≤ 4 * (m * 2 ^ e.toNat) * 10 ^ (-(top - 17)).toNat := hcast
    _ = 4 * (m * (2 ^ e.toNat * 10 ^ (-(top - 17)).toNat)) := by ring

/-- Seventeen digits are enough for every double. -/
theorem isSome_atLength_seventeen (hm : 0 < m) (hhigh : m < 2 ^ 53) :
    ((Interval.around m e).atLength
      (decimalExponent (Interval.around m e).value (Interval.around m e).denominator) 17).isSome =
      true := by
  generalize htop : decimalExponent _ _ = top
  have hlarge := seventeenth_digit_le hm htop.symm
  obtain ⟨hdown, hup, hvalue, hden⟩ := around_bounds hm e
  have hunit : 0 < 2 ^ (-e).toNat * 10 ^ (top - 17).toNat := by positivity
  have hscale : 0 < 2 ^ e.toNat * 10 ^ (-(top - 17)).toNat := by positivity
  obtain ⟨hlower, hupper⟩ := gap_of_large e hhigh hunit hlarge
  have hgap := Nat.mul_pos (below_bounds m e).1 hscale
  rw [Interval.atLength_scale, Option.isSome_map, Nat.cast_ofNat]
  generalize hscaled : (Interval.around m e).scale (10 ^ (-(top - 17)).toNat) = i
  -- the ends and the unit of the scaled interval
  have hlow : i.low + below m e * (2 ^ e.toNat * 10 ^ (-(top - 17)).toNat) = i.value := by
    rw [← hscaled]
    show (Interval.around m e).low * 10 ^ (-(top - 17)).toNat + _ =
      (Interval.around m e).value * 10 ^ (-(top - 17)).toNat
    rw [← hdown]
    ring
  have hend : i.value + 2 * (2 ^ e.toNat * 10 ^ (-(top - 17)).toNat) = i.high := by
    rw [← hscaled]
    show (Interval.around m e).value * 10 ^ (-(top - 17)).toNat + _ =
      (Interval.around m e).high * 10 ^ (-(top - 17)).toNat
    rw [← hup]
    ring
  have hone : i.denominator * 10 ^ ((top - 17).toNat + 17 - 17) =
      4 * (2 ^ (-e).toNat * 10 ^ (top - 17).toNat) := by
    rw [← hscaled, Nat.add_sub_cancel]
    show (Interval.around m e).denominator * _ = _
    rw [hden]
    ring
  have hdenominator : 0 < i.denominator := by
    rw [← hscaled]
    exact denominator_pos m e
  apply isSome_atLength (Nat.le_add_left _ _) hdenominator
  · omega
  · rw [hone]
    omega
  · rw [hone]
    omega

/-- A decimal that is found is in the interval. -/
theorem rounds_of_atLength {top : Int} {k : Nat} {d : Decimal} (hm : 0 < m)
    (hd : (Interval.around m e).atLength top k = some d) : Rounds m e d.value := by
  rw [Interval.atLength_scale] at hd
  obtain ⟨d', hd', rfl⟩ := Option.map_eq_some_iff.1 hd
  obtain ⟨digits, rfl, hholds⟩ := holds_of_atLength (Nat.le_add_left _ _) hd'
  rw [Interval.holds_scale, Nat.add_sub_cancel] at hholds
  have hrounds := rounds_of_holds hm (Nat.pow_pos (by decide)) hholds
  have hvalue : (⟨digits, top - k⟩ : Decimal).value =
      ((digits * 10 ^ (top - k).toNat : Nat) : ℚ) / ((10 ^ (-(top - k)).toNat : Nat) : ℚ) := by
    unfold Decimal.value
    rw [zpow_eq_div 10 (by norm_num), mul_div_assoc']
    push_cast
    rfl
  rw [hvalue]
  exact hrounds

/-- Dropping zeros does not change the value. -/
theorem Decimal.value_strip (fuel : Nat) (d : Decimal) : (d.strip fuel).value = d.value := by
  induction fuel generalizing d with
  | zero => rfl
  | succ fuel ih =>
    unfold Decimal.strip
    split
    · next hzero =>
      have hten : (d.digits : ℚ) = (d.digits / 10 : Nat) * 10 := by
        have hnat : d.digits = d.digits / 10 * 10 := by omega
        exact_mod_cast hnat
      rw [ih]
      unfold Decimal.value
      rw [zpow_add_one₀ (by norm_num), hten]
      ring
    · rfl

/-- **The shortest digits of a double round to it.** -/
theorem rounds_shortest (hm : 0 < m) (hhigh : m < 2 ^ 53) : Rounds m e (shortest m e).value := by
  have hsome : ((List.range' 1 17).findSome? ((Interval.around m e).atLength
      (decimalExponent (Interval.around m e).value (Interval.around m e).denominator))).isSome =
      true := by
    rw [List.findSome?_isSome_iff]
    exact ⟨17, by decide, isSome_atLength_seventeen hm hhigh⟩
  obtain ⟨d, hd⟩ := Option.isSome_iff_exists.1 hsome
  obtain ⟨k, _, hfound⟩ := List.exists_of_findSome?_eq_some hd
  simp only [shortest, hd, Decimal.value_strip]
  exact rounds_of_atLength hm hfound

/-! ## §3. Digits with a point and an exponent. -/

/-- A point and the digits after it; nothing if there are none. -/
def pointed (places : List Char) : List Char := if places = [] then [] else '.' :: places

/-- The exponent that a mark, a sign and digits stand for. -/
def exponentOf : List Char → Int
  | _ :: '-' :: digits => -(Nat.ofDigitChars 10 digits 0 : Nat)
  | _ :: _ :: digits => (Nat.ofDigitChars 10 digits 0 : Nat)
  | _ => 0

/-- The fraction that digits with a point and an exponent stand for. -/
def fractionOf (l : List Char) : ℚ :=
  let front := l.takeWhile (· ≠ 'e')
  let whole := front.takeWhile (· ≠ '.')
  let places := (front.dropWhile (· ≠ '.')).drop 1
  Nat.ofDigitChars 10 (whole ++ places) 0 *
    10 ^ (exponentOf (l.dropWhile (· ≠ 'e')) - (places.length : Int))

section Fraction

variable {whole places tail : List Char}

theorem ne_of_isDigit {c d : Char} (hc : c.isDigit = true) (hd : d.isDigit = false) :
    decide (c ≠ d) = true := by
  rw [decide_eq_true_eq]
  rintro rfl
  rw [hc] at hd
  cases hd

/-- The parts of a number can be told apart. -/
theorem fractionOf_eq (hwhole : ∀ c ∈ whole, c.isDigit = true)
    (hplaces : ∀ c ∈ places, c.isDigit = true) (htail : ∀ c ∈ tail.head?, c = 'e') :
    fractionOf (whole ++ pointed places ++ tail) =
      Nat.ofDigitChars 10 (whole ++ places) 0 * 10 ^ (exponentOf tail - (places.length : Int)) := by
  have hfront : ∀ c ∈ whole ++ pointed places, decide (c ≠ 'e') = true := by
    refine List.forall_mem_append.2 ⟨fun c hc => ne_of_isDigit (hwhole c hc) rfl, ?_⟩
    unfold pointed
    split
    · exact List.forall_mem_nil _
    · exact List.forall_mem_cons.2 ⟨rfl, fun c hc => ne_of_isDigit (hplaces c hc) rfl⟩
  have hwhole' : ∀ c ∈ whole, decide (c ≠ '.') = true :=
    fun c hc => ne_of_isDigit (hwhole c hc) rfl
  have htail' : tail.takeWhile (fun c => decide (c ≠ 'e')) = [] ∧
      tail.dropWhile (fun c => decide (c ≠ 'e')) = tail := by
    cases tail with
    | nil => exact ⟨rfl, rfl⟩
    | cons c tail =>
      cases htail c rfl
      exact ⟨rfl, rfl⟩
  have hpoint : (pointed places).takeWhile (fun c => decide (c ≠ '.')) = [] ∧
      ((pointed places).dropWhile (fun c => decide (c ≠ '.'))).drop 1 = places := by
    unfold pointed
    split
    · next hnone =>
      rw [hnone]
      exact ⟨rfl, rfl⟩
    · exact ⟨rfl, rfl⟩
  simp only [fractionOf, List.takeWhile_append_of_pos hfront, List.dropWhile_append_of_pos hfront,
    htail'.1, htail'.2, List.append_nil, List.takeWhile_append_of_pos hwhole',
    List.dropWhile_append_of_pos hwhole', hpoint.1, hpoint.2]

/-- Whether the character may occur in a number. -/
def isNumberChar (c : Char) : Bool := c.isDigit || c = '.' || c = 'e' || c = '+' || c = '-'

/-- Whether the characters are those of a number, from a first digit on, and stand for this
    fraction. -/
structure Spells (l : List Char) (r : ℚ) : Prop where
  first : ∃ c ∈ l.head?, c.isDigit = true
  all : ∀ c ∈ l, isNumberChar c = true
  fraction : fractionOf l = r

theorem isNumberChar_of_isDigit {c : Char} (hc : c.isDigit = true) : isNumberChar c = true := by
  simp [isNumberChar, hc]

theorem spells_of_parts {r : ℚ} (hne : whole ≠ []) (hwhole : ∀ c ∈ whole, c.isDigit = true)
    (hplaces : ∀ c ∈ places, c.isDigit = true) (htail : ∀ c ∈ tail.head?, c = 'e')
    (hall : ∀ c ∈ tail, isNumberChar c = true)
    (hr : (Nat.ofDigitChars 10 (whole ++ places) 0 : ℚ) *
      10 ^ (exponentOf tail - (places.length : Int)) = r) :
    Spells (whole ++ pointed places ++ tail) r where
  first := by
    cases whole with
    | nil => exact absurd rfl hne
    | cons c whole => exact ⟨c, rfl, hwhole c List.mem_cons_self⟩
  all := by
    simp only [List.forall_mem_append]
    refine ⟨⟨fun c hc => isNumberChar_of_isDigit (hwhole c hc), ?_⟩, hall⟩
    unfold pointed
    split
    · exact List.forall_mem_nil _
    · exact List.forall_mem_cons.2 ⟨rfl, fun c hc => isNumberChar_of_isDigit (hplaces c hc)⟩
  fraction := (fractionOf_eq hwhole hplaces htail).trans hr

end Fraction

namespace Decimal

theorem isDigit_of_mem_toDigits {n : Nat} {c : Char} (hc : c ∈ Nat.toDigits 10 n) :
    c.isDigit = true :=
  Nat.isDigit_of_mem_toDigits (by decide) (by decide) hc

theorem isDigit_of_mem_zeros {n : Nat} {c : Char} (hc : c ∈ List.replicate n '0') :
    c.isDigit = true := by
  rw [List.eq_of_mem_replicate hc]
  rfl

theorem toDigits_ne_nil (n : Nat) : Nat.toDigits 10 n ≠ [] :=
  List.ne_nil_of_length_pos Nat.length_toDigits_pos

theorem ofDigitChars_zeros (n : Nat) (l : List Char) :
    Nat.ofDigitChars 10 (List.replicate n '0' ++ l) 0 = Nat.ofDigitChars 10 l 0 := by
  rw [Nat.ofDigitChars_append, Nat.ofDigitChars_replicate_zero, Nat.mul_zero]

/-- A decimal without an exponent: zeros up to the point, a point among its digits, or zeros
    from the point on. -/
theorem spells_positional (d : Decimal) : Spells d.positional d.value := by
  have hread : Nat.ofDigitChars 10 (Nat.toDigits 10 d.digits) 0 = d.digits :=
    Nat.ofDigitChars_ten_toDigits
  have hdigits : ∀ c ∈ Nat.toDigits 10 d.digits, c.isDigit = true :=
    fun c hc => isDigit_of_mem_toDigits hc
  have hlength : 0 < (Nat.toDigits 10 d.digits).length := Nat.length_toDigits_pos
  -- it is enough to find the digits before and after the point
  have hparts : ∀ whole places : List Char, d.positional = whole ++ pointed places →
      whole ≠ [] → (∀ c ∈ whole, c.isDigit = true) → (∀ c ∈ places, c.isDigit = true) →
      (Nat.ofDigitChars 10 (whole ++ places) 0 : ℚ) * 10 ^ (0 - (places.length : Int)) =
        d.value → Spells d.positional d.value := by
    intro whole places heq hne hwhole hplaces hvalue
    rw [heq, ← List.append_nil (whole ++ _)]
    exact spells_of_parts hne hwhole hplaces (fun _ h => nomatch h) (List.forall_mem_nil _) hvalue
  by_cases hexponent : 0 ≤ d.exponent
  · apply hparts (Nat.toDigits 10 d.digits ++ List.replicate d.exponent.toNat '0') []
    · simp only [positional, if_pos hexponent, pointed, if_true, List.append_nil]
    · exact List.append_ne_nil_of_left_ne_nil (toDigits_ne_nil _) _
    · exact List.forall_mem_append.2 ⟨hdigits, fun c hc => isDigit_of_mem_zeros hc⟩
    · exact List.forall_mem_nil _
    · have hpow : (10 : ℚ) ^ d.exponent = 10 ^ d.exponent.toNat := by
        rw [← zpow_natCast, Int.toNat_of_nonneg hexponent]
      rw [List.append_nil, Nat.ofDigitChars_append, hread, Nat.ofDigitChars_replicate_zero]
      unfold value
      rw [hpow]
      push_cast
      simp only [List.length_nil, Int.natCast_zero, sub_zero, zpow_zero, mul_one]
      ring
  · generalize hdigits' : Nat.toDigits 10 d.digits = digits at hread hdigits hlength
    by_cases hplaces : (-d.exponent).toNat < digits.length
    · apply hparts (digits.take (digits.length - (-d.exponent).toNat))
        (digits.drop (digits.length - (-d.exponent).toNat))
      · have hsome : digits.drop (digits.length - (-d.exponent).toNat) ≠ [] := by
          rw [Ne, List.drop_eq_nil_iff]
          omega
        simp only [positional, hdigits', if_neg hexponent, if_pos hplaces, pointed, if_neg hsome]
      · rw [Ne, List.take_eq_nil_iff, not_or]
        exact ⟨by omega, List.ne_nil_of_length_pos hlength⟩
      · exact fun c hc => hdigits c (List.mem_of_mem_take hc)
      · exact fun c hc => hdigits c (List.mem_of_mem_drop hc)
      · have hcount : (0 : Int) - (digits.length - (digits.length - (-d.exponent).toNat) : Nat) =
            d.exponent := by omega
        rw [List.take_append_drop, hread, List.length_drop, hcount]
        rfl
    · apply hparts ['0'] (List.replicate ((-d.exponent).toNat - digits.length) '0' ++ digits)
      · have hsome : List.replicate ((-d.exponent).toNat - digits.length) '0' ++ digits ≠ [] :=
          List.append_ne_nil_of_right_ne_nil _ (List.ne_nil_of_length_pos hlength)
        simp only [positional, hdigits', if_neg hexponent, if_neg hplaces, pointed, if_neg hsome]
        rfl
      · exact List.cons_ne_nil _ _
      · exact List.forall_mem_singleton.2 rfl
      · exact List.forall_mem_append.2 ⟨fun c hc => isDigit_of_mem_zeros hc, hdigits⟩
      · have hcount : (0 : Int) - ((-d.exponent).toNat - digits.length + digits.length : Nat) =
            d.exponent := by omega
        have hzero : ['0'] ++ (List.replicate ((-d.exponent).toNat - digits.length) '0' ++ digits) =
            List.replicate ((-d.exponent).toNat - digits.length + 1) '0' ++ digits := rfl
        rw [hzero, ofDigitChars_zeros, hread, List.length_append, List.length_replicate, hcount]
        rfl

/-- The exponent with its mark and sign. -/
theorem exponentOf_eq (n : Int) (zeros : Nat) :
    exponentOf ('e' :: (if n < 0 then '-' else '+') ::
      (List.replicate zeros '0' ++ Nat.toDigits 10 n.natAbs)) = n := by
  split
  · show -((Nat.ofDigitChars 10
      (List.replicate zeros '0' ++ Nat.toDigits 10 n.natAbs) 0 : Nat) : Int) = n
    rw [ofDigitChars_zeros, Nat.ofDigitChars_ten_toDigits]
    omega
  · show ((Nat.ofDigitChars 10
      (List.replicate zeros '0' ++ Nat.toDigits 10 n.natAbs) 0 : Nat) : Int) = n
    rw [ofDigitChars_zeros, Nat.ofDigitChars_ten_toDigits]
    omega

/-- A decimal with an exponent: a point after its first digit. -/
theorem spells_scientific (width : Nat) (d : Decimal) : Spells (d.scientific width) d.value := by
  have hread : Nat.ofDigitChars 10 (Nat.toDigits 10 d.digits) 0 = d.digits :=
    Nat.ofDigitChars_ten_toDigits
  have hdigits : ∀ c ∈ Nat.toDigits 10 d.digits, c.isDigit = true :=
    fun c hc => isDigit_of_mem_toDigits hc
  have hlength : 0 < (Nat.toDigits 10 d.digits).length := Nat.length_toDigits_pos
  unfold scientific
  generalize Nat.toDigits 10 d.digits = digits at hread hdigits hlength
  dsimp only
  generalize hexponent : d.exponent + (digits.length - 1 : Nat) = exponent
  have hpoint : (if digits.length ≤ 1 then [] else ['.']) ++ digits.drop 1 =
      pointed (digits.drop 1) := by
    unfold pointed
    simp only [List.drop_eq_nil_iff]
    split
    · next hone => rw [List.drop_eq_nil_of_le hone, List.append_nil]
    · rfl
  simp only [List.append_assoc, List.cons_append, List.nil_append]
  rw [← List.append_assoc (if digits.length ≤ 1 then [] else ['.']), hpoint, ← List.append_assoc]
  refine spells_of_parts ?_ (fun c hc => hdigits c (List.mem_of_mem_take hc))
    (fun c hc => hdigits c (List.mem_of_mem_drop hc)) (fun c hc => (Option.some.inj hc).symm) ?_ ?_
  · rw [Ne, List.take_eq_nil_iff, not_or]
    exact ⟨by decide, List.ne_nil_of_length_pos hlength⟩
  · refine List.forall_mem_cons.2 ⟨rfl, List.forall_mem_cons.2 ⟨?_, ?_⟩⟩
    · split <;> rfl
    · exact List.forall_mem_append.2
        ⟨fun c hc => isNumberChar_of_isDigit (isDigit_of_mem_zeros hc),
          fun c hc => isNumberChar_of_isDigit (isDigit_of_mem_toDigits hc)⟩
  · have hcount : exponent - (digits.length - 1 : Nat) = d.exponent := by omega
    rw [List.take_append_drop, hread, exponentOf_eq, List.length_drop, hcount]
    rfl

end Decimal

/-! ## §4. Numbers in documents. -/

theorem spells_zero : Spells ['0'] 0 := by
  have hzero : (⟨0, 0⟩ : Decimal).value = 0 := by simp [Decimal.value]
  rw [← hzero]
  exact Decimal.spells_positional ⟨0, 0⟩

/-- A finite double that is not zero has a canonical mantissa and exponent. -/
theorem canonical_of_read {x : Float} {d : Dyadic} (hread : read x = .finite d)
    (hne : d.mantissa ≠ 0) : Canonical d.mantissa d.exponent := by
  unfold Canonical
  rcases toBits_of_read hread with ⟨_, _, _⟩ | ⟨_, _, _, _, _⟩ <;> omega

theorem exponent_of_zero {x : Float} {d : Dyadic} (hread : read x = .finite d)
    (hzero : d.mantissa = 0) : d.exponent = -1074 := by
  rcases toBits_of_read hread with ⟨_, hexponent, _⟩ | ⟨_, _, _, _, _⟩
  · exact hexponent
  · omega

/-- A finite double is known by its sign, mantissa and exponent. -/
theorem eq_of_read {x y : Float} {d : Dyadic} (hx : read x = .finite d) (hy : read y = .finite d) :
    x = y := by
  apply float_eq_of_toBits
  rcases toBits_of_read hx with ⟨_, _, hbits⟩ | ⟨_, _, _, _, hbits⟩
  · rcases toBits_of_read hy with ⟨_, _, hbits'⟩ | ⟨_, _, _, _, _⟩
    · rw [hbits, hbits']
    · omega
  · rcases toBits_of_read hy with ⟨_, _, _⟩ | ⟨_, _, _, _, hbits'⟩
    · omega
    · rw [hbits, hbits']

/-- Whether the double is NaN or one of the infinities. -/
def IsNanOrInfinite (x : Float) : Prop := read x = .nan ∨ ∃ negative, read x = .infinite negative

/-- NaN and the infinities are all that cannot be written. -/
theorem json?_eq_none_iff (x : Float) : json? x = none ↔ IsNanOrInfinite x := by
  unfold json? IsNanOrInfinite
  split
  · next h => exact iff_of_true rfl (.inl h)
  · next negative h => exact iff_of_true rfl (.inr ⟨negative, h⟩)
  · next d h =>
    refine iff_of_false ?_ ?_
    · dsimp only
      split <;> exact Option.some_ne_none _
    · rw [h]
      rintro (hnan | ⟨_, hinfinite⟩)
      · cases hnan
      · cases hinfinite

/-- What the text of a number tells about it: its sign, and a fraction that rounds to it. -/
theorem exists_of_json? {x : Float} {t : Text} (h : json? x = some t) :
    ∃ d l r, read x = .finite d ∧ t = signed d.negative l ∧ Spells l r ∧
      (d.mantissa = 0 ∧ r = 0 ∨
        Canonical d.mantissa d.exponent ∧ Rounds d.mantissa d.exponent r) := by
  unfold json? at h
  split at h
  · cases h
  · cases h
  · next d hread =>
    dsimp only at h
    split at h
    · next hzero =>
      cases h
      exact ⟨d, ['0'], 0, hread, rfl, spells_zero, .inl ⟨hzero, rfl⟩⟩
    · next hpos =>
      cases h
      have hcanonical := canonical_of_read hread hpos
      refine ⟨d, _, (shortest d.mantissa d.exponent).value, hread, rfl, ?_,
        .inr ⟨hcanonical, rounds_shortest hcanonical.1 hcanonical.2.1⟩⟩
      split
      · exact Decimal.spells_scientific _ _
      · split
        · exact Decimal.spells_positional _
        · exact Decimal.spells_scientific _ _

/-- The sign and the digits can be told apart. -/
theorem signed_injective {n n' : Bool} {l l' : List Char} {r r' : ℚ} (hl : Spells l r)
    (hl' : Spells l' r') (h : signed n l = signed n' l') : n = n' ∧ l = l' := by
  have hchars := congrArg String.toList (Text.ofString_injective h)
  rw [String.toList_ofList, String.toList_ofList] at hchars
  have hminus : ∀ {l : List Char} {r : ℚ}, Spells l r → ∀ rest, l ≠ '-' :: rest := by
    rintro l r ⟨⟨c, hc, hdigit⟩, _, _⟩ rest rfl
    cases hc
    cases hdigit
  cases n <;> cases n' <;> simp only [Bool.false_eq_true, if_false, if_true] at hchars
  · exact ⟨rfl, hchars⟩
  · exact absurd hchars (hminus hl _)
  · exact absurd hchars.symm (hminus hl' _)
  · exact ⟨rfl, (List.cons.inj hchars).2⟩

theorem not_rounds_zero {m : Nat} {e : Int} (hm : 0 < m) : ¬ Rounds m e 0 := by
  intro h
  have hbelow : (below m e : ℚ) ≤ 2 := by exact_mod_cast (below_bounds m e).2
  have hone : (1 : ℚ) ≤ m := by exact_mod_cast hm
  have hpos : 0 < (m - below m e / 4 : ℚ) * 2 ^ e := mul_pos (by linarith) (by positivity)
  exact absurd h.low (not_le.2 hpos)

/-- **Different doubles are written differently.** -/
theorem json?_injective {x y : Float} {t : Text} (hx : json? x = some t) (hy : json? y = some t) :
    x = y := by
  obtain ⟨d, l, r, hread, rfl, hspells, hd⟩ := exists_of_json? hx
  obtain ⟨d', l', r', hread', htext, hspells', hd'⟩ := exists_of_json? hy
  obtain ⟨hsign, rfl⟩ := signed_injective hspells hspells' htext
  obtain rfl : r = r' := hspells.fraction.symm.trans hspells'.fraction
  have hsame : d.mantissa = d'.mantissa ∧ d.exponent = d'.exponent := by
    rcases hd with ⟨hzero, rfl⟩ | ⟨hcanonical, hrounds⟩
    · rcases hd' with ⟨hzero', _⟩ | ⟨hcanonical', hrounds'⟩
      · exact ⟨hzero.trans hzero'.symm, (exponent_of_zero hread hzero).trans
          (exponent_of_zero hread' hzero').symm⟩
      · exact absurd hrounds' (not_rounds_zero hcanonical'.1)
    · rcases hd' with ⟨_, rfl⟩ | ⟨hcanonical', hrounds'⟩
      · exact absurd hrounds (not_rounds_zero hcanonical.1)
      · exact hrounds.unique hrounds' hcanonical hcanonical'
  have hequal : d = d' := by
    cases d
    cases d'
    cases hsign
    cases hsame.1
    cases hsame.2
    rfl
  rw [← hequal] at hread'
  exact eq_of_read hread hread'

end Scriptorium.Number
