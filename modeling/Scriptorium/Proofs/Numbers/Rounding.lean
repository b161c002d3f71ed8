/-
  Scriptorium.Proofs.Numbers.Rounding: natural numbers as doubles.

  A double of normal size has a mantissa of fifty-three bits and an exponent.  A natural
  number is read as the double that is nearest to it, and of two that are equally near as the
  one with the even mantissa.  The gap below a power of two is half of the one above it, so a
  number that is rounded up to it crosses into the next exponent.

  Main results:
    * `roundDiv_eq`: when a quotient rounds to a given number.
    * `roundedMantissa_shift`: dropping bits from a mantissa rounds a quotient.
    * `toBits_pack`, `unpack_pack`: the bits of a double of normal size.
    * `ofScientific_of_small`, `ofScientific_of_large`, `ofScientific_of_carry`: the double of a
      natural number that it holds exactly, and of one that is rounded.
    * `read_ofScientific`: it is finite, or infinite and positive.
-/

import Mathlib
import Scriptorium.Number.Digits
import Scriptorium.Number.Locale

namespace Scriptorium.Number

open Float.Model Float.Model.UnpackedFloat

/-! ## §1. Rounded quotients. -/

/-- A quotient rounds to a number if it is at most a half away, and the number is even where
    it is just that. -/
theorem roundDiv_eq {num den q : Nat} (hlow : 2 * (q * den) ≤ 2 * num + den)
    (hhigh : 2 * num ≤ 2 * (q * den) + den)
    (htie : 2 * (q * den) = 2 * num + den ∨ 2 * num = 2 * (q * den) + den → q % 2 = 0)
    (hden : 0 < den) : roundDiv num den = q := by
  have hsplit := Nat.div_add_mod num den
  have hrest := Nat.mod_lt num hden
  unfold roundDiv
  generalize num / den = whole at *
  generalize num % den = rest at *
  -- the number is the whole quotient or the next one
  have hle : q ≤ whole + 1 := by
    apply Nat.le_of_not_lt
    intro hgt
    have hmul : (whole + 2) * den ≤ q * den := Nat.mul_le_mul_right den (by omega)
    rw [Nat.add_mul, Nat.mul_comm whole den] at hmul
    omega
  have hge : whole ≤ q := by
    apply Nat.le_of_not_lt
    intro hlt
    have hmul : (q + 1) * den ≤ whole * den := Nat.mul_le_mul_right den (by omega)
    rw [Nat.add_mul, Nat.mul_comm whole den] at hmul
    omega
  by_cases hsame : q = whole
  · subst hsame
    rw [Nat.mul_comm q den] at hlow hhigh htie
    dsimp only
    split
    · rfl
    · split
      · omega
      · rw [if_pos (htie (by omega))]
  · obtain rfl : q = whole + 1 := by omega
    rw [Nat.add_mul, Nat.mul_comm whole den] at hlow hhigh htie
    dsimp only
    split
    · omega
    · split
      · rfl
      · have heven := htie (by omega)
        rw [if_neg (by omega)]

/-- A quotient may be reduced before it is rounded. -/
theorem roundDiv_mul_right (num den : Nat) {c : Nat} (hc : 0 < c) :
    roundDiv (num * c) (den * c) = roundDiv num den := by
  have hscaled : ∀ a b : Nat, 2 * (a * c) < b * c ↔ 2 * a < b := by
    intro a b
    rw [← Nat.mul_assoc]
    exact Nat.mul_lt_mul_right hc
  have hscaled' : ∀ a b : Nat, b * c < 2 * (a * c) ↔ b < 2 * a := by
    intro a b
    rw [← Nat.mul_assoc]
    exact Nat.mul_lt_mul_right hc
  unfold roundDiv
  rw [Nat.mul_div_mul_right num den hc, Nat.mul_mod_mul_right]
  simp only [hscaled, hscaled']

theorem roundDiv_mul_self (q : Nat) {den : Nat} (hden : 0 < den) : roundDiv (q * den) den = q := by
  apply roundDiv_eq _ _ _ hden <;> omega

/-! ## §2. Dropping bits. -/

/-- A mantissa without its last bits: the next bit and whether any bit is set after it are
    kept. -/
theorem shiftRight_eq (mantissa k : Nat) :
    (⟨mantissa, false, false⟩ : ExtendedMantissa) >>> (k + 1) =
      ⟨mantissa / 2 ^ (k + 1), mantissa / 2 ^ k % 2 != 0, mantissa % 2 ^ k != 0⟩ := by
  induction k with
  | zero =>
    show (⟨mantissa / 2, mantissa % 2 != 0, false || false⟩ : ExtendedMantissa) = _
    simp [Nat.mod_one]
  | succ k ih =>
    show ((⟨mantissa, false, false⟩ : ExtendedMantissa) >>> (k + 1)).shiftRightOne = _
    rw [ih]
    unfold ExtendedMantissa.shiftRightOne
    have hsticky : (mantissa / 2 ^ k % 2 != 0 || mantissa % 2 ^ k != 0) =
        (mantissa % 2 ^ (k + 1) != 0) := by
      rw [Nat.mod_pow_succ]
      have hpow : 0 < 2 ^ k := Nat.two_pow_pos k
      rcases Nat.mod_two_eq_zero_or_one (mantissa / 2 ^ k) with hbit | hbit
      · simp [hbit]
      · simp [hbit]
    rw [hsticky, Nat.div_div_eq_div_mul, ← Nat.pow_succ]

/-- Dropping bits rounds the quotient by their power of two. -/
theorem roundedMantissa_shift (mantissa k : Nat) :
    ((⟨mantissa, false, false⟩ : ExtendedMantissa) >>> (k + 1)).roundedMantissa =
      roundDiv mantissa (2 ^ (k + 1)) := by
  have hrest : mantissa % 2 ^ (k + 1) = mantissa % 2 ^ k + 2 ^ k * (mantissa / 2 ^ k % 2) :=
    Nat.mod_pow_succ
  have hlast : mantissa % 2 ^ k < 2 ^ k := Nat.mod_lt _ (Nat.two_pow_pos k)
  have hpow : 2 ^ (k + 1) = 2 * 2 ^ k := by rw [Nat.pow_succ, Nat.mul_comm]
  rw [shiftRight_eq]
  unfold ExtendedMantissa.roundedMantissa roundDiv
  generalize mantissa / 2 ^ (k + 1) = quotient at *
  rw [hrest, hpow]
  generalize mantissa % 2 ^ k = last at *
  generalize 2 ^ k = half at *
  dsimp only
  rcases Nat.mod_two_eq_zero_or_one (mantissa / half) with hbit | hbit
  · -- less than a half is dropped
    rw [hbit, Nat.mul_zero, Nat.add_zero, if_pos (by omega)]
    cases (last != 0) <;> rfl
  · rw [hbit, Nat.mul_one, if_neg (by omega)]
    by_cases hzero : last = 0
    · -- just a half: to the even one
      rw [if_neg (by omega), hzero]
      show quotient + quotient % 2 = _
      rcases Nat.mod_two_eq_zero_or_one quotient with heven | hodd
      · rw [if_pos heven, heven, Nat.add_zero]
      · rw [if_neg (by omega), hodd]
    · have hsticky : (last != 0) = true := bne_iff_ne.2 hzero
      rw [if_pos (by omega), hsticky]
      rfl

/-! ## §3. Rounding to a double. -/

/-- The bits beyond the exponent that a double has are dropped. -/
theorem shiftToTargetExponent_eq {mantissa amount : Nat} {exponent : Int}
    (h : Format.binary64.targetExponent (totalExponent mantissa exponent) = exponent + amount) :
    shiftToTargetExponent Format.binary64 mantissa exponent .exact =
      ((⟨mantissa, false, false⟩ : ExtendedMantissa) >>> amount, exponent + amount) := by
  have hamount : (exponent + amount - exponent).toNat = amount := by omega
  simp only [shiftToTargetExponent, shiftToExponent, h, hamount]
  rfl

/-- A mantissa of fifty-three bits stays as it is. -/
theorem shiftToTargetExponent_normal {m : Nat} {e : Int} (hlow : 2 ^ 52 ≤ m) (hhigh : m < 2 ^ 53)
    (he : -1074 ≤ e) :
    shiftToTargetExponent Format.binary64 m e .exact = (⟨m, false, false⟩, e) := by
  have hlog : m.log2 = 52 := (Nat.log2_eq_iff (by omega)).2 ⟨hlow, hhigh⟩
  have htarget : Format.binary64.targetExponent (totalExponent m e) = e + (0 : Nat) := by
    simp only [Format.targetExponent, totalExponent, Format.mantissaBits, Format.minExponent, hlog]
    omega
  rw [shiftToTargetExponent_eq htarget]
  simp only [Int.natCast_zero, Int.add_zero]
  rfl

/-- One of fifty-four bits, which rounding may lead to, loses its last one. -/
theorem shiftToTargetExponent_carry {e : Int} (he : -1074 ≤ e) :
    shiftToTargetExponent Format.binary64 (2 ^ 53) e .exact = (⟨2 ^ 52, false, false⟩, e + 1) := by
  have hlog : (2 ^ 53).log2 = 53 := Nat.log2_two_pow
  have htarget : Format.binary64.targetExponent (totalExponent (2 ^ 53) e) = e + (1 : Nat) := by
    simp only [Format.targetExponent, totalExponent, Format.mantissaBits, Format.minExponent, hlog]
    omega
  rw [shiftToTargetExponent_eq htarget, shiftRight_eq]
  rfl

section Round

variable {mantissa k m : Nat} {exponent : Int}

/-- A larger mantissa is cut by the bits that it has too many. -/
theorem shiftToTargetExponent_large (hlog : mantissa.log2 = 53 + k) (he : -1074 ≤ exponent) :
    shiftToTargetExponent Format.binary64 mantissa (exponent - (k + 1 : Nat)) .exact =
      ((⟨mantissa, false, false⟩ : ExtendedMantissa) >>> (k + 1), exponent) := by
  have htarget : Format.binary64.targetExponent
      (totalExponent mantissa (exponent - (k + 1 : Nat))) =
        exponent - (k + 1 : Nat) + (k + 1 : Nat) := by
    simp only [Format.targetExponent, totalExponent, Format.mantissaBits, Format.minExponent, hlog]
    omega
  rw [shiftToTargetExponent_eq htarget, Int.sub_add_cancel]

theorem roundWithAccuracy_eq (hlog : mantissa.log2 = 53 + k) (he : -1074 ≤ exponent)
    (hlow : 2 ^ 52 ≤ m) (hhigh : m < 2 ^ 53) (hround : roundDiv mantissa (2 ^ (k + 1)) = m) :
    roundWithAccuracy Format.binary64 .positive mantissa (exponent - (k + 1 : Nat)) .exact =
      .finite .positive m exponent (Nat.lt_of_lt_of_le (by decide) hlow) := by
  simp only [roundWithAccuracy, shiftToTargetExponent_large hlog he, roundedMantissa_shift, hround,
    shiftToTargetExponent_normal hlow hhigh he]
  exact dif_neg (by omega)

/-- Rounding up may lead to the least mantissa with the next exponent. -/
theorem roundWithAccuracy_carry (hlog : mantissa.log2 = 53 + k) (he : -1074 ≤ exponent)
    (hround : roundDiv mantissa (2 ^ (k + 1)) = 2 ^ 53) :
    roundWithAccuracy Format.binary64 .positive mantissa (exponent - (k + 1 : Nat)) .exact =
      .finite .positive (2 ^ 52) (exponent + 1) (by decide) := by
  simp only [roundWithAccuracy, shiftToTargetExponent_large hlog he, roundedMantissa_shift, hround,
    shiftToTargetExponent_carry he]
  exact dif_neg (by decide)

end Round

/-! ## §4. The bits of a double. -/

/-- A double is known by its bits. -/
theorem float_eq_of_toBits {x y : Float} (h : x.toBits.toNat = y.toBits.toNat) : x = y := by
  obtain ⟨⟨bits, hx⟩⟩ := x
  obtain ⟨⟨bits', hy⟩⟩ := y
  obtain rfl : bits = bits' := UInt64.toNat_inj.1 h
  rfl

/-- The exponent of a double of normal size fits into eleven bits. -/
theorem toNat_exponent {e : Int} (hmin : -1074 ≤ e) (hmax : e ≤ 971) :
    (BitVec.ofNat 11 (e + 1075).toNat).toNat = (e + 1075).toNat := by
  rw [BitVec.toNat_ofNat, Nat.mod_eq_of_lt (by omega)]

section Pack

variable {m : Nat} {e : Int} (hlow : 2 ^ 52 ≤ m) (hhigh : m < 2 ^ 53) (hmin : -1074 ≤ e)
  (hmax : e ≤ 971)

include hlow hhigh hmin hmax

/-- A mantissa of fifty-three bits is packed without its first one. -/
theorem pack_normal (hpos : 0 < m) :
    UnpackedFloat.pack Format.binary64 (.finite .positive m e hpos) =
      packComponents Format.binary64 .positive (BitVec.ofNat 11 (e + 1075).toNat)
        (BitVec.ofNat 52 m) := by
  have hlog : m.log2 = 52 := (Nat.log2_eq_iff (by omega)).2 ⟨hlow, hhigh⟩
  have hbiased : (e + Format.binary64.exponentBias +
      Format.binary64.mantissaBitsWithoutImplicit).toNat = (e + 1075).toNat := by
    have hbias : Format.binary64.exponentBias = 1023 := rfl
    rw [hbias]
    show (e + (1023 : Nat) + (52 : Nat)).toNat = _
    omega
  simp only [UnpackedFloat.pack, hlog, hbiased]
  rw [if_neg (by show ¬ 2 ^ 11 ≤ _; omega),
    if_pos (show 52 + 1 = Format.binary64.mantissaBits from rfl)]

theorem toBits_pack (hpos : 0 < m) :
    (Float.ofModel (Float.Model.pack (.finite .positive m e hpos))).toBits.toNat =
      (e + 1075).toNat * 2 ^ 52 + (m - 2 ^ 52) := by
  show (UnpackedFloat.pack Format.binary64 (.finite .positive m e hpos)).toNat = _
  rw [pack_normal hlow hhigh hmin hmax hpos]
  show (0#1 ++ BitVec.ofNat 11 (e + 1075).toNat ++ BitVec.ofNat 52 m).toNat = _
  have hexponent : (0#1 ++ BitVec.ofNat 11 (e + 1075).toNat).toNat = (e + 1075).toNat := by
    rw [BitVec.toNat_append, toNat_exponent hmin hmax]
    show 0 <<< 11 ||| _ = _
    rw [Nat.zero_shiftLeft, Nat.zero_or]
  have hmantissa : (BitVec.ofNat 52 m).toNat = m - 2 ^ 52 := by
    rw [BitVec.toNat_ofNat]
    omega
  rw [BitVec.toNat_append, ← Nat.shiftLeft_add_eq_or_of_lt (BitVec.isLt _), hexponent, hmantissa,
    Nat.shiftLeft_eq]

theorem unpack_pack (hpos : 0 < m) :
    (Float.Model.pack (.finite .positive m e hpos)).unpack = .finite .positive m e hpos := by
  show UnpackedFloat.unpack Format.binary64
    (UnpackedFloat.pack Format.binary64 (.finite .positive m e hpos)) = _
  rw [pack_normal hlow hhigh hmin hmax hpos]
  have hsign : unpackSign (packComponents Format.binary64 .positive
      (BitVec.ofNat 11 (e + 1075).toNat) (BitVec.ofNat 52 m)) = 0#1 := by
    show (0#1 ++ BitVec.ofNat 11 (e + 1075).toNat ++ BitVec.ofNat 52 m).extractLsb' 63 1 = 0#1
    rw [BitVec.extractLsb'_append_eq_of_le (by decide),
      BitVec.extractLsb'_append_eq_of_le (by decide)]
    rfl
  have hexponent := toNat_exponent hmin hmax
  have hfinite : BitVec.ofNat 11 (e + 1075).toNat ≠ -1#11 := by
    intro hall
    have hvalue : (e + 1075).toNat = 2047 := hexponent.symm.trans (congrArg BitVec.toNat hall)
    omega
  have hpositive : BitVec.ofNat 11 (e + 1075).toNat ≠ 0#11 := by
    intro hzero
    have hvalue : (e + 1075).toNat = 0 := hexponent.symm.trans (congrArg BitVec.toNat hzero)
    omega
  have hmantissa : (1#1 ++ BitVec.ofNat 52 m).toNat = m := by
    rw [BitVec.toNat_append, ← Nat.shiftLeft_add_eq_or_of_lt (BitVec.isLt _), BitVec.toNat_ofNat,
      Nat.shiftLeft_eq]
    show 1 * 2 ^ 52 + m % 2 ^ 52 = m
    omega
  have hbias : (e + 1075).toNat - ((Format.binary64.exponentBias : Int) + (52 : Nat)) = e := by
    show ((e + 1075).toNat : Int) - ((1023 : Nat) + (52 : Nat)) = e
    omega
  simp only [UnpackedFloat.unpack, unpackMantissa_packComponents, unpackExponent_packComponents,
    hsign, hexponent, hmantissa, hbias]
  rw [if_neg hfinite, if_neg hpositive]
  rfl

end Pack

/-! ## §5. The double of a natural number. -/

/-- The double with this mantissa and exponent, of normal size. -/
def normal (m : Nat) (e : Int) (hlow : 2 ^ 52 ≤ m) : Float :=
  .ofModel (.pack (.finite .positive m e (Nat.lt_of_lt_of_le (by decide) hlow)))

section OfNat

variable {m n k j : Nat}

theorem mul_finite {m₁ m₂ : Nat} {e₁ e₂ : Int} (h₁ : 0 < m₁) (h₂ : 0 < m₂) :
    UnpackedFloat.mul Format.binary64 (.finite .positive m₁ e₁ h₁) (.finite .positive m₂ e₂ h₂) =
      roundWithAccuracy Format.binary64 .positive (m₁ * m₂) (e₁ + e₂) .exact := rfl

theorem ne_zero_of_log2 (hn : n.log2 = 52 + k) : n ≠ 0 := by
  rintro rfl
  rw [Nat.log2_zero] at hn
  omega

/-- A number of more bits goes through rounding. -/
theorem ofScientific_eq_round (hn : n.log2 = 52 + k) (hk : 0 < k) :
    Float.ofScientific n false 0 = .ofModel (.pack (roundWithAccuracy Format.binary64 .positive
      (n * 2 ^ 53) ((k : Int) - (52 + k + 1 : Nat)) .exact)) := by
  have hne := ne_zero_of_log2 hn
  have hlarge : ¬ n < 2 ^ 53 := by
    intro hlt
    have hlog := (Nat.log2_lt hne).2 hlt
    omega
  unfold Float.ofScientific
  rw [dif_neg (fun h => hlarge h.1)]
  show Float.ofModel (.pack (UnpackedFloat.ofScientific Format.binary64 n 0)) = _
  unfold UnpackedFloat.ofScientific
  have hsmallest : ¬ (0 : Int) < -((2 ^ Format.binary64.exponentBits : Int) + n.log2) := by
    show ¬ (0 : Int) < -(2 ^ 11 + n.log2)
    omega
  have hlargest : ¬ (0 : Int) > 2 ^ Format.binary64.exponentBits := by
    show ¬ (0 : Int) > 2 ^ 11
    omega
  have hmantissa : n <<< Format.binary64.mantissaBits * 10 ^ (0 : Int).toNat = n * 2 ^ 53 := by
    rw [Nat.shiftLeft_eq]
    exact Nat.mul_one _
  have hexponent : -(Format.binary64.mantissaBits : Int) + 0 = k - (52 + k + 1 : Nat) := by
    show -((53 : Nat) : Int) + 0 = _
    omega
  rw [dif_neg hne, if_neg hlargest, if_neg hsmallest, if_pos (Int.le_refl 0), mul_finite, hmantissa,
    hexponent]

theorem log2_scaled (hn : n.log2 = 52 + k) : (n * 2 ^ 53).log2 = 53 + (52 + k) := by
  have hne := ne_zero_of_log2 hn
  obtain ⟨hlow, hhigh⟩ := (Nat.log2_eq_iff hne).1 hn
  apply (Nat.log2_eq_iff (by omega)).2
  rw [show 53 + (52 + k) = 52 + k + 53 by omega, show 52 + k + 53 + 1 = 52 + k + 1 + 53 by omega,
    Nat.pow_add 2 (52 + k) 53, Nat.pow_add 2 (52 + k + 1) 53]
  exact ⟨Nat.mul_le_mul_right _ hlow, Nat.mul_lt_mul_of_pos_right hhigh (by decide)⟩

theorem roundDiv_scaled (n k : Nat) :
    roundDiv (n * 2 ^ 53) (2 ^ (52 + k + 1)) = roundDiv n (2 ^ k) := by
  have hpow : 2 ^ (52 + k + 1) = 2 ^ k * 2 ^ 53 := by
    rw [← Nat.pow_add]
    congr 1
    omega
  rw [hpow, roundDiv_mul_right n (2 ^ k) (by decide)]

/-- A number of more bits is rounded to the double that is nearest. -/
theorem ofScientific_of_large (hlow : 2 ^ 52 ≤ m) (hhigh : m < 2 ^ 53) (hn : n.log2 = 52 + k)
    (hk : 0 < k) (hround : roundDiv n (2 ^ k) = m) :
    Float.ofScientific n false 0 = normal m k hlow := by
  rw [← roundDiv_scaled] at hround
  rw [ofScientific_eq_round hn hk,
    roundWithAccuracy_eq (log2_scaled hn) (by omega) hlow hhigh hround]
  rfl

/-- Perhaps that is the least one with the next exponent. -/
theorem ofScientific_of_carry (hn : n.log2 = 52 + k) (hk : 0 < k)
    (hround : roundDiv n (2 ^ k) = 2 ^ 53) :
    Float.ofScientific n false 0 = normal (2 ^ 52) (k + 1) (Nat.le_refl _) := by
  rw [← roundDiv_scaled] at hround
  rw [ofScientific_eq_round hn hk, roundWithAccuracy_carry (log2_scaled hn) (by omega) hround]
  rfl

/-- A number that fits into fifty-three bits with zeros behind it. -/
theorem log2_of_mul (hlow : 2 ^ 52 ≤ m) (hhigh : m < 2 ^ 53) (hj : n * 2 ^ j = m) :
    n ≠ 0 ∧ j ≤ 52 ∧ n.log2 = 52 - j := by
  have hpos : n ≠ 0 := by
    rintro rfl
    omega
  have hj52 : j < 53 := by
    apply (Nat.pow_lt_pow_iff_right (show 1 < 2 by decide)).1
    calc 2 ^ j ≤ n * 2 ^ j := Nat.le_mul_of_pos_left _ (by omega)
      _ = m := hj
      _ < 2 ^ 53 := hhigh
  refine ⟨hpos, by omega, (Nat.log2_eq_iff hpos).2 ⟨?_, ?_⟩⟩
  · apply Nat.le_of_mul_le_mul_right _ (Nat.two_pow_pos j)
    rw [← Nat.pow_add, hj, show 52 - j + j = 52 by omega]
    exact hlow
  · apply Nat.lt_of_mul_lt_mul_right (a := 2 ^ j)
    rw [← Nat.pow_add, hj, show 52 - j + 1 + j = 53 by omega]
    exact hhigh

/-- A number of fewer bits keeps them all. -/
theorem ofNat_eq (hlow : 2 ^ 52 ≤ m) (hhigh : m < 2 ^ 53) (hj : n * 2 ^ j = m) :
    UnpackedFloat.ofNat Format.binary64 n =
      .finite .positive m (-j) (Nat.lt_of_lt_of_le (by decide) hlow) := by
  obtain ⟨hpos, hj52, hlog⟩ := log2_of_mul hlow hhigh hj
  have hpositive : compare (n : Int) 0 = .gt := by
    rw [Int.compare_eq_gt]
    omega
  have htarget : Format.binary64.targetExponent (totalExponent n 0) = -j := by
    simp only [Format.targetExponent, totalExponent, Format.mantissaBits, Format.minExponent, hlog]
    omega
  have hdecreased : decreaseExponent n 0 (-j) = (m, -(j : Int)) := by
    have hamount : ((0 : Int) - -(j : Int)).toNat = j := by omega
    simp only [decreaseExponent, hamount, Nat.shiftLeft_eq, hj]
    rw [Int.zero_sub]
  unfold UnpackedFloat.ofNat UnpackedFloat.ofInt UnpackedFloat.normalize
  rw [hpositive]
  have hstays := shiftToTargetExponent_normal hlow hhigh (show (-1074 : Int) ≤ -(j : Int) by omega)
  have hrounded : (⟨m, false, false⟩ : ExtendedMantissa).roundedMantissa = m := rfl
  simp only [UnpackedFloat.round, Int.toNat_natCast, htarget, hdecreased, roundWithAccuracy, hstays,
    hrounded]
  exact dif_neg (by omega)

/-- A number of fewer bits is the double that has them in front. -/
theorem ofScientific_of_small (hlow : 2 ^ 52 ≤ m) (hhigh : m < 2 ^ 53) (hj : n * 2 ^ j = m) :
    Float.ofScientific n false 0 = normal m (-j) hlow := by
  have hn : n ≤ m := by
    rw [← hj]
    exact Nat.le_mul_of_pos_right n (Nat.two_pow_pos j)
  obtain ⟨hpos, hj52, _⟩ := log2_of_mul hlow hhigh hj
  -- the fast way: a word becomes a double, which is multiplied by one
  have hfast : Float.ofScientific n false 0 =
      n.toUInt64.toFloat * Float.ofBits 0x3FF0000000000000 := by
    unfold Float.ofScientific
    rw [dif_pos ⟨by omega, by decide⟩]
    rfl
  have hword : n.toUInt64.toFloat = normal m (-j) hlow := by
    have hnat : n.toUInt64.toNat = n := by
      rw [Nat.toUInt64_eq, UInt64.toNat_ofNat', Nat.mod_eq_of_lt (by omega)]
    show Float.ofModel (.pack (UnpackedFloat.ofNat Format.binary64 n.toUInt64.toNat)) = _
    rw [hnat, ofNat_eq hlow hhigh hj]
    rfl
  have hone : (Float.ofBits 0x3FF0000000000000).toModel.unpack =
      .finite .positive (2 ^ 52) (-52) (by decide) := by rfl
  rw [hfast, hword]
  show Float.ofModel (.pack (UnpackedFloat.mul Format.binary64
    (normal m (-j) hlow).toModel.unpack (Float.ofBits 0x3FF0000000000000).toModel.unpack)) = _
  rw [hone]
  unfold normal
  rw [unpack_pack hlow hhigh (by omega) (by omega)]
  have hlog : (m * 2 ^ 52).log2 = 53 + 51 := by
    apply (Nat.log2_eq_iff (by omega)).2
    omega
  rw [mul_finite, show (-j + -52 : Int) = -j - (51 + 1 : Nat) by omega,
    roundWithAccuracy_eq hlog (by omega) hlow hhigh (roundDiv_mul_self m (by decide))]

end OfNat

/-! ## §6. Digits that are too many. -/

/-- A rounded quotient is the whole one or the next. -/
theorem roundDiv_bounds (num den : Nat) :
    num / den ≤ roundDiv num den ∧ roundDiv num den ≤ num / den + 1 := by
  unfold roundDiv
  dsimp only
  split
  · omega
  · split
    · omega
    · split <;> omega

/-- A double of normal size is finite as long as its exponent is one of a double, and else
    infinite. -/
theorem read_normal {m : Nat} {e : Int} (hlow : 2 ^ 52 ≤ m) (hhigh : m < 2 ^ 53)
    (hmin : -1074 ≤ e) :
    (∃ d, read (normal m e hlow) = .finite d) ∨ read (normal m e hlow) = .infinite false := by
  by_cases hmax : e ≤ 971
  · left
    have hbits : (normal m e hlow).toBits.toNat =
        (e + 1075).toNat * 2 ^ 52 + (m - 2 ^ 52) := toBits_pack hlow hhigh hmin hmax _
    have hbiased : (normal m e hlow).toBits.toNat / 2 ^ 52 % 2048 = (e + 1075).toNat := by
      rw [hbits]
      omega
    simp only [read, Nat.pow_eq, hbiased]
    rw [if_neg (by omega), if_neg (by omega)]
    exact ⟨_, rfl⟩
  · right
    have hinfinite : normal m e hlow = .ofModel (.pack (.infinity .positive)) := by
      have hbiased : 2 ^ Format.binary64.exponentBits ≤ (e + Format.binary64.exponentBias +
          Format.binary64.mantissaBitsWithoutImplicit).toNat + 1 := by
        show 2 ^ 11 ≤ (e + (1023 : Nat) + (52 : Nat)).toNat + 1
        omega
      have hpack : ∀ hpos : 0 < m, UnpackedFloat.pack Format.binary64 (.finite .positive m e hpos) =
          UnpackedFloat.pack Format.binary64 (.infinity .positive) := fun _ => if_pos hbiased
      unfold normal Float.Model.pack
      simp only [hpack]
    rw [hinfinite]
    rfl

/-- A natural number is read as a finite double or, if it is too large, as infinite. -/
theorem read_ofScientific (n : Nat) :
    (∃ d, read (Float.ofScientific n false 0) = .finite d) ∨
      read (Float.ofScientific n false 0) = .infinite false := by
  by_cases hzero : n = 0
  · subst hzero
    exact .inl ⟨⟨false, 0, -1074⟩, rfl⟩
  · obtain ⟨hfrom, hto⟩ := (Nat.log2_eq_iff hzero).1 rfl
    by_cases hsmall : n.log2 ≤ 52
    · -- zeros behind it make it a mantissa
      have hlow : 2 ^ 52 ≤ n * 2 ^ (52 - n.log2) := by
        calc 2 ^ 52 = 2 ^ n.log2 * 2 ^ (52 - n.log2) := by
              rw [← Nat.pow_add, show n.log2 + (52 - n.log2) = 52 by omega]
          _ ≤ n * 2 ^ (52 - n.log2) := Nat.mul_le_mul_right _ hfrom
      have hhigh : n * 2 ^ (52 - n.log2) < 2 ^ 53 := by
        calc n * 2 ^ (52 - n.log2) < 2 ^ (n.log2 + 1) * 2 ^ (52 - n.log2) :=
              Nat.mul_lt_mul_of_pos_right hto (Nat.two_pow_pos _)
          _ = 2 ^ 53 := by rw [← Nat.pow_add, show n.log2 + 1 + (52 - n.log2) = 53 by omega]
      rw [ofScientific_of_small hlow hhigh rfl]
      exact read_normal hlow hhigh (by omega)
    · obtain ⟨k, hk⟩ : ∃ k, n.log2 = 52 + k := ⟨n.log2 - 52, by omega⟩
      rw [hk] at hfrom hto
      obtain ⟨hleast, hmost⟩ := roundDiv_bounds n (2 ^ k)
      have hwhole : 2 ^ 52 ≤ n / 2 ^ k ∧ n / 2 ^ k < 2 ^ 53 := by
        rw [Nat.le_div_iff_mul_le (Nat.two_pow_pos k), Nat.div_lt_iff_lt_mul (Nat.two_pow_pos k),
          ← Nat.pow_add, ← Nat.pow_add, show 53 + k = 52 + k + 1 by omega]
        exact ⟨hfrom, hto⟩
      by_cases hcarry : roundDiv n (2 ^ k) = 2 ^ 53
      · rw [ofScientific_of_carry hk (by omega) hcarry]
        exact read_normal _ (by decide) (by omega)
      · have hlow : 2 ^ 52 ≤ roundDiv n (2 ^ k) := by omega
        rw [ofScientific_of_large hlow (by omega) hk (by omega) rfl]
        exact read_normal _ (by omega) (by omega)

end Scriptorium.Number
