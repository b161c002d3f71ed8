/-
  Scriptorium.Proofs.Numbers.Whole: whole numbers are written with digits that stand for them.

  A whole number below `10 ^ 21` is printed as a run of digits, without sign, point or
  exponent.  The digits need not be those of its exact value: they are the fewest that lie in
  the interval of reals that round to it, with zeros behind them.  Read as a natural number,
  they round to it again.

  The search for the digits starts with one and ends, for such a number, before any decimal
  place is needed: either the number has at most seventeen digits itself, or seventeen are
  enough because its neighbours are further away than the last one counts.

  Main results:
    * `isSome_atLength`, `exists_shortest`: the shortest digits are whole, and in the interval.
    * `ofScientific_of_holds`: what lies in the interval of a double rounds to it.
    * `ofDigits_text`: printing a whole number and reading the digits gives it back.
-/

import Scriptorium.Number.Written
import Scriptorium.Proofs.Lexing.Layout
import Scriptorium.Proofs.Numbers.Rounding

namespace Scriptorium.Number

/-! ## §1. Runs of digits. -/

section Digits

variable {digits : List Char}

theorem isNumeral_ofList (hne : digits ≠ []) (h : ∀ c ∈ digits, c.isDigit = true) :
    Text.IsNumeral (Text.ofString (String.ofList digits)) := by
  have hsymbols : (Text.ofString (String.ofList digits)).symbols = digits.map .char := by
    rw [Text.symbols_ofString, String.toList_ofList]
  constructor
  · intro hempty
    rw [hempty, Text.symbols_nil] at hsymbols
    exact hne (List.map_eq_nil_iff.1 hsymbols.symm)
  · intro s hs
    rw [hsymbols] at hs
    obtain ⟨c, hc, rfl⟩ := List.mem_map.1 hs
    exact h c hc

/-- A digit is one byte. -/
theorem utf8EncodeChar_digit {c : Char} (hc : c.isDigit = true) :
    ∃ b : UInt8, String.utf8EncodeChar c = [b] ∧ b.toNat = c.toNat := by
  have hrange : 48 ≤ c.toNat ∧ c.toNat ≤ 57 := by
    simp only [Char.isDigit, Bool.and_eq_true, decide_eq_true_eq] at hc
    exact hc
  have hbyte : c.toNat.toUInt8.toNat = c.toNat := by
    rw [Nat.toUInt8_eq, UInt8.toNat_ofNat', Nat.mod_eq_of_lt (by omega)]
  have hascii : c.toNat.toUInt8 < 0x80 := by
    rw [UInt8.lt_iff_toNat_lt, hbyte]
    show c.toNat < 128
    omega
  have hencode := Text.utf8EncodeChar_of_ascii hascii
  rw [hbyte, Char.ofNat_toNat] at hencode
  exact ⟨_, hencode, hbyte⟩

theorem natOfDigits_ofList (h : ∀ c ∈ digits, c.isDigit = true) :
    natOfDigits (Text.ofString (String.ofList digits)) = Nat.ofDigitChars 10 digits 0 := by
  unfold natOfDigits Text.ofString
  rw [String.toList_ofList, Nat.ofDigitChars_eq_foldl]
  generalize 0 = init
  induction digits generalizing init with
  | nil => rfl
  | cons c rest ih =>
    obtain ⟨b, hb, hcode⟩ := utf8EncodeChar_digit (h c List.mem_cons_self)
    rw [List.flatMap_cons, hb, List.singleton_append, List.foldl_cons, List.foldl_cons, hcode]
    exact ih (fun c hc => h c (List.mem_cons_of_mem _ hc)) _

end Digits

/-- How large a number is that has so many digits. -/
theorem digitCount_bounds {n : Nat} (hn : n ≠ 0) :
    0 < digitCount n ∧ 10 ^ (digitCount n - 1) ≤ n ∧ n < 10 ^ digitCount n := by
  unfold digitCount
  rw [if_neg hn]
  have hpos : 0 < (Nat.toDigits 10 n).length := Nat.length_toDigits_pos
  refine ⟨hpos, ?_, (Nat.length_toDigits_le_iff (by decide) hpos).1 (Nat.le_refl _)⟩
  by_cases hone : (Nat.toDigits 10 n).length = 1
  · rw [hone]
    omega
  · have hfewer := Nat.length_toDigits_le_iff (b := 10) (n := n)
      (k := (Nat.toDigits 10 n).length - 1) (by decide) (by omega)
    omega

/-- Dropping zeros does not change the value. -/
theorem exists_strip (fuel digits exponent : Nat) :
    ∃ digits' exponent' : Nat, Decimal.strip fuel ⟨digits, exponent⟩ = ⟨digits', exponent'⟩ ∧
      digits' * 10 ^ exponent' = digits * 10 ^ exponent := by
  induction fuel generalizing digits exponent with
  | zero => exact ⟨digits, exponent, rfl, rfl⟩
  | succ fuel ih =>
    unfold Decimal.strip
    by_cases hzero : digits ≠ 0 ∧ digits % 10 = 0
    · obtain ⟨digits', exponent', hstrip, hvalue⟩ := ih (digits / 10) (exponent + 1)
      refine ⟨digits', exponent', ?_, ?_⟩
      · rw [if_pos hzero]
        exact hstrip
      · have hten : digits / 10 * 10 = digits := by omega
        rw [hvalue, Nat.pow_succ, Nat.mul_comm (10 ^ exponent) 10, ← Nat.mul_assoc, hten]
    · exact ⟨digits, exponent, if_neg hzero, rfl⟩

/-! ## §2. Whole decimals in an interval. -/

section Interval

variable {i : Interval} {n k : Nat} {d : Decimal}

/-- With no more digits than the number has, decimals are whole. -/
theorem atLength_eq (i : Interval) (hk : k ≤ n) :
    let up := 10 ^ (n - k)
    let floor := i.value / (i.denominator * up)
    let twice := 2 * (i.value - floor * (i.denominator * up))
    let unit := i.denominator * up
    i.atLength n k =
      if i.holds (floor * up) 1 && ((twice < unit || (twice = unit && floor % 2 = 0)) ||
        !i.holds ((floor + 1) * up) 1) then some ⟨floor, (n - k : Nat)⟩
      else if i.holds ((floor + 1) * up) 1 then some ⟨floor + 1, (n - k : Nat)⟩
      else none := by
  have hexponent : (n : Int) - k = (n - k : Nat) := by omega
  have hdown : (-((n - k : Nat) : Int)).toNat = 0 := by omega
  simp only [Interval.atLength, hexponent, Int.toNat_natCast, hdown, Nat.pow_eq, Nat.pow_zero,
    Nat.mul_one]

/-- A decimal that is found is in the interval. -/
theorem holds_of_atLength (hk : k ≤ n) (hd : i.atLength n k = some d) :
    ∃ digits : Nat, d = ⟨digits, (n - k : Nat)⟩ ∧ i.holds (digits * 10 ^ (n - k)) 1 = true := by
  rw [atLength_eq i hk] at hd
  split at hd
  · next hlow =>
    cases hd
    exact ⟨_, rfl, (Bool.and_eq_true _ _ ▸ hlow).1⟩
  · split at hd
    · next hhigh =>
      cases hd
      exact ⟨_, rfl, hhigh⟩
    · cases hd

/-- What is strictly inside is in the interval, whether its ends are or not. -/
theorem holds_of_lt {num : Nat} (hlow : i.low < num * i.denominator)
    (hhigh : num * i.denominator < i.high) : i.holds num 1 = true := by
  unfold Interval.holds
  simp only [Nat.mul_one]
  split
  · rw [Bool.and_eq_true, decide_eq_true_eq, decide_eq_true_eq]
    omega
  · rw [Bool.and_eq_true, decide_eq_true_eq, decide_eq_true_eq]
    omega

/-- One is found if the nearer one of the two neighbours is in the interval. -/
theorem isSome_atLength (hk : k ≤ n) (hden : 0 < i.denominator)
    (hin : i.low < i.value ∧ i.value < i.high)
    (hbelow : 2 * (i.value % (i.denominator * 10 ^ (n - k))) ≤ i.denominator * 10 ^ (n - k) →
      i.low + i.value % (i.denominator * 10 ^ (n - k)) < i.value)
    (habove : i.denominator * 10 ^ (n - k) < 2 * (i.value % (i.denominator * 10 ^ (n - k))) →
      i.value + i.denominator * 10 ^ (n - k) <
        i.high + i.value % (i.denominator * 10 ^ (n - k))) :
    (i.atLength n k).isSome = true := by
  rw [atLength_eq i hk]
  have hrest := Nat.mod_lt i.value
    (Nat.mul_pos hden (Nat.pow_pos (n := n - k) (show 0 < 10 by decide)))
  have hsplit := Nat.div_add_mod i.value (i.denominator * 10 ^ (n - k))
  have hscale : ∀ a : Nat, a * 10 ^ (n - k) * i.denominator = i.denominator * 10 ^ (n - k) * a := by
    intro a
    rw [Nat.mul_comm (i.denominator * _) a, Nat.mul_comm i.denominator, Nat.mul_assoc]
  generalize i.value / (i.denominator * 10 ^ (n - k)) = floor at *
  generalize i.value % (i.denominator * 10 ^ (n - k)) = rest at *
  have hnear : i.holds (floor * 10 ^ (n - k)) 1 = true ∨
      i.holds ((floor + 1) * 10 ^ (n - k)) 1 = true := by
    by_cases hhalf : 2 * rest ≤ i.denominator * 10 ^ (n - k)
    · left
      apply holds_of_lt
      · rw [hscale]
        have hlow := hbelow hhalf
        omega
      · rw [hscale]
        omega
    · right
      apply holds_of_lt
      · rw [hscale, Nat.mul_add, Nat.mul_one]
        omega
      · rw [hscale, Nat.mul_add, Nat.mul_one]
        have hhigh := habove (by omega)
        omega
  split
  · rfl
  · split
    · rfl
    · next hlow hhigh =>
      rw [Bool.not_eq_true] at hhigh
      rw [hhigh] at hlow hnear
      simp only [Bool.not_false, Bool.or_true, Bool.and_true] at hlow
      exact absurd (hnear.resolve_right (by decide)) hlow

end Interval

/-! ## §3. The shortest digits of a whole number. -/

/-- The search gives the first length at which something is found. -/
theorem exists_findSome?_range' {α : Type} {f : Nat → Option α} {top : Nat}
    (htop : 1 ≤ top ∧ top ≤ 17) (hfound : (f top).isSome = true) :
    ∃ k d, k ≤ top ∧ f k = some d ∧ (List.range' 1 17).findSome? f = some d := by
  have hsome : ((List.range' 1 17).findSome? f).isSome = true := by
    rw [List.findSome?_isSome_iff]
    exact ⟨top, List.mem_range'_1.2 (by omega), hfound⟩
  obtain ⟨d, hd⟩ := Option.isSome_iff_exists.1 hsome
  obtain ⟨before, k, after, hrange, hk, hnone⟩ := List.findSome?_eq_some_iff.1 hd
  obtain ⟨q, hq, rfl, hrest⟩ := List.range'_eq_append_iff.1 hrange
  refine ⟨k, d, ?_, hk, hd⟩
  -- what comes before the hit is one, two and so on, up to it
  have hfirst : k = 1 + q := by
    cases hlength : 17 - q with
    | zero =>
      rw [hlength] at hrest
      cases hrest
    | succ more =>
      rw [hlength, List.range'_succ] at hrest
      have hhead := (List.cons.inj hrest).1
      omega
  apply Nat.le_of_not_lt
  intro hlt
  have hmissed := hnone top (List.mem_range'_1.2 (by omega))
  rw [hmissed] at hfound
  cases hfound

/-- Whether the double with this mantissa and exponent is the natural number `whole`. -/
def Matches (m : Nat) (e : Int) (whole : Nat) : Prop :=
  m * 2 ^ e.toNat = whole * 2 ^ (-e).toNat

section Shortest

variable {m whole num : Nat} {e : Int}

/-- Nothing has to be added to a mantissa with a positive exponent. -/
theorem Matches.whole_eq (h : Matches m e whole) (he : (-e).toNat = 0) :
    m * 2 ^ e.toNat = whole := by
  unfold Matches at h
  rw [h, he, Nat.pow_zero, Nat.mul_one]

/-- How far the interval of a double goes down, in quarters of its last bit: less far from a
    power of two. -/
def below (m : Nat) (e : Int) : Nat := if m = 2 ^ 52 ∧ -1074 < e then 1 else 2

theorem below_bounds (m : Nat) (e : Int) : 0 < below m e ∧ below m e ≤ 2 := by
  unfold below
  split <;> omega

/-- The ends of the interval of a double. -/
theorem around_bounds (hm : 0 < m) (e : Int) :
    let i := Interval.around m e
    i.low + below m e * 2 ^ e.toNat = i.value ∧ i.value + 2 * 2 ^ e.toNat = i.high ∧
      i.value = 4 * (m * 2 ^ e.toNat) ∧ i.denominator = 4 * 2 ^ (-e).toNat := by
  obtain ⟨_, hbelow⟩ := below_bounds m e
  refine ⟨?_, ?_, Nat.mul_assoc _ _ _, rfl⟩
  · show (4 * m - below m e) * 2 ^ e.toNat + below m e * 2 ^ e.toNat = 4 * m * 2 ^ e.toNat
    rw [← Nat.add_mul, Nat.sub_add_cancel (by omega)]
  · exact (Nat.add_mul _ _ _).symm

theorem denominator_pos (m : Nat) (e : Int) : 0 < (Interval.around m e).denominator :=
  Nat.mul_pos (by decide) (Nat.two_pow_pos _)

/-- The value of the interval is the whole number, in units of the denominator. -/
theorem Matches.value_eq (h : Matches m e whole) :
    (Interval.around m e).value = whole * (Interval.around m e).denominator := by
  show 4 * m * 2 ^ e.toNat = whole * (4 * 2 ^ (-e).toNat)
  rw [Nat.mul_assoc, h, Nat.mul_left_comm]

/-- A number of more than seventeen digits has neighbours that are further away than the
    seventeenth digit counts. -/
theorem gap_of_large {u up : Nat} (e : Int) (hhigh : m < 2 ^ 53) (hu : 0 < u)
    (hlarge : 10 ^ 16 * u ≤ m * up) : 2 * u < below m e * up ∧ u < up := by
  unfold below
  split
  · next hleast =>
    rw [hleast.1] at hlarge
    omega
  · have hbound : m * up ≤ (2 ^ 53 - 1) * up := Nat.mul_le_mul_right up (by omega)
    omega

/-- Whole digits are found, with all of the number's own digits or with seventeen. -/
theorem isSome_atLength_whole (hlow : 2 ^ 52 ≤ m) (hhigh : m < 2 ^ 53)
    (hwhole : Matches m e whole) (hpos : whole ≠ 0) :
    ((Interval.around m e).atLength (digitCount whole) (min (digitCount whole) 17)).isSome =
      true := by
  obtain ⟨hcount, hfrom, _⟩ := digitCount_bounds hpos
  obtain ⟨hdown, hup, hvalue, hden⟩ := around_bounds (m := m) (by omega) e
  have hscale := Nat.two_pow_pos e.toNat
  have hgap : 0 < below m e * 2 ^ e.toNat := Nat.mul_pos (below_bounds m e).1 hscale
  have hdenpos := denominator_pos m e
  have hin : (Interval.around m e).low < (Interval.around m e).value ∧
      (Interval.around m e).value < (Interval.around m e).high := by omega
  by_cases hshort : digitCount whole ≤ 17
  · -- the number itself is found
    have hrest : (Interval.around m e).value %
        ((Interval.around m e).denominator * 10 ^ (digitCount whole - digitCount whole)) = 0 := by
      rw [Nat.sub_self, Nat.pow_zero, Nat.mul_one, hwhole.value_eq, Nat.mul_mod_left]
    rw [Nat.min_eq_left hshort]
    apply isSome_atLength (Nat.le_refl _) hdenpos hin
    · rw [hrest]
      omega
    · rw [hrest]
      omega
  · rw [Nat.min_eq_right (by omega)]
    have hten : 10 ^ 16 * 10 ^ (digitCount whole - 17) = 10 ^ (digitCount whole - 1) := by
      rw [← Nat.pow_add]
      congr 1
      omega
    have hupow : 0 < 10 ^ (digitCount whole - 17) := Nat.pow_pos (by decide)
    -- so large a number ends in zero bits
    have hexponent : (-e).toNat = 0 := by
      have hseventeen : 10 ^ 17 ≤ 10 ^ (digitCount whole - 1) :=
        Nat.pow_le_pow_right (by decide) (by omega)
      have hle : whole ≤ whole * 2 ^ (-e).toNat := Nat.le_mul_of_pos_right _ (Nat.two_pow_pos _)
      by_cases hneg : e < 0
      · have hm : m * 2 ^ e.toNat = m := by
          rw [show e.toNat = 0 by omega, Nat.pow_zero, Nat.mul_one]
        rw [← hwhole, hm] at hle
        omega
      · omega
    have hexact := hwhole.whole_eq hexponent
    rw [hexponent, Nat.pow_zero, Nat.mul_one] at hden
    have hlarge : 10 ^ 16 * 10 ^ (digitCount whole - 17) ≤ m * 2 ^ e.toNat := by
      rw [hten, hexact]
      exact hfrom
    obtain ⟨hlower, hupper⟩ := gap_of_large e hhigh hupow hlarge
    apply isSome_atLength (by omega) hdenpos hin
    · intro hhalf
      rw [hden] at hhalf ⊢
      omega
    · intro hhalf
      rw [hden] at hhalf ⊢
      omega

/-- The shortest digits of a whole number are whole and in its interval. -/
theorem exists_shortest (hlow : 2 ^ 52 ≤ m) (hhigh : m < 2 ^ 53) (hwhole : Matches m e whole)
    (hpos : whole ≠ 0) :
    ∃ digits exponent : Nat, shortest m e = ⟨digits, exponent⟩ ∧
      (Interval.around m e).holds (digits * 10 ^ exponent) 1 = true := by
  obtain ⟨hcount, _⟩ := digitCount_bounds hpos
  have htop : decimalExponent (Interval.around m e).value (Interval.around m e).denominator =
      digitCount whole := by
    unfold decimalExponent
    rw [hwhole.value_eq, if_pos (Nat.le_mul_of_pos_left _ (by omega)),
      Nat.mul_div_cancel _ (denominator_pos m e)]
  obtain ⟨k, d, hk, hd, hfirst⟩ :=
    exists_findSome?_range' (by omega) (isSome_atLength_whole hlow hhigh hwhole hpos)
  obtain ⟨digits, rfl, hholds⟩ := holds_of_atLength (by omega) hd
  obtain ⟨digits', exponent', hstrip, hsame⟩ := exists_strip 20 digits (digitCount whole - k)
  refine ⟨digits', exponent', ?_, by rw [hsame]; exact hholds⟩
  simp only [shortest, htop, hfirst]
  exact hstrip

/-! ## §4. What lies in the interval of a double rounds to it. -/

/-- The bounds of what lies in the interval; its ends do if the mantissa is even. -/
theorem bounds_of_holds_div {den : Nat} (h : (Interval.around m e).holds num den = true) :
    (Interval.around m e).low * den ≤ num * (Interval.around m e).denominator ∧
      num * (Interval.around m e).denominator ≤ (Interval.around m e).high * den ∧
      (m % 2 = 1 → (Interval.around m e).low * den ≠ num * (Interval.around m e).denominator ∧
        num * (Interval.around m e).denominator ≠ (Interval.around m e).high * den) := by
  have hclosed : (Interval.around m e).closed = decide (m % 2 = 0) := rfl
  unfold Interval.holds at h
  rw [hclosed] at h
  simp only [decide_eq_true_eq] at h
  split at h
  · next heven =>
    rw [Bool.and_eq_true, decide_eq_true_eq, decide_eq_true_eq] at h
    omega
  · rw [Bool.and_eq_true, decide_eq_true_eq, decide_eq_true_eq] at h
    omega

theorem bounds_of_holds (h : (Interval.around m e).holds num 1 = true) :
    (Interval.around m e).low ≤ num * (Interval.around m e).denominator ∧
      num * (Interval.around m e).denominator ≤ (Interval.around m e).high ∧
      (m % 2 = 1 → (Interval.around m e).low ≠ num * (Interval.around m e).denominator ∧
        num * (Interval.around m e).denominator ≠ (Interval.around m e).high) := by
  have hbounds := bounds_of_holds_div h
  rw [Nat.mul_one, Nat.mul_one] at hbounds
  exact hbounds

theorem pos_of_holds (hlow : 2 ^ 52 ≤ m) (h : (Interval.around m e).holds num 1 = true) :
    0 < num := by
  obtain ⟨hdown, _, hvalue, _⟩ := around_bounds (m := m) (by omega) e
  obtain ⟨hfrom, _, _⟩ := bounds_of_holds h
  have hbelow : below m e * 2 ^ e.toNat ≤ 2 * 2 ^ e.toNat :=
    Nat.mul_le_mul_right _ (below_bounds m e).2
  have hleast : 2 ^ 52 * 2 ^ e.toNat ≤ m * 2 ^ e.toNat := Nat.mul_le_mul_right _ hlow
  have hscale := Nat.two_pow_pos e.toNat
  apply Nat.pos_of_ne_zero
  rintro rfl
  rw [Nat.zero_mul] at hfrom
  omega

/-- A number whose last bit counts at most one is alone in its interval. -/
theorem eq_of_holds_small (hlow : 2 ^ 52 ≤ m) (he : e ≤ 0) (hwhole : Matches m e whole)
    (h : (Interval.around m e).holds num 1 = true) : num = whole := by
  obtain ⟨hdown, hup, hvalue, hden⟩ := around_bounds (m := m) (by omega) e
  obtain ⟨hfrom, hto, _⟩ := bounds_of_holds h
  have hscale : 2 ^ e.toNat = 1 := by
    rw [show e.toNat = 0 by omega, Nat.pow_zero]
  have hbelow := (below_bounds m e).2
  have htimes := hwhole.value_eq
  have hfour : 4 ≤ (Interval.around m e).denominator := by
    rw [hden]
    exact Nat.le_mul_of_pos_right 4 (Nat.two_pow_pos _)
  rw [hscale, Nat.mul_one] at hdown hup
  generalize (Interval.around m e).denominator = den at *
  apply Nat.le_antisymm
  · apply Nat.le_of_not_lt
    intro hlt
    have hmul : (whole + 1) * den ≤ num * den := Nat.mul_le_mul_right den hlt
    rw [Nat.add_mul] at hmul
    omega
  · apply Nat.le_of_not_lt
    intro hlt
    have hmul : (num + 1) * den ≤ whole * den := Nat.mul_le_mul_right den hlt
    rw [Nat.add_mul] at hmul
    omega

/-- The bounds of what lies in the interval of a number that ends in zero bits. -/
theorem bounds_of_holds_large {k : Nat} (hlow : 2 ^ 52 ≤ m)
    (h : (Interval.around m k).holds num 1 = true) :
    4 * (m * 2 ^ k) ≤ 4 * num + below m k * 2 ^ k ∧ 4 * num ≤ 4 * (m * 2 ^ k) + 2 * 2 ^ k ∧
      (m % 2 = 1 → 4 * (m * 2 ^ k) ≠ 4 * num + below m k * 2 ^ k ∧
        4 * num ≠ 4 * (m * 2 ^ k) + 2 * 2 ^ k) := by
  obtain ⟨hdown, hup, hvalue, hden⟩ := around_bounds (m := m) (by omega) k
  obtain ⟨hfrom, hto, hodd⟩ := bounds_of_holds h
  have hfour : (Interval.around m k).denominator = 4 := by
    rw [hden, show (-(k : Int)).toNat = 0 by omega, Nat.pow_zero]
  rw [hfour] at hfrom hto hodd
  rw [Int.toNat_natCast] at hdown hup hvalue
  omega

theorem log2_of_bounds {k : Nat} (hfrom : 2 ^ 52 * 2 ^ k ≤ num) (hto : num < 2 ^ 53 * 2 ^ k) :
    num.log2 = 52 + k := by
  have hscale := Nat.two_pow_pos k
  apply (Nat.log2_eq_iff (by omega)).2
  rw [show 52 + k + 1 = 53 + k by omega, Nat.pow_add, Nat.pow_add]
  exact ⟨hfrom, hto⟩

/-- The usual case: the number has as many bits as the double stands for. -/
theorem ofScientific_of_holds_above {k : Nat} (hlow : 2 ^ 52 ≤ m) (hhigh : m < 2 ^ 53) (hk : 0 < k)
    (h : (Interval.around m k).holds num 1 = true) (hnum : 2 ^ 52 * 2 ^ k ≤ num) :
    Float.ofScientific num false 0 = normal m k hlow := by
  obtain ⟨hfrom, hto, hodd⟩ := bounds_of_holds_large hlow h
  have hscale := Nat.two_pow_pos k
  have hbelow : below m k * 2 ^ k ≤ 2 * 2 ^ k := Nat.mul_le_mul_right _ (below_bounds m k).2
  have hmost : m * 2 ^ k ≤ (2 ^ 53 - 1) * 2 ^ k := Nat.mul_le_mul_right _ (by omega)
  have hlog : num.log2 = 52 + k := log2_of_bounds (by omega) (by omega)
  apply ofScientific_of_large hlow hhigh hlog hk
  apply roundDiv_eq (by omega) (by omega) _ hscale
  intro htie
  -- the ends round to the double only if its mantissa is even
  rcases Nat.mod_two_eq_zero_or_one m with heven | hmodd
  · exact heven
  · have htwo : below m k = 2 := by
      unfold below
      rw [if_neg (by omega)]
    have hends := hodd hmodd
    rw [htwo] at hends
    omega

/-- Below a power of two the number has one bit less, and is rounded up to it. -/
theorem ofScientific_of_holds_below {k : Nat} (hlow : 2 ^ 52 ≤ m)
    (h : (Interval.around m k).holds num 1 = true) (hnum : num < 2 ^ 52 * 2 ^ k) :
    Float.ofScientific num false 0 = normal m k hlow := by
  obtain ⟨hfrom, _, _⟩ := bounds_of_holds_large hlow h
  have hscale := Nat.two_pow_pos k
  have hbelow : below m k * 2 ^ k ≤ 2 * 2 ^ k := Nat.mul_le_mul_right _ (below_bounds m k).2
  obtain rfl : m = 2 ^ 52 := by
    apply Nat.le_antisymm _ hlow
    apply Nat.le_of_not_lt
    intro hlt
    have hmore : (2 ^ 52 + 1) * 2 ^ k ≤ m * 2 ^ k := Nat.mul_le_mul_right _ hlt
    omega
  have hone : below (2 ^ 52) k = 1 := by
    unfold below
    rw [if_pos (by omega)]
  rw [hone, Nat.one_mul] at hfrom
  -- the last bit counts more than one, or nothing is left below
  have hk : 2 ≤ k := by
    apply Nat.le_of_not_lt
    intro hlt
    have htwo : 2 ^ k ≤ 2 ^ 1 := Nat.pow_le_pow_right (by decide) (by omega)
    omega
  obtain ⟨k, rfl⟩ : ∃ k', k = k' + 1 := ⟨k - 1, by omega⟩
  rw [Nat.pow_succ] at hfrom hnum
  have hscale' := Nat.two_pow_pos k
  have hlog : num.log2 = 52 + k := log2_of_bounds (by omega) (by omega)
  have hround : roundDiv num (2 ^ k) = 2 ^ 53 := by
    apply roundDiv_eq (by omega) (by omega) _ hscale'
    intro _
    decide
  rw [ofScientific_of_carry hlog (by omega) hround]
  rfl

/-- What lies in the interval of a whole number is read as that number. -/
theorem ofScientific_of_holds (hlow : 2 ^ 52 ≤ m) (hhigh : m < 2 ^ 53)
    (hwhole : Matches m e whole) (h : (Interval.around m e).holds num 1 = true) :
    Float.ofScientific num false 0 = normal m e hlow := by
  by_cases he : e ≤ 0
  · have hnum := eq_of_holds_small hlow he hwhole h
    have hexact : num * 2 ^ (-e).toNat = m := by
      rw [hnum, ← hwhole, show e.toNat = 0 by omega, Nat.pow_zero, Nat.mul_one]
    have hneg : e = -((-e).toNat : Int) := by omega
    rw [ofScientific_of_small hlow hhigh hexact, ← hneg]
  · obtain ⟨k, rfl⟩ := Int.eq_ofNat_of_zero_le (show 0 ≤ e by omega)
    by_cases hnum : 2 ^ 52 * 2 ^ k ≤ num
    · exact ofScientific_of_holds_above hlow hhigh (by omega) h hnum
    · exact ofScientific_of_holds_below hlow h (Nat.lt_of_not_le hnum)

/-- No number in the interval reaches a power of ten that is a double itself, if the whole
    number does not. -/
theorem lt_of_holds (hlow : 2 ^ 52 ≤ m) (hhigh : m < 2 ^ 53) (hwhole : Matches m e whole)
    (hsmall : whole < 10 ^ 21) (h : (Interval.around m e).holds num 1 = true) : num < 10 ^ 21 := by
  by_cases he : e ≤ 0
  · rw [eq_of_holds_small hlow he hwhole h]
    exact hsmall
  · obtain ⟨k, rfl⟩ := Int.eq_ofNat_of_zero_le (show 0 ≤ e by omega)
    obtain ⟨_, hto, _⟩ := bounds_of_holds_large hlow h
    have hexact : m * 2 ^ k = whole := hwhole.whole_eq (by omega)
    have hleast : 2 ^ 52 * 2 ^ k ≤ m * 2 ^ k := Nat.mul_le_mul_right _ hlow
    have hmost : m * 2 ^ k ≤ (2 ^ 53 - 1) * 2 ^ k := Nat.mul_le_mul_right _ (by omega)
    have hk : k < 18 := by
      apply Nat.lt_of_not_le
      intro hle
      have hpow : 2 ^ 18 ≤ 2 ^ k := Nat.pow_le_pow_right (by decide) hle
      omega
    by_cases hlast : k = 17
    · subst hlast
      omega
    · have hpow : 2 ^ k ≤ 2 ^ 16 := Nat.pow_le_pow_right (by decide) (by omega)
      omega

/-- The digits of a whole number are written without an exponent. -/
theorem reaches_of_holds {digits exponent : Nat} (hlow : 2 ^ 52 ≤ m) (hhigh : m < 2 ^ 53)
    (hwhole : Matches m e whole) (hsmall : whole < 10 ^ 21)
    (h : (Interval.around m e).holds (digits * 10 ^ exponent) 1 = true) :
    (⟨digits, exponent⟩ : Decimal).reaches 21 = false := by
  have hless := lt_of_holds hlow hhigh hwhole hsmall h
  have hne : digits ≠ 0 := by
    rintro rfl
    have hnum := pos_of_holds hlow h
    omega
  obtain ⟨hcount, hfrom, _⟩ := digitCount_bounds hne
  unfold Decimal.reaches
  rw [decide_eq_false_iff_not]
  intro hlarge
  dsimp only at hlarge
  have hten : 10 ^ 21 ≤ 10 ^ (digitCount digits - 1) * 10 ^ exponent := by
    rw [← Nat.pow_add]
    exact Nat.pow_le_pow_right (by decide) (by omega)
  have hmul := Nat.mul_le_mul_right (10 ^ exponent) hfrom
  omega

end Shortest

/-! ## §5. Printing a whole number and reading it. -/

/-- Whether the number is zero or a positive whole number, and less than `10 ^ 21`. -/
def isNatural (x : Float) : Bool :=
  match read x with
  | .finite d => !d.negative && d.isWhole && decide (d.whole < 10 ^ 21)
  | _ => false

/-- The bits of a finite number. -/
theorem toBits_of_read {x : Float} {d : Dyadic} (hread : read x = .finite d) :
    let sign := if d.negative then 2 ^ 63 else 0
    (d.mantissa < 2 ^ 52 ∧ d.exponent = -1074 ∧ x.toBits.toNat = sign + d.mantissa) ∨
      (2 ^ 52 ≤ d.mantissa ∧ d.mantissa < 2 ^ 53 ∧ -1074 ≤ d.exponent ∧ d.exponent ≤ 971 ∧
        x.toBits.toNat =
          sign + ((d.exponent + 1075).toNat * 2 ^ 52 + (d.mantissa - 2 ^ 52))) := by
  have hword := x.toBits.toNat_lt
  simp only [read, Nat.pow_eq] at hread
  split at hread
  · split at hread <;> cases hread
  · split at hread
    · cases hread
      refine .inl ⟨Nat.mod_lt _ (by decide), rfl, ?_⟩
      by_cases hneg : 2 ^ 63 ≤ x.toBits.toNat
      · simp only [hneg, decide_true, if_true]
        omega
      · simp only [hneg, decide_false, Bool.false_eq_true, if_false]
        omega
    · cases hread
      right
      dsimp only
      by_cases hneg : 2 ^ 63 ≤ x.toBits.toNat
      · simp only [hneg, decide_true, if_true]
        omega
      · simp only [hneg, decide_false, Bool.false_eq_true, if_false]
        omega

theorem rest_of_isWhole {d : Dyadic} (h : d.isWhole = true) (he : d.exponent < 0) :
    d.mantissa % 2 ^ (-d.exponent).toNat = 0 := by
  unfold Dyadic.isWhole at h
  simp only [Bool.or_eq_true, decide_eq_true_eq, Nat.pow_eq] at h
  exact h.resolve_left (by omega)

theorem matches_whole {d : Dyadic} (h : d.isWhole = true) :
    Matches d.mantissa d.exponent d.whole := by
  unfold Matches Dyadic.whole
  simp only [Nat.pow_eq]
  by_cases he : 0 ≤ d.exponent
  · rw [if_pos he, show (-d.exponent).toNat = 0 by omega, Nat.pow_zero, Nat.mul_one]
  · rw [if_neg he, show d.exponent.toNat = 0 by omega, Nat.pow_zero, Nat.mul_one,
      Nat.div_mul_cancel (Nat.dvd_of_mod_eq_zero (rest_of_isWhole h (by omega)))]

/-- A natural number is zero, or a double of normal size that matches one. -/
theorem isNatural_cases {x : Float} (hx : isNatural x = true) :
    ∃ d, read x = .finite d ∧ d.negative = false ∧
      (d.mantissa = 0 ∧ x.toBits.toNat = 0 ∨
        ∃ hlow : 2 ^ 52 ≤ d.mantissa, d.mantissa < 2 ^ 53 ∧ x = normal d.mantissa d.exponent hlow ∧
          Matches d.mantissa d.exponent d.whole ∧ d.whole < 10 ^ 21 ∧ d.whole ≠ 0) := by
  unfold isNatural at hx
  split at hx
  · next d hread =>
    simp only [Bool.and_eq_true, Bool.not_eq_true', decide_eq_true_eq] at hx
    obtain ⟨⟨hsign, hwhole⟩, hsmall⟩ := hx
    refine ⟨d, hread, hsign, ?_⟩
    have hbits := toBits_of_read hread
    simp only [hsign, Bool.false_eq_true, if_false, Nat.zero_add] at hbits
    rcases hbits with ⟨hsub, hexponent, hbits⟩ | ⟨hlow, hhigh, hmin, hmax, hbits⟩
    · -- too small to be whole
      have hlarge : 2 ^ 52 ≤ 2 ^ (-d.exponent).toNat :=
        Nat.pow_le_pow_right (by decide) (by omega)
      have hrest : d.mantissa % 2 ^ (-d.exponent).toNat = 0 :=
        rest_of_isWhole hwhole (by omega)
      rw [Nat.mod_eq_of_lt (Nat.lt_of_lt_of_le hsub hlarge)] at hrest
      exact .inl ⟨hrest, hbits.trans hrest⟩
    · have hmatches := matches_whole hwhole
      have hpos : d.whole ≠ 0 := by
        intro hzero
        have hscale := Nat.two_pow_pos d.exponent.toNat
        unfold Matches at hmatches
        rw [hzero, Nat.zero_mul] at hmatches
        rcases Nat.mul_eq_zero.1 hmatches with h | h <;> omega
      refine .inr ⟨hlow, hhigh, float_eq_of_toBits ?_, hmatches, hsmall, hpos⟩
      exact hbits.trans (toBits_pack hlow hhigh hmin hmax _).symm
  · cases hx

/-- **The digits of a natural number stand for it.** -/
theorem ofDigits_text {x : Float} (hx : isNatural x = true) :
    (text x).IsNumeral ∧ ofDigits (text x) = x := by
  obtain ⟨d, hread, hsign, hcases⟩ := isNatural_cases hx
  rcases hcases with ⟨hzero, hbits⟩ | ⟨hlow, hhigh, hnormal, hwhole, hsmall, hpos⟩
  · have htext : text x = Text.ofString "0" := by
      simp only [text, hread, hzero, hsign]
      rfl
    rw [htext]
    refine ⟨isNumeral_ofList (show ['0'] ≠ [] by decide) (List.forall_mem_singleton.2 (by decide)),
      float_eq_of_toBits ?_⟩
    rw [hbits]
    rfl
  · obtain ⟨digits, exponent, hshortest, hholds⟩ := exists_shortest hlow hhigh hwhole hpos
    have hreaches := reaches_of_holds hlow hhigh hwhole hsmall hholds
    have htext : text x = Text.ofString (String.ofList
        (Nat.toDigits 10 digits ++ List.replicate exponent '0')) := by
      have hnonzero : d.mantissa ≠ 0 := by omega
      have hwholly : (0 : Int) ≤ exponent := Int.natCast_nonneg exponent
      simp only [text, hread, hsign, if_neg hnonzero, hshortest, hreaches, Decimal.positional,
        if_pos hwholly]
      rfl
    have hdigits : ∀ c ∈ Nat.toDigits 10 digits ++ List.replicate exponent '0',
        c.isDigit = true := by
      intro c hc
      rcases List.mem_append.1 hc with hc | hc
      · exact Nat.isDigit_of_mem_toDigits (by decide) (by decide) hc
      · rw [List.eq_of_mem_replicate hc]
        rfl
    have hvalue : natOfDigits (text x) = digits * 10 ^ exponent := by
      rw [htext, natOfDigits_ofList hdigits, Nat.ofDigitChars_append,
        Nat.ofDigitChars_ten_toDigits, Nat.ofDigitChars_replicate_zero, Nat.mul_comm]
    constructor
    · rw [htext]
      exact isNumeral_ofList (by simp) hdigits
    · unfold ofDigits
      rw [hvalue, ofScientific_of_holds hlow hhigh hwhole hholds, ← hnormal]

end Scriptorium.Number
