import ConditionalForms.Number.Shortest
import ConditionalForms.Proofs.Number.Ratio

/-!
# The shortest decimal reads back

A decimal is rounded by its value: how its digits and its scale share a power of ten does not
matter.  The shortest decimal of a magnitude is rounded to that magnitude, whether the search has
found it or the exact decimal was taken, and dropping zeros from its end keeps its value.

**Definitions.**
* `Decimal.value`: the number that a decimal stands for.

**Results.**
* `Decimal.rank_congr`: decimals of one value have one rank.
* `Decimal.rank_shortest`: the shortest decimal of a magnitude is rounded to it.
-/

namespace ConditionalForms
namespace Decimal

/-- The number that a decimal stands for. -/
def value (x : Decimal) : ℚ := x.digits * 10 ^ x.scale

variable {x y : Decimal}

theorem value_eq_zero_iff : x.value = 0 ↔ x.digits = 0 := by
  have hten : (10 : ℚ) ^ x.scale ≠ 0 := zpow_ne_zero _ (by norm_num)
  simp [value, hten]

theorem value_pos (h : x.digits ≠ 0) : 0 < x.value := by
  have hdigits : (0 : ℚ) < x.digits := by exact_mod_cast Nat.pos_of_ne_zero h
  exact mul_pos hdigits (zpow_pos (by norm_num) _)

theorem digitCount_bounds {n : Nat} (hn : n ≠ 0) :
    10 ^ (digitCount n - 1) ≤ n ∧ n < 10 ^ digitCount n := by
  have hpos : 0 < (Nat.toDigits 10 n).length := Nat.length_toDigits_pos
  rw [digitCount, if_neg hn]
  constructor
  · by_contra hlt
    rcases Nat.eq_zero_or_pos ((Nat.toDigits 10 n).length - 1) with hzero | hone
    · rw [hzero] at hlt
      omega
    · have := (Nat.length_toDigits_le_iff (by decide) hone).mpr (Nat.lt_of_not_le hlt)
      omega
  · exact (Nat.length_toDigits_le_iff (by decide) hpos).mp (Nat.le_refl _)

/-- The leading digit of a decimal stands at the exact decimal logarithm of its value. -/
theorem digitCount_add_scale (h : x.digits ≠ 0) :
    (digitCount x.digits : Int) + x.scale = Int.log 10 x.value + 1 := by
  have hpos := value_pos h
  have hbase : ((10 : Nat) : ℚ) = 10 := by norm_num
  have hscale : (0 : ℚ) < 10 ^ x.scale := zpow_pos (by norm_num) _
  have hcount : 1 ≤ digitCount x.digits := by
    rw [digitCount, if_neg h]
    exact Nat.length_toDigits_pos
  obtain ⟨hlow, hhigh⟩ := digitCount_bounds h
  have hreach : (digitCount x.digits : Int) - 1 + x.scale ≤ Int.log 10 x.value := by
    rw [← Int.zpow_le_iff_le_log (by decide) hpos, hbase, zpow_add₀ (by norm_num)]
    refine mul_le_mul_of_nonneg_right ?_ hscale.le
    rw [show (digitCount x.digits : Int) - 1 = ((digitCount x.digits - 1 : Nat) : Int) by omega]
    exact_mod_cast hlow
  have hbound : Int.log 10 x.value < (digitCount x.digits : Int) + x.scale := by
    rw [← Int.lt_zpow_iff_log_lt (by decide) hpos, hbase, zpow_add₀ (by norm_num)]
    refine mul_lt_mul_of_pos_right ?_ hscale
    exact_mod_cast hhigh
  omega

theorem power_ten_pos (e : Int) : power 10 e ≠ 0 := (Nat.pow_pos (by decide)).ne'

theorem value_eq_div (x : Decimal) :
    x.value = ((x.digits * power 10 x.scale : Nat) : ℚ) / (power 10 (-x.scale) : Nat) := by
  have hten := power_div_power 10 x.scale
  rw [Nat.cast_ofNat] at hten
  rw [value, ← hten, Nat.cast_mul, mul_div_assoc]

/-- The rank of a decimal whose leading digit stands in the range of doubles. -/
theorem rank_eq_ofRatio (h : x.digits ≠ 0) (hlow : -401 ≤ Int.log 10 x.value)
    (hhigh : Int.log 10 x.value ≤ 309) :
    x.rank = Magnitude.ofRatio (x.digits * power 10 x.scale) (power 10 (-x.scale)) := by
  simp only [rank, if_neg h, digitCount_add_scale h]
  rw [if_neg (by omega), if_neg (by omega)]

/-- Decimals of one value have one rank. -/
theorem rank_congr (h : x.value = y.value) : x.rank = y.rank := by
  by_cases hx : x.digits = 0
  · have hy : y.digits = 0 := by
      rwa [← value_eq_zero_iff, ← h, value_eq_zero_iff]
    simp [rank, hx, hy]
  have hy : y.digits ≠ 0 := by
    rwa [Ne, ← value_eq_zero_iff, ← h, value_eq_zero_iff]
  -- the rank is found from the place of the leading digit and from the quotient
  have hcross : x.digits * power 10 x.scale * power 10 (-y.scale) =
      y.digits * power 10 y.scale * power 10 (-x.scale) := by
    have hquotients := h
    rw [value_eq_div, value_eq_div, div_eq_div_iff (Nat.cast_ne_zero.mpr (power_ten_pos _))
      (Nat.cast_ne_zero.mpr (power_ten_pos _))] at hquotients
    exact_mod_cast hquotients
  simp only [rank, if_neg hx, if_neg hy, digitCount_add_scale hx, digitCount_add_scale hy, h,
    Magnitude.ofRatio_congr (power_ten_pos _) (power_ten_pos _) hcross]

theorem value_dropZeros (fuel : Nat) (x : Decimal) : (dropZeros fuel x).value = x.value := by
  induction fuel generalizing x with
  | zero => rfl
  | succ fuel ih =>
      rw [dropZeros]
      split
      · rename_i h
        rw [ih]
        obtain ⟨d, hd⟩ := Nat.dvd_of_mod_eq_zero h.2
        rw [value, value, hd, Nat.mul_div_cancel_left _ (by decide), zpow_add₀ (by norm_num)]
        push_cast
        ring
      · rfl

/-- The first of two decimals that reads back, if one of them does. -/
theorem rank_of_first {r : Nat} {y z : Decimal}
    (h : (if y.rank = r then some y else if z.rank = r then some z else none) = some x) :
    x.rank = r := by
  split at h
  · rename_i hfirst
    rwa [← Option.some.inj h]
  · split at h
    · rename_i hsecond
      rwa [← Option.some.inj h]
    · simp at h

theorem rank_of_onGrid? {r k : Nat} (h : onGrid? r k = some x) : x.rank = r := by
  simp only [onGrid?] at h
  exact rank_of_first h

theorem rank_of_search {r fuel k : Nat} (h : search r fuel k = some x) : x.rank = r := by
  induction fuel generalizing k with
  | zero =>
      rw [search.eq_def] at h
      exact nomatch h
  | succ fuel ih =>
      rw [search.eq_def] at h
      dsimp only at h
      split at h
      · rename_i y hy
        obtain rfl := Option.some.inj h
        exact rank_of_onGrid? hy
      · exact ih h

/-- The decimal that has exactly the value of a magnitude. -/
def exact (r : Nat) : Decimal :=
  ⟨Magnitude.numerator r * power 5 (-Magnitude.exponent r), min 0 (Magnitude.exponent r)⟩

theorem value_exact (r : Nat) :
    (exact r).value = (Magnitude.numerator r : ℚ) / Magnitude.denominator r := by
  unfold exact value Magnitude.denominator
  rcases Int.le_total 0 (Magnitude.exponent r) with hpos | hneg
  · rw [power_of_nonpos (b := 5) (by omega), power_of_nonpos (b := 2) (by omega),
      Int.min_eq_left hpos]
    simp
  · obtain ⟨k, hk⟩ := Int.eq_ofNat_of_zero_le (Int.neg_nonneg_of_nonpos hneg)
    have hexp : Magnitude.exponent r = -(k : Int) := by omega
    have hten : (10 : ℚ) ^ k = 5 ^ k * 2 ^ k := by rw [← mul_pow]; norm_num
    rw [Int.min_eq_right hneg, hexp, Int.neg_neg, power_natCast, power_natCast, zpow_neg,
      zpow_natCast, hten]
    push_cast
    field_simp

theorem two_pow_le_ten_pow (k : Nat) : 2 ^ (93 * k + 1) ≤ 10 ^ (28 * k + 1) := by
  have hblock : 2 ^ 93 ≤ 10 ^ 28 := by decide
  rw [Nat.pow_succ, Nat.pow_succ, Nat.pow_mul, Nat.pow_mul]
  exact Nat.mul_le_mul (Nat.pow_le_pow_left hblock k) (by decide)

theorem numerator_lt_ten_pow {r : Nat} (hr : r < magnitudeCount) :
    Magnitude.numerator r < 10 ^ (28 * 11 + 1) :=
  Nat.lt_of_lt_of_le (Magnitude.numerator_lt hr (by decide)) (two_pow_le_ten_pow 11)

theorem denominator_le_ten_pow (r : Nat) : Magnitude.denominator r ≤ 10 ^ (28 * 12 + 1) := by
  have hexp := Magnitude.neg_le_exponent r
  refine Nat.le_trans (Nat.pow_le_pow_right (by decide) ?_) (two_pow_le_ten_pow 12)
  omega

/-- The decimal logarithm of a magnitude is above those that are rounded to zero. -/
theorem neg_le_log_quotient {r : Nat} (h0 : r ≠ 0) :
    -401 ≤ Int.log 10 ((Magnitude.numerator r : ℚ) / Magnitude.denominator r) := by
  have hnum : (1 : ℚ) ≤ Magnitude.numerator r :=
    Nat.one_le_cast.mpr ((Magnitude.numerator_pos_iff r).mp (Nat.pos_of_ne_zero h0))
  have hden : (0 : ℚ) < Magnitude.denominator r := Nat.cast_pos.mpr (Magnitude.denominator_pos r)
  have hsmall := (Nat.cast_le (α := ℚ)).mpr (denominator_le_ten_pow r)
  have hreach : (-(28 * 12 + 1 : Nat) : Int) ≤
      Int.log 10 ((Magnitude.numerator r : ℚ) / Magnitude.denominator r) := by
    rw [← Int.zpow_le_iff_le_log (by decide) (Magnitude.quotient_pos h0), Nat.cast_ofNat,
      le_div_iff₀ hden]
    rw [Nat.cast_pow, Nat.cast_ofNat, ← zpow_natCast] at hsmall
    calc (10 : ℚ) ^ (-(28 * 12 + 1 : Nat) : Int) * Magnitude.denominator r
        ≤ 10 ^ (-(28 * 12 + 1 : Nat) : Int) * 10 ^ ((28 * 12 + 1 : Nat) : Int) :=
          mul_le_mul_of_nonneg_left hsmall (zpow_nonneg (by norm_num) _)
      _ = 1 := by rw [← zpow_add₀ (by norm_num), neg_add_cancel, zpow_zero]
      _ ≤ Magnitude.numerator r := hnum
  omega

/-- The decimal logarithm of a magnitude is below those that are too large for a double. -/
theorem log_quotient_le {r : Nat} (hr : r < magnitudeCount) (h0 : r ≠ 0) :
    Int.log 10 ((Magnitude.numerator r : ℚ) / Magnitude.denominator r) ≤ 309 := by
  have hden := Magnitude.denominator_pos r
  have hdenpos : (0 : ℚ) < Magnitude.denominator r := Nat.cast_pos.mpr hden
  have hlarge := (Nat.cast_lt (α := ℚ)).mpr (numerator_lt_ten_pow hr)
  have hbelow : Int.log 10 ((Magnitude.numerator r : ℚ) / Magnitude.denominator r) <
      ((28 * 11 + 1 : Nat) : Int) := by
    rw [← Int.lt_zpow_iff_log_lt (by decide) (Magnitude.quotient_pos h0), Nat.cast_ofNat,
      div_lt_iff₀ hdenpos]
    rw [Nat.cast_pow, Nat.cast_ofNat, ← zpow_natCast] at hlarge
    exact hlarge.trans_le
      (le_mul_of_one_le_right (zpow_nonneg (by norm_num) _) (Nat.one_le_cast.mpr hden))
  omega

theorem rank_exact {r : Nat} (hr : r < magnitudeCount) (h0 : r ≠ 0) : (exact r).rank = r := by
  have hvalue := value_exact r
  have hdigits : (exact r).digits ≠ 0 := by
    have hnum := (Magnitude.numerator_pos_iff r).mp (Nat.pos_of_ne_zero h0)
    exact Nat.mul_ne_zero hnum.ne' (Nat.pow_pos (by decide)).ne'
  have hlow := neg_le_log_quotient h0
  have hhigh := log_quotient_le hr h0
  rw [← hvalue] at hlow hhigh
  rw [rank_eq_ofRatio hdigits hlow hhigh]
  refine Magnitude.ofRatio_eq_self (power_ten_pos _) ?_
  rw [value_eq_div, div_eq_div_iff (Nat.cast_ne_zero.mpr (power_ten_pos _))
    (Nat.cast_ne_zero.mpr (Magnitude.denominator_pos r).ne')] at hvalue
  exact_mod_cast hvalue

/-- The shortest decimal of a magnitude is rounded to it. -/
theorem rank_shortest {r : Nat} (hr : r < magnitudeCount) : (shortest r).rank = r := by
  by_cases h0 : r = 0
  · subst h0
    rfl
  rw [shortest, if_neg h0, rank_congr (value_dropZeros _ _)]
  cases h : search r 17 0 with
  | some x => exact rank_of_search h
  | none => exact rank_exact hr h0

end Decimal
end ConditionalForms
