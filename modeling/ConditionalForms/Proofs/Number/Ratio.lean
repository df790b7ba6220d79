import ConditionalForms.Proofs.Number.Order
import Mathlib.Data.Int.Log
import Mathlib.Data.Rat.Floor
import Mathlib.Tactic.FieldSimp

/-!
# Rounding depends on the quotient alone

Rounding looks at a numerator and a denominator, yet two pairs with one quotient give one magnitude.
So every magnitude, written as any quotient, is rounded to itself, and a decimal may be read in any
of its spellings.

**Results.**
* `Magnitude.floorLog2_eq_log`: the estimated binary logarithm is the exact one.
* `Magnitude.ofRatio_mul`: a common factor does not matter.
* `Magnitude.ofRatio_eq_self`: a quotient that is a magnitude is rounded to it.
-/

namespace ConditionalForms

/-- The two powers of an exponent and its negation make up the power of the exponent. -/
theorem power_div_power (b : Nat) (e : Int) :
    (power b e : ℚ) / (power b (-e) : ℚ) = (b : ℚ) ^ e := by
  rcases Int.le_total 0 e with hpos | hneg
  · obtain ⟨k, rfl⟩ := Int.eq_ofNat_of_zero_le hpos
    rw [power_natCast, power_neg_natCast]
    simp
  · obtain ⟨k, hk⟩ := Int.eq_ofNat_of_zero_le (Int.neg_nonneg_of_nonpos hneg)
    obtain rfl : e = -(k : Int) := by omega
    rw [power_neg_natCast, Int.neg_neg, power_natCast]
    simp

namespace Magnitude

variable {n d : Nat}

theorem two_zpow_le_div_iff (hd : 0 < d) (k : Int) :
    (2 : ℚ) ^ k ≤ (n : ℚ) / d ↔ d * power 2 k ≤ n * power 2 (-k) := by
  have hpower : (0 : ℚ) < power 2 (-k) := by exact_mod_cast power_pos (-k)
  have hdpos : (0 : ℚ) < d := by exact_mod_cast hd
  have htwo := power_div_power 2 k
  rw [Nat.cast_ofNat] at htwo
  rw [← htwo, div_le_div_iff₀ hpower hdpos, mul_comm (power 2 k : ℚ)]
  exact_mod_cast Iff.rfl

theorem two_pow_log2_le (hn : n ≠ 0) : (2 : ℚ) ^ (n.log2 : Int) ≤ n := by
  exact_mod_cast Nat.log2_self_le hn

theorem lt_two_pow_log2 (n : Nat) : (n : ℚ) < 2 ^ ((n.log2 : Int) + 1) := by
  exact_mod_cast Nat.lt_log2_self (n := n)

theorem div_pos_of_ne_zero (hn : n ≠ 0) (hd : d ≠ 0) : (0 : ℚ) < (n : ℚ) / d :=
  div_pos (Nat.cast_pos.mpr (Nat.pos_of_ne_zero hn)) (Nat.cast_pos.mpr (Nat.pos_of_ne_zero hd))

/-- The difference of the logarithms of numerator and denominator is not too low. -/
theorem log_div_lt (hn : n ≠ 0) (hd : d ≠ 0) :
    Int.log 2 ((n : ℚ) / d) < (n.log2 : Int) - d.log2 + 1 := by
  have hdpos : (0 : ℚ) < d := by exact_mod_cast Nat.pos_of_ne_zero hd
  rw [← Int.lt_zpow_iff_log_lt (by decide) (div_pos_of_ne_zero hn hd), Nat.cast_ofNat,
    div_lt_iff₀ hdpos]
  calc (n : ℚ) < 2 ^ ((n.log2 : Int) + 1) := lt_two_pow_log2 n
    _ = 2 ^ ((n.log2 : Int) - d.log2 + 1) * 2 ^ (d.log2 : Int) := by
        rw [← zpow_add₀ two_ne_zero]
        congr 1
        omega
    _ ≤ 2 ^ ((n.log2 : Int) - d.log2 + 1) * d :=
        mul_le_mul_of_nonneg_left (two_pow_log2_le hd) (zpow_nonneg zero_le_two _)

/-- The difference of the logarithms of numerator and denominator is at most one too high. -/
theorem le_log_div (hn : n ≠ 0) (hd : d ≠ 0) :
    (n.log2 : Int) - d.log2 - 1 ≤ Int.log 2 ((n : ℚ) / d) := by
  have hdpos : (0 : ℚ) < d := by exact_mod_cast Nat.pos_of_ne_zero hd
  rw [← Int.zpow_le_iff_le_log (by decide) (div_pos_of_ne_zero hn hd), Nat.cast_ofNat,
    le_div_iff₀ hdpos]
  calc (2 : ℚ) ^ ((n.log2 : Int) - d.log2 - 1) * d
      ≤ 2 ^ ((n.log2 : Int) - d.log2 - 1) * 2 ^ ((d.log2 : Int) + 1) :=
        mul_le_mul_of_nonneg_left (lt_two_pow_log2 d).le (zpow_nonneg zero_le_two _)
    _ = 2 ^ (n.log2 : Int) := by
        rw [← zpow_add₀ two_ne_zero]
        congr 1
        omega
    _ ≤ n := two_pow_log2_le hn

/-- The estimated binary logarithm of a quotient is the exact one. -/
theorem floorLog2_eq_log (hn : n ≠ 0) (hd : d ≠ 0) :
    floorLog2 n d = Int.log 2 ((n : ℚ) / d) := by
  have hlow := log_div_lt hn hd
  have hhigh := le_log_div hn hd
  have hreach := Int.zpow_le_iff_le_log (b := 2) (by decide) (div_pos_of_ne_zero hn hd)
    (x := (n.log2 : Int) - d.log2)
  rw [Nat.cast_ofNat, two_zpow_le_div_iff (Nat.pos_of_ne_zero hd)] at hreach
  unfold floorLog2
  dsimp only
  split
  · rename_i hle
    have := hreach.mp hle
    omega
  · rename_i hlt
    have : ¬ (n.log2 : Int) - d.log2 ≤ Int.log 2 ((n : ℚ) / d) := fun h => hlt (hreach.mpr h)
    omega

theorem roundHalfEven_mul_mul {c : Nat} (hc : 0 < c) (n d : Nat) :
    roundHalfEven (n * c) (d * c) = roundHalfEven n d := by
  have hhalf : 2 * (n % d * c) = 2 * (n % d) * c := by rw [Nat.mul_assoc]
  simp only [roundHalfEven, Nat.mul_div_mul_right _ _ hc, Nat.mul_mod_mul_right, hhalf,
    Nat.mul_lt_mul_right hc]

/-- A common factor of numerator and denominator does not matter. -/
theorem ofRatio_mul {c : Nat} (hc : 0 < c) (hd : d ≠ 0) :
    ofRatio (n * c) (d * c) = ofRatio n d := by
  rcases Nat.eq_zero_or_pos n with rfl | hn
  · simp [ofRatio]
  have hn0 : n ≠ 0 := by omega
  have hnc : n * c ≠ 0 := Nat.mul_ne_zero hn0 (by omega)
  have hdc : d * c ≠ 0 := Nat.mul_ne_zero hd (by omega)
  have hquotient : ((n * c : Nat) : ℚ) / ((d * c : Nat) : ℚ) = (n : ℚ) / d := by
    have hcq : (c : ℚ) ≠ 0 := by exact_mod_cast (by omega : c ≠ 0)
    push_cast
    exact mul_div_mul_right _ _ hcq
  have hlog : floorLog2 (n * c) (d * c) = floorLog2 n d := by
    rw [floorLog2_eq_log hnc hdc, floorLog2_eq_log hn0 hd, hquotient]
  simp only [ofRatio, if_neg hn0, if_neg hnc, hlog]
  rw [Nat.mul_right_comm n c, Nat.mul_right_comm d c, roundHalfEven_mul_mul hc]

/-- Two quotients with one value are rounded to one magnitude. -/
theorem ofRatio_congr {m c : Nat} (hd : d ≠ 0) (hc : c ≠ 0) (h : n * c = m * d) :
    ofRatio n d = ofRatio m c := by
  rw [← ofRatio_mul (Nat.pos_of_ne_zero hc) hd, h, Nat.mul_comm d c,
    ofRatio_mul (Nat.pos_of_ne_zero hd) hc]

theorem significand_add_exponent_eq (r : Nat) :
    significand r + (exponent r + 1074).toNat * blockSize = r := by
  by_cases hr : r < blockSize
  · simp [significand, exponent, hr]
  · exact significand_add_exponent (Nat.le_of_not_lt hr)

theorem numerator_div_denominator (r : Nat) :
    (numerator r : ℚ) / denominator r = significand r * 2 ^ exponent r := by
  have htwo := power_div_power 2 (exponent r)
  rw [Nat.cast_ofNat] at htwo
  rw [← htwo, numerator, denominator, Nat.cast_mul, mul_div_assoc]

theorem quotient_pos {r : Nat} (hr : r ≠ 0) : (0 : ℚ) < (numerator r : ℚ) / denominator r :=
  div_pos_of_ne_zero ((numerator_pos_iff r).mp (Nat.pos_of_ne_zero hr)).ne' (denominator_pos r).ne'

/-- The exponent that rounding chooses for a magnitude is the one that the magnitude has. -/
theorem exponent_eq_log {r : Nat} (hr : r ≠ 0) :
    max (-1074) (Int.log 2 ((numerator r : ℚ) / denominator r) - 52) = exponent r := by
  have hpos := quotient_pos hr
  have hbase : ((2 : Nat) : ℚ) = 2 := by norm_num
  have hunit : (0 : ℚ) < 2 ^ exponent r := zpow_pos two_pos _
  have hupper : Int.log 2 ((numerator r : ℚ) / denominator r) < 53 + exponent r := by
    rw [← Int.lt_zpow_iff_log_lt (by decide) hpos, hbase, zpow_add₀ two_ne_zero,
      numerator_div_denominator]
    refine mul_lt_mul_of_pos_right ?_ hunit
    exact_mod_cast significand_lt r
  by_cases hsub : r < blockSize
  · -- a subnormal magnitude has the lowest exponent, whatever its logarithm is
    have hexp : exponent r = -1074 := by rw [exponent, if_pos hsub]
    omega
  · have hlower : 52 + exponent r ≤ Int.log 2 ((numerator r : ℚ) / denominator r) := by
      rw [← Int.zpow_le_iff_le_log (by decide) hpos, hbase, zpow_add₀ two_ne_zero,
        numerator_div_denominator]
      refine mul_le_mul_of_nonneg_right ?_ hunit.le
      exact_mod_cast (significand_bounds (Nat.le_of_not_lt hsub)).1
    have := neg_le_exponent r
    omega

/-- A magnitude is the nearest one to its own quotient. -/
theorem ofRatio_numerator_denominator (r : Nat) : ofRatio (numerator r) (denominator r) = r := by
  by_cases hzero : r = 0
  · subst hzero
    simp [ofRatio, numerator, significand]
  have hnum : numerator r ≠ 0 := ((numerator_pos_iff r).mp (Nat.pos_of_ne_zero hzero)).ne'
  have hrounded : roundHalfEven (numerator r * power 2 (-exponent r))
      (denominator r * power 2 (exponent r)) = significand r := by
    rw [numerator, denominator, Nat.mul_assoc, Nat.mul_comm (power 2 (exponent r))]
    exact roundHalfEven_mul _ (Nat.mul_pos (power_pos _) (power_pos _))
  rw [ofRatio, if_neg hnum, floorLog2_eq_log hnum (denominator_pos r).ne']
  simp only [exponent_eq_log hzero, hrounded]
  exact significand_add_exponent_eq r

/-- A quotient that is a magnitude is rounded to it. -/
theorem ofRatio_eq_self {r : Nat} (hd : d ≠ 0) (h : n * denominator r = numerator r * d) :
    ofRatio n d = r := by
  rw [ofRatio_congr hd (denominator_pos r).ne' h, ofRatio_numerator_denominator]

end Magnitude

end ConditionalForms
