import ConditionalForms.Number.Integer
import ConditionalForms.Proofs.Sequence
import Mathlib.Algebra.Group.Nat.Defs

/-!
# Integers that doubles hold exactly

An integer is converted to a double by rounding its size to the nearest magnitude.  A magnitude
that is a whole number is the nearest one to itself, so nothing is lost on integers that some double
holds; among them are all integers up to `2 ^ 53` in size.

**Definitions.**
* `Integer.IsExact`: the double nearest to the integer is that integer.

**Results.**
* `Magnitude.ofRatio_of_whole`: rounding the value of a whole magnitude gives that magnitude.
* `Integer.isExact_of_integer?`: the value of every whole double is exact.
* `Integer.isExact_of_natAbs_le`: so is every integer of size at most `2 ^ 53`.
* `Integer.isExact_of_truncate?`: so is the integer part of every double.
* `Double.natAbs_lt_of_integer?`: a whole double has less than `2 ^ 1024` in size.
-/

namespace ConditionalForms

theorem power_natCast (b k : Nat) : power b k = b ^ k := by
  simp [power]

theorem power_neg_natCast (b k : Nat) : power b (-(k : Int)) = 1 := by
  have h : (-(k : Int)).toNat = 0 := by omega
  simp [power, h]

namespace Magnitude

theorem power_pos (e : Int) : 0 < power 2 e := Nat.pow_pos (by decide)

theorem blockSize_le_power {e : Int} (h : 52 ≤ e) : blockSize ≤ power 2 e := by
  show 2 ^ 52 ≤ 2 ^ e.toNat
  exact Nat.pow_le_pow_right (by decide) (by omega)

theorem denominator_pos (r : Nat) : 0 < denominator r := power_pos _

/-- The block and the place in the block make up a rank. -/
theorem significand_add_mul {m k : Nat} (hlow : blockSize ≤ m) (hhigh : m < 2 * blockSize) :
    significand (m + k * blockSize) = m := by
  have hge : ¬ m + k * blockSize < blockSize := by omega
  have hmod : (m + k * blockSize) % blockSize = m - blockSize := by
    rw [Nat.add_mul_mod_self_right, Nat.mod_eq_sub_mod hlow, Nat.mod_eq_of_lt (by omega)]
  rw [significand, if_neg hge, hmod]
  omega

theorem exponent_add_mul {m k : Nat} (hlow : blockSize ≤ m) (hhigh : m < 2 * blockSize) :
    exponent (m + k * blockSize) = (k : Int) - 1074 := by
  have hge : ¬ m + k * blockSize < blockSize := by omega
  have hdiv : (m + k * blockSize) / blockSize = k + 1 := by
    rw [Nat.add_mul_div_right _ _ (by decide), Nat.div_eq_of_lt_le (k := 1) (by omega) (by omega)]
    omega
  rw [exponent, if_neg hge, hdiv]
  omega

theorem significand_bounds {r : Nat} (h : blockSize ≤ r) :
    blockSize ≤ significand r ∧ significand r < 2 * blockSize := by
  have hmod : r % blockSize < blockSize := Nat.mod_lt _ (by decide)
  rw [significand, if_neg (by omega)]
  omega

theorem significand_add_exponent {r : Nat} (h : blockSize ≤ r) :
    significand r + (exponent r + 1074).toNat * blockSize = r := by
  have hdiv : 1 ≤ r / blockSize := Nat.div_pos h (by decide)
  have hsplit := Nat.div_add_mod r blockSize
  have hexp : (exponent r + 1074).toNat = r / blockSize - 1 := by
    rw [exponent, if_neg (by omega)]
    omega
  have hblock := Nat.le_mul_of_pos_right blockSize hdiv
  rw [hexp, significand, if_neg (by omega), Nat.sub_mul, Nat.mul_comm (r / blockSize)]
  omega

theorem roundHalfEven_mul (n : Nat) {d : Nat} (hd : 0 < d) : roundHalfEven (n * d) d = n := by
  simp [roundHalfEven, Nat.mul_div_cancel n hd, hd]

theorem floorLog2_one {n : Nat} (h : n ≠ 0) : floorLog2 n 1 = n.log2 := by
  have hlog : (1 : Nat).log2 = 0 := by decide
  have hle : 1 * power 2 (n.log2 : Int) ≤ n * power 2 (-(n.log2 : Int)) := by
    rw [power_natCast, power_neg_natCast]
    have := Nat.log2_self_le h
    omega
  have hsub : (n.log2 : Int) - ((1 : Nat).log2 : Int) = n.log2 := by omega
  simp only [floorLog2, hsub, if_pos hle]

theorem log2_mul_two_pow {m a k : Nat} (hlow : 2 ^ a ≤ m) (hhigh : m < 2 ^ (a + 1)) :
    (m * 2 ^ k).log2 = a + k := by
  have hpow : 0 < 2 ^ k := Nat.two_pow_pos k
  have hm : 0 < m := Nat.lt_of_lt_of_le (Nat.two_pow_pos a) hlow
  rw [Nat.log2_eq_iff (Nat.mul_ne_zero (by omega) (by omega))]
  constructor
  · rw [Nat.pow_add]
    exact Nat.mul_le_mul_right _ hlow
  · rw [Nat.add_right_comm, Nat.pow_add]
    exact Nat.mul_lt_mul_of_pos_right hhigh hpow

/-- Rounding a whole number whose binary digits fit into a significand changes nothing. -/
theorem ofRatio_of_significand {n m : Nat} {e : Int} (hlow : blockSize ≤ m)
    (hhigh : m < 2 * blockSize) (he : -1074 ≤ e)
    (h : m * power 2 e = n * power 2 (-e)) :
    ofRatio n 1 = m + (e + 1074).toNat * blockSize := by
  have hm : 0 < m * power 2 e := Nat.mul_pos (by simp only [blockSize] at hlow; omega) (power_pos e)
  have hn : n ≠ 0 := by
    rintro rfl
    omega
  have hlog : (n.log2 : Int) = e + 52 := by
    rcases Int.le_total 0 e with hpos | hneg
    · obtain ⟨k, rfl⟩ := Int.eq_ofNat_of_zero_le hpos
      rw [power_natCast, power_neg_natCast, Nat.mul_one] at h
      rw [← h, log2_mul_two_pow (a := 52) hlow hhigh]
      omega
    · obtain ⟨k, hk⟩ := Int.eq_ofNat_of_zero_le (Int.neg_nonneg_of_nonpos hneg)
      obtain rfl : e = -(k : Int) := by omega
      rw [power_neg_natCast, Int.neg_neg, power_natCast, Nat.mul_one] at h
      have hk : (n * 2 ^ k).log2 = n.log2 + k :=
        log2_mul_two_pow (Nat.log2_self_le hn) Nat.lt_log2_self
      have hk' : (m * 2 ^ 0).log2 = 52 + 0 := log2_mul_two_pow (a := 52) hlow hhigh
      rw [Nat.pow_zero, Nat.mul_one, h] at hk'
      omega
  have hmax : max (-1074) (floorLog2 n 1 - 52) = e := by
    rw [floorLog2_one hn]
    omega
  rw [ofRatio, if_neg hn]
  simp only [hmax, ← h, Nat.one_mul]
  rw [roundHalfEven_mul m (power_pos e)]

/-- A whole magnitude is the one nearest to its own value. -/
theorem ofRatio_of_whole {r n : Nat} (h : numerator r = n * denominator r) :
    ofRatio n 1 = r := by
  by_cases hr : r < blockSize
  · -- a subnormal magnitude is whole only if it is zero
    have hnum : numerator r = r := by
      rw [numerator, significand, exponent, if_pos hr, if_pos hr]
      exact Nat.mul_one r
    have hden : blockSize ≤ denominator r := by
      rw [denominator, exponent, if_pos hr]
      exact blockSize_le_power (by decide)
    rw [hnum] at h
    have hn : n = 0 := by
      rcases Nat.eq_zero_or_pos n with hn | hn
      · exact hn
      · have := Nat.le_mul_of_pos_left (denominator r) hn
        omega
    rw [h, hn]
    simp [ofRatio]
  · obtain ⟨hlow, hhigh⟩ := significand_bounds (Nat.le_of_not_lt hr)
    have he : -1074 ≤ exponent r := by
      rw [exponent, if_neg hr]
      have : 1 ≤ r / blockSize := Nat.div_pos (Nat.le_of_not_lt hr) (by decide)
      omega
    rw [ofRatio_of_significand hlow hhigh he h]
    exact significand_add_exponent (Nat.le_of_not_lt hr)

theorem significand_lt (r : Nat) : significand r < 2 ^ 53 := by
  have hblock : blockSize = 2 ^ 52 := rfl
  by_cases hr : r < blockSize
  · rw [significand, if_pos hr]
    omega
  · have := (significand_bounds (Nat.le_of_not_lt hr)).2
    omega

theorem numerator_lt {r b : Nat} (h : r < magnitudeCount) (hb : 1024 ≤ b) :
    numerator r < 2 ^ b := by
  have hexp : (exponent r).toNat ≤ 971 := by
    have : r / blockSize < 2047 := Nat.div_lt_of_lt_mul (by rwa [Nat.mul_comm])
    rw [exponent]
    split <;> omega
  calc numerator r < 2 ^ 53 * power 2 (exponent r) :=
        Nat.mul_lt_mul_of_pos_right (significand_lt r) (power_pos _)
    _ = 2 ^ (53 + (exponent r).toNat) := (Nat.pow_add 2 53 _).symm
    _ ≤ 2 ^ b := Nat.pow_le_pow_right (by decide) (by omega)

/-- Every natural number up to `2 ^ 53` is a finite magnitude. -/
theorem exists_rank {n : Nat} (h : n ≤ 2 ^ 53) :
    ∃ r, r < magnitudeCount ∧ numerator r = n * denominator r := by
  rcases Nat.eq_zero_or_pos n with rfl | hpos
  · exact ⟨0, by decide, by simp [numerator, significand]⟩
  rcases Nat.lt_or_eq_of_le h with hlt | rfl
  · have hlog : n.log2 < 53 := (Nat.log2_lt (by omega)).mpr hlt
    obtain ⟨t, ht⟩ : ∃ t, n.log2 + t = 52 := ⟨52 - n.log2, by omega⟩
    have hlow : blockSize ≤ n * 2 ^ t := by
      have := Nat.mul_le_mul_right (2 ^ t) (Nat.log2_self_le (n := n) (by omega))
      rwa [← Nat.pow_add, ht] at this
    have hhigh : n * 2 ^ t < 2 * blockSize := by
      have := Nat.mul_lt_mul_of_pos_right (Nat.lt_log2_self (n := n)) (Nat.two_pow_pos t)
      rwa [← Nat.pow_add, show n.log2 + 1 + t = 53 by omega] at this
    have he : exponent (n * 2 ^ t + (1074 - t) * blockSize) = -(t : Int) := by
      rw [exponent_add_mul hlow hhigh]
      omega
    refine ⟨n * 2 ^ t + (1074 - t) * blockSize, ?_, ?_⟩
    · simp only [magnitudeCount]
      have := Nat.mul_le_mul_right blockSize (show 1074 - t ≤ 1074 by omega)
      omega
    · rw [numerator, denominator, significand_add_mul hlow hhigh, he, power_neg_natCast,
        Int.neg_neg, power_natCast, Nat.mul_one]
  · exact ⟨1076 * blockSize, by decide, by decide⟩

end Magnitude

namespace Double

theorem signed_mul (negative : Bool) (n d : Nat) :
    signed negative (n * d) = signed negative n * (d : Int) := by
  cases negative with
  | false => exact Int.natCast_mul n d
  | true =>
      show -((n * d : Nat) : Int) = -(n : Int) * d
      rw [Int.natCast_mul, Int.neg_mul]

theorem natAbs_signed (negative : Bool) (n : Nat) : (signed negative n).natAbs = n := by
  cases negative <;> simp [signed]

theorem integer?_finite {negative : Bool} {r : Fin magnitudeCount} {n : Nat}
    (h : Magnitude.numerator r = n * Magnitude.denominator r) :
    (Double.finite negative r).integer? = some (signed negative n) := by
  have hden : ((Magnitude.denominator r : Nat) : Int) ≠ 0 := by
    have := Magnitude.denominator_pos r
    omega
  have hnum : signed negative (Magnitude.numerator r) =
      signed negative n * (Magnitude.denominator r : Nat) := by
    rw [h, signed_mul]
  simp [integer?, ratio?, hnum, Int.mul_ediv_cancel _ hden]

/-- A whole double is finite, and its rank and its value have the same size. -/
theorem exists_of_integer? {x : Double} {n : Int} (h : x.integer? = some n) :
    ∃ negative r, x = .finite negative r ∧ n = signed negative n.natAbs ∧
      Magnitude.numerator r = n.natAbs * Magnitude.denominator r := by
  cases x with
  | nan => simp [integer?, ratio?] at h
  | infinite negative => simp [integer?, ratio?] at h
  | finite negative r =>
      have hden := Magnitude.denominator_pos r
      simp only [integer?, ratio?] at h
      split at h
      · rename_i hmod
        simp only [Option.some.injEq] at h
        obtain ⟨q, hq⟩ := Int.dvd_of_emod_eq_zero hmod
        have hn : n = q := by
          rw [← h, hq, Int.mul_ediv_cancel_left _ (by omega)]
        subst hn
        refine ⟨negative, r, rfl, ?_, ?_⟩
        · cases negative with
          | false =>
              have : 0 ≤ n := by
                rw [← h]
                exact Int.ediv_nonneg (by simp [signed]) (by omega)
              simp only [signed, Bool.false_eq_true, if_false]
              omega
          | true =>
              have : n ≤ 0 := by
                refine Int.not_lt.mp fun hpos => ?_
                have : 0 < (Magnitude.denominator r : Int) * n := Int.mul_pos (by omega) hpos
                simp only [signed, if_true] at hq
                omega
              simp only [signed, if_true]
              omega
        · rw [← natAbs_signed negative (Magnitude.numerator r), hq, Int.natAbs_mul,
            Int.natAbs_natCast, Nat.mul_comm]
      · simp at h

theorem natAbs_lt_of_integer? {x : Double} {n : Int} {b : Nat} (h : x.integer? = some n)
    (hb : 1024 ≤ b) : n.natAbs < 2 ^ b := by
  obtain ⟨negative, r, -, -, hr⟩ := exists_of_integer? h
  calc n.natAbs ≤ n.natAbs * Magnitude.denominator r :=
        Nat.le_mul_of_pos_right _ (Magnitude.denominator_pos r)
    _ = Magnitude.numerator r := hr.symm
    _ < 2 ^ b := Magnitude.numerator_lt r.isLt hb

end Double

namespace Integer

/-- The double nearest to the integer is that integer. -/
def IsExact (n : Int) : Prop := ∃ x, toDouble n = .ok x ∧ x.integer? = some n

theorem isExact_of_rank {n : Int} {r : Nat} (hr : r < magnitudeCount)
    (h : Magnitude.numerator r = n.natAbs * Magnitude.denominator r) : IsExact n := by
  refine ⟨.finite (decide (n < 0)) ⟨r, hr⟩, ?_, ?_⟩
  · simp [toDouble, Double.ofInt?, Double.ofRatio, Double.ofRank, Magnitude.ofRatio_of_whole h, hr]
  · rw [Double.integer?_finite h]
    by_cases hn : n < 0
    · simp only [Double.signed, hn, decide_true, if_true]
      congr 1
      omega
    · simp only [Double.signed, hn, decide_false, Bool.false_eq_true, if_false]
      congr 1
      omega

/-- The value of a whole double is exact. -/
theorem isExact_of_integer? {x : Double} {n : Int} (h : x.integer? = some n) : IsExact n := by
  obtain ⟨negative, r, -, -, hr⟩ := Double.exists_of_integer? h
  exact isExact_of_rank r.isLt hr

/-- An exact integer is short enough to be written. -/
theorem IsExact.write_eq {n : Int} (h : IsExact n) : write n = .ok (decimalText n) := by
  obtain ⟨x, -, hx⟩ := h
  have hsize : n.natAbs < 10 ^ digitLimit :=
    Nat.lt_of_lt_of_le (Double.natAbs_lt_of_integer? hx (by decide))
      (Nat.pow_le_pow_left (by decide) digitLimit)
  have hlength : (Nat.toDigits 10 n.natAbs).length ≤ digitLimit :=
    (Nat.length_toDigits_le_iff (by decide) (by decide)).mpr hsize
  rw [write, if_neg (Nat.not_lt.mpr hlength)]

theorem isExact_of_natAbs_le {n : Int} (h : n.natAbs ≤ 2 ^ 53) : IsExact n := by
  obtain ⟨r, hr, hn⟩ := Magnitude.exists_rank h
  exact isExact_of_rank hr hn

/-- A double has no fraction, or its integer part is less than `2 ^ 53` in size. -/
theorem isExact_of_truncate? {x : Double} {n : Int} (h : x.truncate? = some n) : IsExact n := by
  cases x with
  | nan => simp [Double.truncate?, Double.ratio?] at h
  | infinite negative => simp [Double.truncate?, Double.ratio?] at h
  | finite negative r =>
      have hsize : n.natAbs = Magnitude.numerator r / Magnitude.denominator r := by
        simp only [Double.truncate?, Double.ratio?, Option.map_some, Option.some.injEq] at h
        rw [← h, Int.natAbs_tdiv, Double.natAbs_signed, Int.natAbs_natCast]
        rfl
      rcases Int.le_total 0 (Magnitude.exponent r) with hwhole | hfraction
      · have hden : Magnitude.denominator r = 1 := by
          obtain ⟨k, hk⟩ := Int.eq_ofNat_of_zero_le hwhole
          rw [Magnitude.denominator, hk, power_neg_natCast]
        refine isExact_of_rank r.isLt ?_
        rw [hsize, hden, Nat.div_one, Nat.mul_one]
      · have hnum : Magnitude.numerator r = Magnitude.significand r := by
          obtain ⟨k, hk⟩ := Int.eq_ofNat_of_zero_le (Int.neg_nonneg_of_nonpos hfraction)
          rw [Magnitude.numerator, ← Int.neg_neg (Magnitude.exponent r), hk, power_neg_natCast,
            Nat.mul_one]
        refine isExact_of_natAbs_le ?_
        rw [hsize, hnum]
        exact Nat.le_trans (Nat.div_le_self _ _) (Nat.le_of_lt (Magnitude.significand_lt r))

end Integer

end ConditionalForms
