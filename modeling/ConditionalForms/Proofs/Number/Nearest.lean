import ConditionalForms.Proofs.Number.Exact

/-!
# The double nearest to an integer

An integer of any size is converted to a double whose value is an integer again, or it is beyond the
finite doubles.  Up to `2 ^ 53` nothing changes; above it, the result has 53 binary digits and zeros
behind them, and it is off by at most one part in `2 ^ 53`.

**Definitions.**
* `Magnitude.overflowThreshold`: the least whole number beyond the doubles.
* `Integer.RoundsTo`: the value of the double nearest to an integer.

**Results.**
* `Magnitude.exists_whole_ofRatio`: rounding a whole number gives a whole magnitude close to it.
* `Magnitude.ofRatio_lt_iff`, `Integer.ofInt?_eq_none_iff`: which whole numbers are beyond the
  doubles.
* `Integer.roundsTo_or_beyond`: an integer is rounded to an integer, or it is beyond the doubles.
* `Integer.RoundsTo.error_le`: how far an integer is moved at most.
* `Integer.RoundsTo.eq_iff_isExact`: exact integers are those that are not moved.
-/

namespace ConditionalForms

namespace Magnitude

/-- Rounding a quotient moves it by at most a half. -/
theorem roundHalfEven_bounds (n : Nat) {d : Nat} (hd : 0 < d) :
    2 * (roundHalfEven n d * d) ≤ 2 * n + d ∧ 2 * n ≤ 2 * (roundHalfEven n d * d) + d := by
  have hmod : n % d < d := Nat.mod_lt n hd
  have hdiv : n / d * d + n % d = n := Nat.div_add_mod' n d
  have hnext : (n / d + 1) * d = n / d * d + d := Nat.succ_mul _ _
  simp only [roundHalfEven]
  split
  · omega
  · split
    · omega
    · split <;> omega

/-- A rank from that of `2 ^ 52` on is a whole number, a significand with zeros behind it. -/
theorem whole_add_mul {m k : Nat} (hlow : blockSize ≤ m) (hhigh : m < 2 * blockSize) :
    numerator (m + (k + 1074) * blockSize) = m * 2 ^ k ∧
      denominator (m + (k + 1074) * blockSize) = 1 := by
  have he : exponent (m + (k + 1074) * blockSize) = k := by
    rw [exponent_add_mul hlow hhigh]
    omega
  rw [numerator, denominator, significand_add_mul hlow hhigh, he, power_natCast, power_neg_natCast]
  exact ⟨rfl, rfl⟩

/-- A significand that was rounded up to the next power of two starts the next block. -/
theorem whole_add_mul_of_le {m k : Nat} (hlow : blockSize ≤ m) (hhigh : m ≤ 2 * blockSize) :
    numerator (m + (k + 1074) * blockSize) = m * 2 ^ k ∧
      denominator (m + (k + 1074) * blockSize) = 1 := by
  rcases Nat.lt_or_eq_of_le hhigh with hlt | rfl
  · exact whole_add_mul hlow hlt
  · have hrank : 2 * blockSize + (k + 1074) * blockSize =
        blockSize + (k + 1 + 1074) * blockSize := by
      simp only [blockSize]
      omega
    have hvalue : 2 * blockSize * 2 ^ k = blockSize * 2 ^ (k + 1) := by
      rw [Nat.pow_succ, Nat.mul_comm 2, Nat.mul_assoc, Nat.mul_comm 2]
    rw [hrank, hvalue]
    exact whole_add_mul Nat.le.refl (by decide)

/-- The rank nearest to a whole number of more than 53 binary digits. -/
theorem ofRatio_of_large {n k : Nat} (hlog : n.log2 = 52 + k) :
    ofRatio n 1 = roundHalfEven n (2 ^ k) + (k + 1074) * blockSize := by
  have hn : n ≠ 0 := by
    rintro rfl
    simp at hlog
    omega
  have hmax : max (-1074) (floorLog2 n 1 - 52) = (k : Int) := by
    rw [floorLog2_one hn]
    omega
  have hrank : ((k : Int) + 1074).toNat = k + 1074 := by omega
  rw [ofRatio, if_neg hn]
  simp only [hmax, power_natCast, power_neg_natCast, Nat.mul_one, Nat.one_mul, hrank]

theorem bounds_of_log2 {n k : Nat} (hlog : n.log2 = 52 + k) :
    2 ^ 52 * 2 ^ k ≤ n ∧ n < 2 ^ 53 * 2 ^ k := by
  have hn : n ≠ 0 := by
    rintro rfl
    simp at hlog
    omega
  constructor
  · have hlow := Nat.log2_self_le hn
    rwa [hlog, Nat.pow_add] at hlow
  · have hhigh := Nat.lt_log2_self (n := n)
    rwa [hlog, Nat.add_right_comm, Nat.pow_add] at hhigh

/-- A number of more than 53 binary digits is rounded to 53 of them, or up to the next power. -/
theorem roundHalfEven_of_large {n k : Nat} (hlog : n.log2 = 52 + k) :
    2 ^ 52 ≤ roundHalfEven n (2 ^ k) ∧ roundHalfEven n (2 ^ k) ≤ 2 ^ 53 := by
  obtain ⟨hlow, hhigh⟩ := bounds_of_log2 hlog
  have hpow : 0 < 2 ^ k := Nat.two_pow_pos k
  obtain ⟨hup, hdown⟩ := roundHalfEven_bounds n hpow
  generalize roundHalfEven n (2 ^ k) = m at hup hdown ⊢
  constructor
  · by_contra hlt
    have hnext := Nat.mul_le_mul_right (2 ^ k) (show m + 1 ≤ 2 ^ 52 by omega)
    rw [Nat.succ_mul] at hnext
    omega
  · by_contra hlt
    have hnext := Nat.mul_le_mul_right (2 ^ k) (show 2 ^ 53 + 1 ≤ m by omega)
    rw [Nat.succ_mul] at hnext
    omega

theorem exists_log2_eq {n : Nat} (h : 2 ^ 53 ≤ n) : ∃ k, n.log2 = 52 + k := by
  have hlog : 53 ≤ n.log2 := (Nat.le_log2 (by omega)).mpr h
  exact Nat.exists_eq_add_of_le (by omega)

/-- The magnitude nearest to a whole number is a whole number, and off by at most one part in
`2 ^ 53`. -/
theorem exists_whole_ofRatio (n : Nat) :
    ∃ m, numerator (ofRatio n 1) = m * denominator (ofRatio n 1) ∧
      2 ^ 53 * m ≤ 2 ^ 53 * n + n ∧ 2 ^ 53 * n ≤ 2 ^ 53 * m + n := by
  rcases Nat.le_total n (2 ^ 53) with hsmall | hlarge
  · obtain ⟨r, -, hr⟩ := exists_rank hsmall
    rw [ofRatio_of_whole hr]
    exact ⟨n, hr, by omega, by omega⟩
  · obtain ⟨k, hk⟩ := exists_log2_eq hlarge
    obtain ⟨hlow, -⟩ := bounds_of_log2 hk
    obtain ⟨hmlow, hmhigh⟩ := roundHalfEven_of_large hk
    obtain ⟨hup, hdown⟩ := roundHalfEven_bounds n (Nat.two_pow_pos k)
    rw [ofRatio_of_large hk]
    generalize roundHalfEven n (2 ^ k) = m at hup hdown hmlow hmhigh ⊢
    obtain ⟨hnum, hden⟩ := whole_add_mul_of_le (k := k) hmlow hmhigh
    rw [hnum, hden]
    exact ⟨m * 2 ^ k, (Nat.mul_one _).symm, by omega, by omega⟩

theorem roundHalfEven_floor (n d : Nat) :
    n / d ≤ roundHalfEven n d ∧ roundHalfEven n d ≤ n / d + 1 := by
  simp only [roundHalfEven]
  split
  · omega
  · split
    · omega
    · split <;> omega

/-- The half above an odd number is rounded away from it. -/
theorem roundHalfEven_le_iff {n q half : Nat} (hodd : q % 2 = 1) (hpos : 0 < half) :
    roundHalfEven n (2 * half) ≤ q ↔ n < (2 * q + 1) * half := by
  have hmod : n % (2 * half) < 2 * half := Nat.mod_lt n (by omega)
  have hdiv : 2 * (n / (2 * half) * half) + n % (2 * half) = n := by
    have hsum := Nat.div_add_mod' n (2 * half)
    rwa [Nat.mul_left_comm] at hsum
  have hbound : (2 * q + 1) * half = 2 * (q * half) + half := by
    rw [Nat.add_mul, Nat.one_mul, Nat.mul_assoc]
  obtain ⟨hlow, hhigh⟩ := roundHalfEven_floor n (2 * half)
  rw [hbound]
  rcases Nat.lt_trichotomy (n / (2 * half)) q with hlt | heq | hgt
  · have hnext := Nat.mul_le_mul_right half (Nat.succ_le_of_lt hlt)
    rw [Nat.succ_mul] at hnext
    omega
  · simp only [roundHalfEven, heq] at hdiv ⊢
    split
    · omega
    · split
      · omega
      · rw [if_neg (by omega)]
        omega
  · have hnext := Nat.mul_le_mul_right half (Nat.succ_le_of_lt hgt)
    rw [Nat.succ_mul] at hnext
    omega

/-- The least whole number that is rounded beyond the finite magnitudes.  It is half way from the
greatest of them to `2 ^ 1024`. -/
def overflowThreshold : Nat := (2 ^ 54 - 1) * 2 ^ 970

/-- A whole number is rounded to a finite magnitude exactly if it is below the threshold. -/
theorem ofRatio_lt_iff (n : Nat) : ofRatio n 1 < magnitudeCount ↔ n < overflowThreshold := by
  -- the power is too large to be computed with
  obtain ⟨j, hj⟩ : ∃ j, j = 970 := ⟨_, rfl⟩
  have hpos : 0 < 2 ^ j := Nat.two_pow_pos j
  have hthreshold : overflowThreshold = (2 ^ 54 - 1) * 2 ^ j := by rw [hj, overflowThreshold]
  rcases Nat.lt_or_ge n (2 ^ 53) with hsmall | hlarge
  · obtain ⟨r, hr, hwhole⟩ := exists_rank (Nat.le_of_lt hsmall)
    rw [ofRatio_of_whole hwhole]
    exact iff_of_true hr (by omega)
  obtain ⟨k, hk⟩ := exists_log2_eq hlarge
  obtain ⟨hlow, hhigh⟩ := bounds_of_log2 hk
  obtain ⟨hmlow, hmhigh⟩ := roundHalfEven_of_large hk
  rw [ofRatio_of_large hk, hthreshold]
  simp only [magnitudeCount, blockSize]
  rcases Nat.lt_trichotomy k (j + 1) with hlt | rfl | hgt
  · have hpow : 2 ^ k ≤ 2 ^ j := Nat.pow_le_pow_right (by decide) (by omega)
    exact iff_of_true (by omega) (by omega)
  · -- the last block, which ends below `2 ^ 1024`
    have hround := roundHalfEven_le_iff (n := n) (q := 2 ^ 53 - 1) (by decide) hpos
    rw [Nat.pow_succ'] at hmlow hmhigh ⊢
    omega
  · have hpow : 2 ^ (j + 2) ≤ 2 ^ k := Nat.pow_le_pow_right (by decide) hgt
    have hfour : 2 ^ (j + 2) = 4 * 2 ^ j := by rw [Nat.pow_add, Nat.mul_comm]
    exact iff_of_false (by omega) (by omega)

end Magnitude

namespace Integer

/-- The second integer is the value of the double nearest to the first one. -/
def RoundsTo (n m : Int) : Prop := ∃ x, toDouble n = .ok x ∧ x.integer? = some m

variable {n m : Int}

/-- Exactly the integers below the threshold have a nearest double. -/
theorem ofInt?_eq_none_iff (n : Int) :
    Double.ofInt? n = none ↔ Magnitude.overflowThreshold ≤ n.natAbs := by
  rw [← Nat.not_lt, ← Magnitude.ofRatio_lt_iff, Double.ofInt?, Double.ofRatio, Double.ofRank]
  by_cases hrank : Magnitude.ofRatio n.natAbs 1 < magnitudeCount <;> simp [hrank]

theorem toDouble_eq_error {e : Fault} (h : toDouble n = .error e) : e = .integerBeyondDouble := by
  rw [toDouble] at h
  split at h
  · simp at h
  · exact (Except.error.inj h).symm

/-- The double of an integer in range is whole. -/
theorem toDouble_eq_ok {x : Double} (h : toDouble n = .ok x) :
    ∃ m, x.integer? = some m ∧ 2 ^ 53 * (m - n).natAbs ≤ n.natAbs := by
  obtain ⟨m, hm, hup, hdown⟩ := Magnitude.exists_whole_ofRatio n.natAbs
  simp only [toDouble, Double.ofInt?, Double.ofRatio, Double.ofRank] at h
  by_cases hrank : Magnitude.ofRatio n.natAbs 1 < magnitudeCount
  · simp only [hrank, dif_pos, Except.ok.injEq] at h
    subst h
    refine ⟨_, Double.integer?_finite hm, ?_⟩
    by_cases hn : n < 0
    · simp only [Double.signed, hn, decide_true, if_true]
      omega
    · simp only [Double.signed, hn, decide_false, Bool.false_eq_true, if_false]
      omega
  · simp [hrank] at h

/-- An integer is rounded to an integer, or it is beyond the doubles. -/
theorem roundsTo_or_beyond (n : Int) :
    (∃ m, RoundsTo n m) ∨ toDouble n = .error .integerBeyondDouble := by
  cases h : toDouble n with
  | ok x =>
      obtain ⟨m, hm, -⟩ := toDouble_eq_ok h
      exact Or.inl ⟨m, x, h, hm⟩
  | error e =>
      rw [toDouble_eq_error h]
      exact Or.inr rfl

/-- An integer is moved by at most one part in `2 ^ 53`. -/
theorem RoundsTo.error_le (h : RoundsTo n m) : 2 ^ 53 * (m - n).natAbs ≤ n.natAbs := by
  obtain ⟨x, hx, hm⟩ := h
  obtain ⟨k, hk, herror⟩ := toDouble_eq_ok hx
  obtain rfl := Option.some.inj (hm.symm.trans hk)
  exact herror

theorem RoundsTo.unique {k : Int} (h : RoundsTo n m) (hk : RoundsTo n k) : m = k := by
  obtain ⟨x, hx, hm⟩ := h
  obtain ⟨y, hy, hk⟩ := hk
  obtain rfl := Except.ok.inj (hx.symm.trans hy)
  exact Option.some.inj (hm.symm.trans hk)

/-- Exact integers are those that are not moved. -/
theorem RoundsTo.eq_iff_isExact (h : RoundsTo n m) : m = n ↔ IsExact n := by
  constructor
  · rintro rfl
    exact h
  · exact h.unique

end Integer

end ConditionalForms
