import ConditionalForms.Proofs.Number.Exact
import Mathlib.Algebra.Order.Field.Basic
import Mathlib.Algebra.Order.Field.Rat
import Mathlib.Data.Rat.Cast.Order
import Mathlib.Order.Monotone.Basic
import Mathlib.Order.WithBot

/-!
# The order of numbers

Two doubles are compared by their ranks, and a double with an integer by exact quotients.  Both are
the order of the numbers themselves: every double but a NaN has a place on the line of rational
numbers with an end on both sides, and all comparisons compare these places.  The reason is that
the magnitudes grow with their ranks.

**Definitions.**
* `NumberLine`: the rational numbers with their two ends.
* `Double.value?`: the place of a double on it; a NaN has none.

**Results.**
* `Magnitude.units_strictMono`: magnitudes grow with their ranks.
* `Double.lt_iff`: one double is less than another exactly if its place is.
* `Double.ltInt_iff`, `Double.intLt_iff`: the same for a double and an integer.
* `Double.eq_iff`, `Double.eqInt_iff`: numbers are equal exactly if they have the same place.
* `Double.value?_of_integer?`: a whole double stands where its integer does.
-/

namespace ConditionalForms

theorem power_add {b : Nat} {d e : Int} (hd : 0 ≤ d) (he : 0 ≤ e) :
    power b (d + e) = power b d * power b e := by
  obtain ⟨j, rfl⟩ := Int.eq_ofNat_of_zero_le hd
  obtain ⟨k, rfl⟩ := Int.eq_ofNat_of_zero_le he
  rw [← Int.natCast_add, power_natCast, power_natCast, power_natCast, Nat.pow_add]

theorem power_of_nonpos {b : Nat} {e : Int} (h : e ≤ 0) : power b e = 1 := by
  have h : e.toNat = 0 := by omega
  simp [power, h]

theorem power_mul_power {b : Nat} {c e : Int} (hc : 0 ≤ c) (he : -c ≤ e) :
    power b e * power b c = power b (e + c) * power b (-e) := by
  rcases Int.le_total 0 e with hpos | hneg
  · rw [power_add hpos hc, power_of_nonpos (e := -e) (by omega), Nat.mul_one]
  · rw [power_of_nonpos hneg, Nat.one_mul, ← power_add (by omega) (by omega)]
    congr 1
    omega

namespace Magnitude

/-- A magnitude as a multiple of the least positive one. -/
def units (r : Nat) : Nat := significand r * power 2 (exponent r + 1074)

theorem neg_le_exponent (r : Nat) : -1074 ≤ exponent r := by
  rw [exponent]
  split
  · omega
  · have : 1 ≤ r / blockSize := Nat.div_pos (by omega) (by decide)
    omega

theorem numerator_mul (r : Nat) :
    numerator r * power 2 1074 = units r * denominator r := by
  rw [numerator, denominator, units, Nat.mul_assoc, Nat.mul_assoc,
    power_mul_power (by decide) (neg_le_exponent r)]

theorem units_lt_succ (r : Nat) : units r < units (r + 1) := by
  have hblock : blockSize = 2 ^ 52 := rfl
  rcases Nat.lt_or_ge (r + 1) blockSize with hsub | hge
  · -- both are subnormal
    simp only [units, significand, exponent, if_pos hsub, if_pos (show r < blockSize by omega)]
    exact Nat.mul_lt_mul_of_pos_right (by omega) (power_pos _)
  obtain ⟨m, k, hlow, hhigh, hsucc⟩ : ∃ m k, blockSize ≤ m ∧ m < 2 * blockSize ∧
      r + 1 = m + k * blockSize := by
    refine ⟨_, _, (significand_bounds hge).1, (significand_bounds hge).2,
      (significand_add_exponent hge).symm⟩
  have hunits : units (r + 1) = m * 2 ^ k := by
    rw [units, hsucc, significand_add_mul hlow hhigh, exponent_add_mul hlow hhigh,
      Int.sub_add_cancel, power_natCast]
  rw [hunits]
  rcases Nat.lt_or_eq_of_le hlow with hlow | rfl
  · -- the step stays within a block
    have hr : r = (m - 1) + k * blockSize := by omega
    rw [units, hr, significand_add_mul (by omega) (by omega),
      exponent_add_mul (by omega) (by omega), Int.sub_add_cancel, power_natCast]
    exact Nat.mul_lt_mul_of_pos_right (by omega) (Nat.two_pow_pos k)
  · cases k with
    | zero =>
        have hr : r < blockSize := by omega
        rw [units, significand, exponent, if_pos hr, if_pos hr]
        show r * 1 < _
        omega
    | succ k =>
        -- the step enters the next block, whose unit is twice as large
        have hr : r = (2 * blockSize - 1) + k * blockSize := by
          rw [Nat.succ_mul] at hsucc
          omega
        rw [units, hr, significand_add_mul (by omega) (by omega),
          exponent_add_mul (by omega) (by omega), Int.sub_add_cancel, power_natCast, Nat.pow_succ,
          Nat.mul_comm (2 ^ k) 2, ← Nat.mul_assoc, Nat.mul_comm blockSize 2]
        exact Nat.mul_lt_mul_of_pos_right (by omega) (Nat.two_pow_pos k)

theorem units_strictMono : StrictMono units := strictMono_nat_of_lt_succ units_lt_succ

/-- Ranks are compared as exact quotients are. -/
theorem lt_iff (r s : Nat) : r < s ↔ numerator r * denominator s < numerator s * denominator r := by
  have hr := denominator_pos r
  have hs := denominator_pos s
  have hp := power_pos 1074
  rw [← units_strictMono.lt_iff_lt,
    ← Nat.mul_lt_mul_right (a := denominator r * denominator s) (Nat.mul_pos hr hs),
    ← Nat.mul_lt_mul_right (a := power 2 1074) (b := numerator r * denominator s) hp]
  rw [show units r * (denominator r * denominator s) =
      numerator r * denominator s * power 2 1074 by
    rw [← Nat.mul_assoc, ← numerator_mul, Nat.mul_right_comm]]
  rw [show units s * (denominator r * denominator s) =
      numerator s * denominator r * power 2 1074 by
    rw [Nat.mul_comm (denominator r), ← Nat.mul_assoc, ← numerator_mul, Nat.mul_right_comm]]

theorem numerator_pos_iff (r : Nat) : 0 < r ↔ 0 < numerator r := by
  have hzero : numerator 0 = 0 := by simp [numerator, significand]
  rw [lt_iff, hzero, Nat.zero_mul, Nat.mul_pos_iff_of_pos_right (denominator_pos 0)]

end Magnitude

/-- The rational numbers with an end on both sides. -/
abbrev NumberLine := WithBot (WithTop ℚ)

namespace NumberLine

/-- A rational number in its place. -/
def ofRat (q : ℚ) : NumberLine := WithBot.some (WithTop.some q)

@[simp] theorem ofRat_inj {p q : ℚ} : ofRat p = ofRat q ↔ p = q :=
  WithBot.coe_inj.trans WithTop.coe_inj

@[simp] theorem ofRat_lt_ofRat {p q : ℚ} : ofRat p < ofRat q ↔ p < q :=
  WithBot.coe_lt_coe.trans WithTop.coe_lt_coe

@[simp] theorem bot_lt_ofRat (q : ℚ) : ⊥ < ofRat q := WithBot.bot_lt_coe _

@[simp] theorem ofRat_lt_top (q : ℚ) : ofRat q < ⊤ := WithBot.coe_lt_coe.mpr (WithTop.coe_lt_top q)

end NumberLine

namespace Double

/-- The place of a double on the number line. -/
def value? : Double → Option NumberLine
  | .nan => none
  | .infinite negative => some (if negative then ⊥ else ⊤)
  | .finite negative rank =>
      some (.ofRat (signed negative (Magnitude.numerator rank) / Magnitude.denominator rank))

/-- Signed ranks are compared as signed quotients are. -/
theorem signed_lt_iff (x y : Bool) (r s : Nat) :
    signed x r < signed y s ↔
      (signed x (Magnitude.numerator r) / Magnitude.denominator r : ℚ) <
        signed y (Magnitude.numerator s) / Magnitude.denominator s := by
  have hr := Magnitude.denominator_pos r
  have hs := Magnitude.denominator_pos s
  have hcross : (signed x (Magnitude.numerator r) / Magnitude.denominator r : ℚ) <
      signed y (Magnitude.numerator s) / Magnitude.denominator s ↔
      signed x (Magnitude.numerator r * Magnitude.denominator s) <
        signed y (Magnitude.numerator s * Magnitude.denominator r) := by
    rw [div_lt_div_iff₀ (Nat.cast_pos.mpr hr) (Nat.cast_pos.mpr hs), signed_mul, signed_mul]
    exact_mod_cast Iff.rfl
  -- each product is positive exactly if its rank is, so only the signs are left to compare
  have hless := Magnitude.lt_iff r s
  have hmore := Magnitude.lt_iff s r
  have hr_pos : 0 < r ↔ 0 < Magnitude.numerator r * Magnitude.denominator s := by
    rw [Magnitude.numerator_pos_iff, Nat.mul_pos_iff_of_pos_right hs]
  have hs_pos : 0 < s ↔ 0 < Magnitude.numerator s * Magnitude.denominator r := by
    rw [Magnitude.numerator_pos_iff, Nat.mul_pos_iff_of_pos_right hr]
  rw [hcross]
  generalize Magnitude.numerator r * Magnitude.denominator s = a at *
  generalize Magnitude.numerator s * Magnitude.denominator r = b at *
  cases x <;> cases y <;> simp only [signed, if_true, if_false, Bool.false_eq_true] <;> omega

/-- A finite double lies between the infinite ones. -/
theorem signed_between {r count : Nat} (h : r < count) (negative : Bool) :
    -(count : Int) < signed negative r ∧ signed negative r < count := by
  cases negative <;> simp only [signed, if_true, if_false, Bool.false_eq_true] <;> omega

/-- The order of doubles is the order of their places. -/
theorem order_lt_iff {x y : Double} {i j : Int} {p q : NumberLine} (hi : x.order = some i)
    (hj : y.order = some j) (hp : x.value? = some p) (hq : y.value? = some q) :
    i < j ↔ p < q := by
  cases x with
  | nan => cases hi
  | infinite x =>
      cases hi
      cases hp
      cases y with
      | nan => cases hj
      | infinite y =>
          cases hj
          cases hq
          cases x <;> cases y <;> simp
      | finite y s =>
          cases hj
          cases hq
          obtain ⟨hlow, hhigh⟩ := signed_between s.isLt y
          cases x with
          | false => exact iff_of_false hhigh.not_gt not_top_lt
          | true => exact iff_of_true hlow (NumberLine.bot_lt_ofRat _)
  | finite x r =>
      cases hi
      cases hp
      cases y with
      | nan => cases hj
      | infinite y =>
          cases hj
          cases hq
          obtain ⟨hlow, hhigh⟩ := signed_between r.isLt x
          cases y with
          | false => exact iff_of_true hhigh (NumberLine.ofRat_lt_top _)
          | true => exact iff_of_false hlow.not_gt not_lt_bot
      | finite y s =>
          cases hj
          cases hq
          rw [NumberLine.ofRat_lt_ofRat]
          exact signed_lt_iff x y r s

theorem exists_value?_of_order {x : Double} {i : Int} (h : x.order = some i) :
    ∃ p, x.value? = some p := by
  cases x with
  | nan => cases h
  | infinite => exact ⟨_, rfl⟩
  | finite => exact ⟨_, rfl⟩

theorem value?_of_order_none {x : Double} (h : x.order = none) : x.value? = none := by
  cases x with
  | nan => rfl
  | infinite => cases h
  | finite => cases h

theorem lt_iff (x y : Double) : x.lt y = true ↔ ∃ p ∈ x.value?, ∃ q ∈ y.value?, p < q := by
  cases hi : x.order with
  | none => simp [lt, hi, value?_of_order_none hi]
  | some i => cases hj : y.order with
    | none => simp [lt, hi, hj, value?_of_order_none hj]
    | some j =>
        obtain ⟨p, hp⟩ := exists_value?_of_order hi
        obtain ⟨q, hq⟩ := exists_value?_of_order hj
        simp [lt, hi, hj, hp, hq, order_lt_iff hi hj hp hq]

theorem ltInt_iff (x : Double) (n : Int) : x.ltInt n = true ↔ ∃ p ∈ x.value?, p < .ofRat n := by
  cases x with
  | nan => simp [ltInt, value?]
  | infinite negative => cases negative <;> simp [ltInt, value?]
  | finite negative r =>
      have hr : (0 : ℚ) < Magnitude.denominator r := Nat.cast_pos.mpr (Magnitude.denominator_pos r)
      have hcross : (signed negative (Magnitude.numerator r) / Magnitude.denominator r : ℚ) < n ↔
          signed negative (Magnitude.numerator r) < n * (Magnitude.denominator r : Int) := by
        rw [div_lt_iff₀ hr]
        exact_mod_cast Iff.rfl
      simp [ltInt, value?, ratio?, hcross]

theorem intLt_iff (n : Int) (x : Double) : intLt n x = true ↔ ∃ p ∈ x.value?, .ofRat n < p := by
  cases x with
  | nan => simp [intLt, value?]
  | infinite negative => cases negative <;> simp [intLt, value?]
  | finite negative r =>
      have hr : (0 : ℚ) < Magnitude.denominator r := Nat.cast_pos.mpr (Magnitude.denominator_pos r)
      have hcross : n < (signed negative (Magnitude.numerator r) / Magnitude.denominator r : ℚ) ↔
          n * (Magnitude.denominator r : Int) < signed negative (Magnitude.numerator r) := by
        rw [lt_div_iff₀ hr]
        exact_mod_cast Iff.rfl
      simp [intLt, value?, ratio?, hcross]

theorem eq_iff (x y : Double) : x.eq y = true ↔ ∃ p ∈ x.value?, p ∈ y.value? := by
  cases hi : x.order with
  | none => simp [eq, hi, value?_of_order_none hi]
  | some i => cases hj : y.order with
    | none => simp [eq, hi, hj, value?_of_order_none hj]
    | some j =>
        obtain ⟨p, hp⟩ := exists_value?_of_order hi
        obtain ⟨q, hq⟩ := exists_value?_of_order hj
        have hplace : i = j ↔ p = q := by
          rw [le_antisymm_iff, le_antisymm_iff, ← not_lt, ← not_lt, ← not_lt, ← not_lt,
            order_lt_iff hi hj hp hq, order_lt_iff hj hi hq hp]
        simp [eq, hi, hj, hp, hq, hplace, eq_comm]

theorem value?_of_integer? {x : Double} {n : Int} (h : x.integer? = some n) :
    x.value? = some (.ofRat n) := by
  obtain ⟨negative, r, rfl, hn, hr⟩ := exists_of_integer? h
  have hden : (Magnitude.denominator r : ℚ) ≠ 0 :=
    Nat.cast_ne_zero.mpr (Magnitude.denominator_pos r).ne'
  rw [value?, hr, signed_mul, ← hn, Int.cast_mul, Int.cast_natCast, mul_div_cancel_right₀ _ hden]

theorem eqInt_iff (x : Double) (n : Int) : x.eqInt n = true ↔ .ofRat n ∈ x.value? := by
  rw [eqInt, beq_iff_eq, Option.mem_def]
  refine ⟨value?_of_integer?, fun h => ?_⟩
  cases x with
  | nan => cases h
  | infinite negative =>
      have hplace := Option.some.inj h
      cases negative with
      | false => exact absurd hplace (NumberLine.ofRat_lt_top _).ne'
      | true => exact absurd hplace (NumberLine.bot_lt_ofRat _).ne
  | finite negative r =>
      have hden : (Magnitude.denominator r : Int) ≠ 0 :=
        Int.natCast_ne_zero.mpr (Magnitude.denominator_pos r).ne'
      have hquotient := NumberLine.ofRat_inj.mp (Option.some.inj h)
      have hwhole : signed negative (Magnitude.numerator r) = n * Magnitude.denominator r := by
        rw [div_eq_iff (by exact_mod_cast hden)] at hquotient
        exact_mod_cast hquotient
      simp [integer?, ratio?, hwhole, Int.mul_ediv_cancel _ hden]

end Double

end ConditionalForms
