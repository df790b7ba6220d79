import ConditionalForms.Form.Grid
import ConditionalForms.Proofs.Number.Nearest
import ConditionalForms.Proofs.Number.Order
import ConditionalForms.Value.Number

/-!
# Reading numbers back

A bound is written as it is and read through a double, where a whole number becomes an integer.  So
a bound that a double holds exactly comes back as the same number, though maybe as one of the other
kind, and the widths of a grid come back unchanged.  Whatever its kind, a bound has one place on the
number line, and it is this place that answers and other bounds are compared with.

**Definitions.**
* `Bound.canonical`: a bound in the kind it is read in.
* `Bound.IsExact`: an exact integer or a finite double.
* `Bound.SameNumber`: numeric equality across the two kinds.
* `Bound.value?`: the place of a bound on the number line.

**Results.**
* `Value.bound?_eq`, `Value.wholeBound?_eq`: what the double of a value gives as a bound.
* `Value.bound?_of_roundsTo`: a whole bound of any size is read back as the nearest double has it.
* `Bound.bound?_toValue`: an exact bound is read back in its canonical kind.
* `Bound.sameNumber_iff`, `Bound.exceeds_iff`, `Bound.fallsBelow_iff`, `Bound.gt_iff`: all
  comparisons with a bound are by place.
* `Bound.exceeds_canonical`, `Bound.fallsBelow_canonical`: its kind does not matter for answers.
* `Bound.gt_canonical`: its kind does not matter for other bounds.
* `Grid.columnCount_int`, `Grid.span_int`: what the grid makes of an exact integer.
-/

namespace ConditionalForms

open Integer (IsExact RoundsTo toDouble)

namespace Bound

/-- The bound in the kind that it is read in: a whole number as an integer. -/
def canonical : Bound → Bound
  | .int n => .int n
  | .float x => match x.integer? with
    | some n => .int n
    | none => .float x

/-- The bound is an exact integer or a finite double. -/
def IsExact : Bound → Prop
  | .int n => Integer.IsExact n
  | .float x => x.isFinite = true

/-- The two bounds are the same number. -/
def SameNumber : Bound → Bound → Prop
  | .int m, .int n => m = n
  | .int m, .float y => y.eqInt m = true
  | .float x, .int n => x.eqInt n = true
  | .float x, .float y => x.eq y = true

/-- The place of a bound on the number line. -/
def value? : Bound → Option NumberLine
  | .int n => some (.ofRat n)
  | .float x => x.value?

@[simp] theorem value?_int (n : Int) : (Bound.int n).value? = some (.ofRat n) := rfl

@[simp] theorem value?_float (x : Double) : (Bound.float x).value? = x.value? := rfl

theorem value?_canonical (b : Bound) : b.canonical.value? = b.value? := by
  cases b with
  | int n => rfl
  | float x => cases hx : x.integer? with
    | some n => simp [canonical, hx, Double.value?_of_integer? hx]
    | none => simp [canonical, hx]

theorem IsExact.exists_value? {b : Bound} (h : b.IsExact) : ∃ p, b.value? = some p := by
  cases b with
  | int n => exact ⟨_, rfl⟩
  | float x => cases x with
    | nan => cases h
    | infinite negative => cases h
    | finite negative r => exact ⟨_, rfl⟩

/-- Bounds are the same number exactly if they have the same place. -/
theorem sameNumber_iff (b c : Bound) : b.SameNumber c ↔ ∃ p ∈ b.value?, p ∈ c.value? := by
  cases b with
  | int m => cases c with
    | int n => simp [SameNumber, eq_comm]
    | float y => simp [SameNumber, Double.eqInt_iff]
  | float x => cases c with
    | int n => simp [SameNumber, Double.eqInt_iff]
    | float y => exact Double.eq_iff x y

theorem sameNumber_canonical {b : Bound} (h : b.IsExact) : b.SameNumber b.canonical := by
  obtain ⟨p, hp⟩ := h.exists_value?
  rw [sameNumber_iff, value?_canonical]
  exact ⟨p, hp, hp⟩

/-- A bound exceeds the numbers that stand before it. -/
theorem exceeds_iff (b : Bound) (x : Double) :
    b.exceeds x = true ↔ ∃ p ∈ x.value?, ∃ q ∈ b.value?, p < q := by
  cases b with
  | int n => simp [exceeds, Double.ltInt_iff]
  | float y => exact Double.lt_iff x y

/-- A bound falls below the numbers that stand after it. -/
theorem fallsBelow_iff (b : Bound) (x : Double) :
    b.fallsBelow x = true ↔ ∃ p ∈ b.value?, ∃ q ∈ x.value?, p < q := by
  cases b with
  | int n => simp [fallsBelow, Double.intLt_iff]
  | float y => exact Double.lt_iff y x

theorem gt_iff (low high : Bound) :
    low.gt high = true ↔ ∃ p ∈ high.value?, ∃ q ∈ low.value?, p < q := by
  cases low with
  | int m => cases high with
    | int n => simp [gt]
    | float y => simp [gt, Double.ltInt_iff]
  | float x => cases high with
    | int n => simp [gt, Double.intLt_iff]
    | float y => exact Double.lt_iff y x

theorem exceeds_canonical (b : Bound) (x : Double) : b.canonical.exceeds x = b.exceeds x := by
  rw [Bool.eq_iff_iff, exceeds_iff, exceeds_iff, value?_canonical]

theorem fallsBelow_canonical (b : Bound) (x : Double) :
    b.canonical.fallsBelow x = b.fallsBelow x := by
  rw [Bool.eq_iff_iff, fallsBelow_iff, fallsBelow_iff, value?_canonical]

/-- The order of two bounds does not depend on their kinds. -/
theorem gt_canonical (low high : Bound) : low.canonical.gt high.canonical = low.gt high := by
  rw [Bool.eq_iff_iff, gt_iff, gt_iff, value?_canonical, value?_canonical]

end Bound

namespace Double

theorem isFinite_of_integer? {x : Double} {n : Int} (h : x.integer? = some n) :
    x.isFinite = true := by
  obtain ⟨negative, r, rfl, -, -⟩ := exists_of_integer? h
  rfl

theorem floor?_of_integer? {x : Double} {n : Int} (h : x.integer? = some n) :
    x.floor? = some n := by
  cases hx : x.ratio? with
  | none => simp [integer?, hx] at h
  | some q =>
      simp only [integer?, hx] at h
      split at h
      · simpa [floor?, hx] using h
      · simp at h

theorem integer?_zero : zero.integer? = some 0 := by
  have hzero : zero = .finite false ⟨0, by decide⟩ := by decide
  have hnumerator : Magnitude.numerator (⟨0, by decide⟩ : Fin magnitudeCount) =
      0 * Magnitude.denominator (⟨0, by decide⟩ : Fin magnitudeCount) := by
    rw [Nat.zero_mul, Magnitude.numerator, Magnitude.significand, if_pos (by decide), Nat.zero_mul]
  rw [hzero, integer?_finite hnumerator]
  rfl

theorem zero_lt_of_integer? {x : Double} {n : Int} (h : x.integer? = some n) :
    zero.lt x = decide (0 < n) := by
  rw [Bool.eq_iff_iff, lt_iff, value?_of_integer? integer?_zero, value?_of_integer? h]
  simp

end Double

theorem Double.truncate?_of_integer? {x : Double} {n : Int} (h : x.integer? = some n) :
    x.truncate? = some n := by
  unfold integer? at h
  unfold truncate?
  cases hx : x.ratio? with
  | none => simp [hx] at h
  | some p =>
      obtain ⟨a, d⟩ := p
      simp only [hx] at h
      split at h
      · rename_i hmod
        obtain rfl := Option.some.inj h
        show some (a.tdiv d) = some (a / d)
        rw [Int.tdiv_eq_ediv_of_dvd (Int.dvd_of_emod_eq_zero hmod)]
      · cases h

theorem Double.truncate?_of_not_isFinite {x : Double} (h : x.isFinite = false) :
    x.truncate? = none := by
  cases x with
  | finite => cases h
  | _ => rfl

/-- The integer part of a bound. -/
def Bound.truncate? : Bound → Option Int
  | .int n => some n
  | .float x => x.truncate?

theorem Bound.truncate?_canonical (b : Bound) : b.canonical.truncate? = b.truncate? := by
  cases b with
  | int n => rfl
  | float x => cases hx : x.integer? with
    | some n => simp [canonical, hx, truncate?, Double.truncate?_of_integer? hx]
    | none => simp [canonical, hx]

/-- The bound that a double gives, as long as it is finite. -/
def Double.toBound? (x : Double) : Option Bound :=
  if x.isFinite then some (Bound.float x).canonical else none

theorem Double.truncate?_toBound? (x : Double) : x.toBound?.bind Bound.truncate? = x.truncate? := by
  cases hfinite : x.isFinite with
  | true =>
      rw [toBound?, if_pos hfinite]
      exact Bound.truncate?_canonical (.float x)
  | false => simp [toBound?, hfinite, truncate?_of_not_isFinite hfinite]

namespace Value

variable {v : Value}

/-- But for truth values, a constraint is what its double gives. -/
theorem bound?_eq (hbool : ∀ b, v ≠ .bool b) :
    v.bound? = (·.bind Double.toBound?) <$> v.double? := by
  have hdouble : v.bound? = v.double? >>= fun x? => .ok (x?.bind Double.toBound?) := by
    cases v with
    | null => rfl
    | bool b => exact absurd rfl (hbool b)
    | _ =>
        refine bind_congr fun x? => ?_
        cases x? with
        | none => rfl
        | some x =>
            cases hfinite : x.isFinite <;> cases hinteger : x.integer? <;>
              simp [Double.toBound?, Bound.canonical, hfinite, hinteger, pure, Except.pure]
  rw [hdouble]
  cases v.double? <;> rfl

/-- But for truth values, the integer part of a constraint is the one of its double. -/
theorem wholeBound?_eq (hbool : ∀ b, v ≠ .bool b) :
    v.wholeBound? = (·.bind Double.truncate?) <$> v.double? := by
  have hbound : v.wholeBound? = (·.bind Bound.truncate?) <$> v.bound? := by
    unfold wholeBound?
    cases v.bound? with
    | error e => rfl
    | ok b? => rcases b? with _ | _ | _ <;> rfl
  rw [hbound, bound?_eq hbool]
  cases v.double? with
  | error e => rfl
  | ok x? => cases x? with
    | none => rfl
    | some x => exact congrArg Except.ok x.truncate?_toBound?

/-- A whole constraint is read as the value of the nearest double. -/
theorem bound?_of_roundsTo {n m : Int} (h : RoundsTo n m) :
    (Value.int n).bound? = .ok (some (.int m)) := by
  obtain ⟨x, hx, hm⟩ := h
  simp [bound?_eq, double?, hx, Double.toBound?, Double.isFinite_of_integer? hm, Bound.canonical,
    hm]

/-- A whole constraint that no double is near to is a fault. -/
theorem bound?_of_beyond {n : Int} {e : Fault} (h : toDouble n = .error e) :
    (Value.int n).bound? = .error e := by
  have hbool : ∀ b, Value.int n ≠ .bool b := nofun
  rw [bound?_eq hbool, double?, h]
  rfl

theorem bound?_int {n : Int} (h : IsExact n) : (Value.int n).bound? = .ok (some (.int n)) :=
  bound?_of_roundsTo h

theorem wholeBound?_int {n : Int} (h : IsExact n) : (Value.int n).wholeBound? = .ok (some n) := by
  simp [wholeBound?, bound?_int h]

end Value

theorem Bound.bound?_toValue {b : Bound} (h : b.IsExact) :
    b.toValue.bound? = .ok (some b.canonical) := by
  cases b with
  | int n => exact Value.bound?_int h
  | float x =>
      have hfinite : x.isFinite = true := h
      simp [toValue, Value.bound?_eq, Value.double?, Double.toBound?, hfinite]

namespace Grid

theorem wholeColumns?_of_integer? {x : Double} {n : Int} (h : x.integer? = some n) :
    wholeColumns? x = if 0 < n then some n else none := by
  simp [wholeColumns?, Double.isFinite_of_integer? h, Double.zero_lt_of_integer? h,
    Double.floor?_of_integer? h]

/-- The width that an exact integer gives. -/
theorem columnCount_int {n : Int} (h : IsExact n) :
    columnCount (.int n) = .ok (if 0 < n then min maxColumns n else 1) := by
  obtain ⟨x, hx, hn⟩ := h
  by_cases hpos : 0 < n
  · have hmax : max 1 n = n := by omega
    simp [columnCount, Value.extent, Value.double?, hx, wholeColumns?_of_integer? hn, hpos, hmax]
  · simp [columnCount, Value.extent, Value.double?, hx, wholeColumns?_of_integer? hn, hpos]

/-- The span that an exact integer gives. -/
theorem span_int {n columns : Int} (h : IsExact n) :
    span (.int n) columns = .ok (if 0 < n then min columns n else max 1 columns) := by
  obtain ⟨x, hx, hn⟩ := h
  by_cases hpos : 0 < n
  · have hmax : max 1 n = n := by omega
    simp [span, Value.extent, Value.double?, hx, wholeColumns?_of_integer? hn, hpos, hmax]
  · simp [span, Value.extent, Value.double?, hx, wholeColumns?_of_integer? hn, hpos]

end Grid

end ConditionalForms
