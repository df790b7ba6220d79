import ConditionalForms.Proofs.Number.Nearest
import ConditionalForms.Proofs.Value.Fault
import ConditionalForms.Rule.Evaluate

/-!
# What a comparison comes to

An operator compares two values of any kind, and a value that has no numeric form keeps the four
orderings from being satisfied.  Two sorts of integers are the exception.  One beyond the doubles
cannot be ordered, not even with a value that has no numeric form, and one with too many digits
cannot be written where texts are compared.

**Definitions.**
* `Value.CountsAs`: the numeric form of a value.
* `Operator.orders`: how an operator orders two numbers.
* `Operator.LooksAt`: the operator looks at a value, as the answer or as its operand.
* `Operator.Faults`: how a comparison fails.

**Results.**
* `Value.contract_measure`: which values have a numeric form, and which fail to be measured.
* `Value.compareMeasures_eq_true_iff`: what it takes to be in order.
* `Operator.apply_exact`: a comparison fails exactly for the two sorts of integers, and an ordering
  holds exactly between numeric forms that are in order.
-/

namespace ConditionalForms

namespace Double

theorem lt_nan (x : Double) : x.lt .nan = false := by rw [lt]; cases x.order <;> rfl

theorem le_nan (x : Double) : x.le .nan = false := by rw [le]; cases x.order <;> rfl

end Double

namespace Value

/-- The numeric form of a value.  A truth value counts as one or zero, an integer as the double
nearest to it, and a text as the finite number that it writes without digit separators. -/
inductive CountsAs : Value → Double → Prop where
  | truth (b : Bool) : CountsAs (.bool b) (if b then Double.one else Double.zero)
  | whole {n : Int} {x : Double} (nearest : Double.ofInt? n = some x) : CountsAs (.int n) x
  | float {x : Double} (number : x.isNaN = false) : CountsAs (.float x) x
  | text {s : String} {x : Double} (plain : '_' ∉ (Text.trim s).toList)
      (reads : Double.ofText? (Text.trim s) = some x) (finite : x.isFinite = true) :
      CountsAs (.text s) x

variable {v w : Value} {x y : Double} {s : String}

theorem CountsAs.measure_eq (h : v.CountsAs x) : v.measure = .ok x := by
  cases h with
  | truth b => rfl
  | whole nearest => rw [measure, Integer.toDouble, nearest]
  | float _ => rfl
  | @text s _ plain reads finite =>
      have hne : Text.trim s ≠ "" := by
        intro hempty
        have hnone : Double.ofText? "" = none := by decide +kernel
        simp [hempty, hnone] at reads
      simp [measure, hne, plain, reads, finite]

theorem measure_text_eq_nan (h : ∀ x, ¬ CountsAs (.text s) x) :
    (Value.text s).measure = .ok .nan := by
  simp only [measure]
  split
  · rfl
  · rename_i hplain
    split
    · rename_i x hreads
      split
      · rename_i hfinite
        exact absurd (.text (by simpa using (not_or.mp hplain).2) hreads hfinite) (h x)
      · rfl
    · rfl

/-- A value is measured by its numeric form, by a NaN if it has none, and not at all if it is an
integer beyond the doubles. -/
theorem contract_measure (v : Value) :
    Contract
      (fun e => e = .integerBeyondDouble ∧
        ∃ n : Int, v = .int n ∧ Magnitude.overflowThreshold ≤ n.natAbs)
      (fun x => (v.CountsAs x ∨ x = .nan ∧ ∀ y, ¬ v.CountsAs y) ∧
        ∀ n : Int, v = .int n → n.natAbs < Magnitude.overflowThreshold)
      v.measure := by
  cases v with
  | bool b => exact ⟨Or.inl (.truth b), by simp⟩
  | int n =>
      rw [measure, Integer.toDouble]
      cases hn : Double.ofInt? n with
      | none => exact ⟨rfl, n, rfl, (Integer.ofInt?_eq_none_iff n).mp hn⟩
      | some x =>
          refine ⟨Or.inl (.whole hn), ?_⟩
          rintro _ ⟨⟩
          rw [← Nat.not_le, ← Integer.ofInt?_eq_none_iff, hn]
          exact Option.some_ne_none x
  | float x =>
      refine ⟨?_, by simp⟩
      cases x with
      | nan =>
          refine Or.inr ⟨rfl, ?_⟩
          rintro y ⟨⟩
          contradiction
      | _ => exact Or.inl (.float rfl)
  | text s =>
      by_cases hcounts : ∃ x, CountsAs (.text s) x
      · obtain ⟨x, hx⟩ := hcounts
        rw [hx.measure_eq]
        exact ⟨Or.inl hx, by simp⟩
      · rw [measure_text_eq_nan (not_exists.mp hcounts)]
        exact ⟨Or.inr ⟨rfl, not_exists.mp hcounts⟩, by simp⟩
  | _ =>
      refine ⟨Or.inr ⟨rfl, ?_⟩, by simp⟩
      rintro y ⟨⟩

/-- Two values are in order exactly if both have a numeric form and these are in order, as long as
nothing is in order with a NaN. -/
theorem compareMeasures_eq_true_iff {test : Double → Double → Bool}
    (hleft : ∀ y, test .nan y = false) (hright : ∀ x, test x .nan = false) :
    v.compareMeasures test w = .ok true ↔
      ∃ x y, v.CountsAs x ∧ w.CountsAs y ∧ test x y = true := by
  constructor
  · intro h
    simp only [compareMeasures, bind_eq_ok, pure_eq_ok] at h
    obtain ⟨x, hx, y, hy, htest⟩ := h
    obtain ⟨hx | ⟨rfl, -⟩, -⟩ := (contract_measure v).of_ok hx
    · obtain ⟨hy | ⟨rfl, -⟩, -⟩ := (contract_measure w).of_ok hy
      · exact ⟨x, y, hx, hy, htest⟩
      · simp [hright] at htest
    · simp [hleft] at htest
  · rintro ⟨x, y, hx, hy, htest⟩
    rw [compareMeasures, hx.measure_eq, hy.measure_eq]
    exact congrArg Except.ok htest

end Value

namespace Operator

/-- How an operator orders two numbers; those that order nothing are never satisfied. -/
def orders : Operator → Double → Double → Bool
  | .greater, x, y => y.lt x
  | .greaterEqual, x, y => y.le x
  | .less, x, y => x.lt y
  | .lessEqual, x, y => x.le y
  | _, _, _ => false

/-- The operator looks at a value: at the answer, and at the operand if it needs one. -/
def LooksAt (op : Operator) (left right v : Value) : Prop :=
  v = left ∨ v = right ∧ op.needsOperand = true

/-- A comparison of texts fails for an integer that cannot be written, and one of numbers for an
integer beyond the doubles. -/
inductive Faults (op : Operator) (left right : Value) : Fault → Prop where
  | unwritten {v : Value} {e : Fault} (texts : op.isNumeric = false)
      (looked : op.LooksAt left right v) (long : v.TooLong e) : Faults op left right e
  | unmeasured {n : Int} (numbers : op.isNumeric = true)
      (looked : op.LooksAt left right (.int n))
      (large : Magnitude.overflowThreshold ≤ n.natAbs) :
      Faults op left right .integerBeyondDouble

variable {op : Operator} {left right : Value} {e f : Fault}

theorem Faults.unique (he : op.Faults left right e) (hf : op.Faults left right f) : e = f := by
  cases he with
  | unwritten texts _ long => cases hf with
    | unwritten _ _ long' =>
        obtain ⟨-, -⟩ := long
        obtain ⟨-, -⟩ := long'
        rfl
    | unmeasured numbers _ _ => simp [texts] at numbers
  | unmeasured numbers _ _ => cases hf with
    | unwritten texts _ _ => simp [texts] at numbers
    | unmeasured _ _ _ => rfl

theorem apply_eq_compareMeasures (h : op.isNumeric = true) :
    op.apply left right = left.compareMeasures op.orders right := by
  cases op with
  | greater => rfl
  | greaterEqual => rfl
  | less => rfl
  | lessEqual => rfl
  | _ => exact nomatch h

theorem orders_nan_left (op : Operator) (y : Double) : op.orders .nan y = false := by
  cases op with
  | greater => exact y.lt_nan
  | greaterEqual => exact y.le_nan
  | _ => rfl

theorem orders_nan_right (op : Operator) (x : Double) : op.orders x .nan = false := by
  cases op with
  | less => exact x.lt_nan
  | lessEqual => exact x.le_nan
  | _ => rfl

theorem not_faults_of_texts (texts : op.isNumeric = false) (hleft : ∀ e, ¬ left.TooLong e)
    (hright : op.needsOperand = true → ∀ e, ¬ right.TooLong e) : ∀ e, ¬ op.Faults left right e := by
  rintro e (⟨_, rfl | ⟨rfl, hoperand⟩, long⟩ | ⟨numbers, _, _⟩)
  · exact hleft e long
  · exact hright hoperand e long
  · simp [texts] at numbers

theorem contract_apply_numeric (h : op.isNumeric = true) (left right : Value) :
    Contract (op.Faults left right) (fun _ => ∀ e, ¬ op.Faults left right e)
      (op.apply left right) := by
  have hoperand : op.needsOperand = true := by cases op <;> first | rfl | exact nomatch h
  rw [apply_eq_compareMeasures h]
  refine ((Value.contract_measure left).mono ?_).bind fun x hx =>
    ((Value.contract_measure right).mono ?_).bind fun y hy => .pure ?_
  · rintro e ⟨rfl, n, rfl, hn⟩
    exact .unmeasured h (Or.inl rfl) hn
  · rintro e ⟨rfl, n, rfl, hn⟩
    exact .unmeasured h (Or.inr ⟨rfl, hoperand⟩) hn
  · rintro e (⟨texts, _, _⟩ | ⟨_, hlooked | ⟨hlooked, _⟩, large⟩)
    · simp [texts] at h
    · exact Nat.not_lt.mpr large (hx.2 _ hlooked.symm)
    · exact Nat.not_lt.mpr large (hy.2 _ hlooked.symm)

/-- A comparison fails, or there is no reason for it to. -/
theorem contract_apply (op : Operator) (left right : Value) :
    Contract (op.Faults left right) (fun _ => ∀ e, ¬ op.Faults left right e)
      (op.apply left right) := by
  have written (v : Value) (texts : op.isNumeric = false) (looked : op.LooksAt left right v) :
      Contract (op.Faults left right) (fun _ => ∀ e, ¬ v.TooLong e) v.answerText :=
    v.contract_answerText.mono fun _ => .unwritten texts looked
  cases op with
  | greater | greaterEqual | less | lessEqual => exact contract_apply_numeric rfl left right
  | isEmpty =>
      refine (written left rfl (Or.inl rfl)).bind fun _ hleft => .pure ?_
      exact not_faults_of_texts rfl hleft nofun
  | notEmpty =>
      have blank : Contract (notEmpty.Faults left right) (fun _ => ∀ e, ¬ left.TooLong e)
          left.isBlank := (written left rfl (Or.inl rfl)).bind fun _ hleft => .pure hleft
      refine blank.bind fun _ hleft => .pure ?_
      exact not_faults_of_texts rfl hleft nofun
  | equals | notEquals =>
      refine (written left rfl (Or.inl rfl)).bind fun _ hleft =>
        (written right rfl (Or.inr ⟨rfl, rfl⟩)).bind fun _ hright => .pure ?_
      exact not_faults_of_texts rfl hleft fun _ => hright
  | contains =>
      refine (written right rfl (Or.inr ⟨rfl, rfl⟩)).bind fun _ hright => ?_
      have found : ∀ b : Bool, (∀ e, ¬ left.TooLong e) → Contract (contains.Faults left right)
          (fun _ => ∀ e, ¬ contains.Faults left right e) (pure b) := fun _ hleft =>
        .pure (not_faults_of_texts rfl hleft fun _ => hright)
      cases left with
      | list items =>
          refine ((Value.contract_answerTexts items).mono ?_).bind fun _ => found _
          exact fun _ => .unwritten rfl (Or.inl rfl)
      | _ => exact (written _ rfl (Or.inl rfl)).bind fun _ => found _

theorem apply_eq_error_iff : op.apply left right = .error e ↔ op.Faults left right e :=
  (contract_apply op left right).eq_error_iff (fun _ h => h) fun _ _ => Faults.unique

/-- A comparison fails exactly for integers that cannot be written or have no double.  An ordering
holds exactly between numeric forms that are in order, so it is false for a value that has none,
unless the comparison fails for the other one. -/
theorem apply_exact (op : Operator) (left right : Value) :
    (∀ e, op.apply left right = .error e ↔ op.Faults left right e) ∧
      (op.isNumeric = true →
        (op.apply left right = .ok true ↔
          ∃ x y, left.CountsAs x ∧ right.CountsAs y ∧ op.orders x y = true) ∧
        ((∀ x, ¬ left.CountsAs x) ∨ (∀ y, ¬ right.CountsAs y) →
          op.apply left right = .ok false ∨ op.Faults left right .integerBeyondDouble)) := by
  refine ⟨fun e => apply_eq_error_iff, fun hnumeric => ?_⟩
  have htrue : op.apply left right = .ok true ↔
      ∃ x y, left.CountsAs x ∧ right.CountsAs y ∧ op.orders x y = true := by
    rw [apply_eq_compareMeasures hnumeric]
    exact Value.compareMeasures_eq_true_iff op.orders_nan_left op.orders_nan_right
  refine ⟨htrue, fun hnone => ?_⟩
  cases hresult : op.apply left right with
  | error e =>
      have hfault := apply_eq_error_iff.mp hresult
      cases hfault with
      | unwritten texts _ _ => simp [texts] at hnumeric
      | unmeasured numbers looked large => exact Or.inr (.unmeasured numbers looked large)
  | ok b => cases b with
    | false => exact Or.inl rfl
    | true =>
        obtain ⟨x, y, hx, hy, -⟩ := htrue.mp hresult
        rcases hnone with hleft | hright
        · exact absurd hx (hleft x)
        · exact absurd hy (hright y)

/-- Not every comparison gives a truth value: an integer of 310 digits has no double. -/
theorem not_forall_exists_apply :
    ¬ ∀ (op : Operator) (left right : Value), ∃ b, op.apply left right = .ok b := by
  intro h
  obtain ⟨b, hb⟩ := h .greater (.int (10 ^ 309)) (.text "1")
  have hlarge : Magnitude.overflowThreshold ≤ ((10 : Int) ^ 309).natAbs := by decide +kernel
  have hfault : Faults .greater (.int (10 ^ 309)) (.text "1") .integerBeyondDouble :=
    .unmeasured rfl (Or.inl rfl) hlarge
  rw [apply_eq_error_iff.mpr hfault] at hb
  exact nomatch hb

end Operator
end ConditionalForms
