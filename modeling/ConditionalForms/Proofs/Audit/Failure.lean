import ConditionalForms.Proofs.Audit.Errors
import ConditionalForms.Proofs.Document.Failure
import ConditionalForms.Proofs.Document.RoundTrip
import ConditionalForms.Proofs.Number.Numeral

/-!
# What a review comes to

A form whose widths and spans are of ordinary size is reviewed without failing, up to one thing: the
program.  A program that is no numeral is an error of the review.  A numeral of decimal digits is
read, whatever their script.  But a numeral with other digits, or with too many of them, is no
error of the review: the review fails.

**Definitions.**
* `Form.IsModest`: the widths and spans are of ordinary size, and the operands of rules are texts or
  missing.

**Results.**
* `Form.IsModest.failsOnly_normalize`: such a form has a normal form.
* `contract_programNumber?`: what reading a program comes to.
* `Form.review_exact`: a review fails exactly for the program, and says so exactly if the program
  stands for no number.
-/

namespace ConditionalForms

/-- A span of ordinary size, and rules with texts for operands. -/
structure Field.IsModest (f : Field) : Prop where
  span : f.span.natAbs ≤ 2 ^ 53
  logic : ∀ g ∈ f.logic, ∀ r ∈ g.rules, r.IsTyped

/-- A width of ordinary size, modest fields, and rules with texts for operands. -/
structure Step.IsModest (s : Step) : Prop where
  columns : s.columns.natAbs ≤ 2 ^ 53
  fields : ∀ f ∈ s.fields, f.IsModest
  logic : ∀ g ∈ s.logic, ∀ r ∈ g.rules, r.IsTyped

/-- A width of ordinary size, and modest steps. -/
structure Form.IsModest (form : Form) : Prop where
  columns : form.columns.natAbs ≤ 2 ^ 53
  steps : ∀ s ∈ form.steps, s.IsModest

theorem Field.IsModest.failsOnly_normalize {f : Field} (h : f.IsModest) (columns : Int)
    (number : Nat) : FailsOnly (fun _ => False) (f.normalize columns number) := by
  rw [normalize, Grid.span_int (Integer.isExact_of_natAbs_le h.span), ok_bind]
  exact (RuleGroup.failsOnly_cleanLogic h.logic _).bind fun logic => .pure _

theorem Step.IsModest.failsOnly_normalize {s : Step} (h : s.IsModest) (index : Nat) :
    FailsOnly (fun _ => False) (s.normalize index) := by
  rw [normalize, Grid.columnCount_int (Integer.isExact_of_natAbs_le h.columns), ok_bind]
  refine FailsOnly.bind ?_ fun fields => (RuleGroup.failsOnly_cleanLogic h.logic _).bind
    fun logic => .pure _
  refine (contract_mapFrom (S := fun _ => True) fun i f hf => ?_).failsOnly
  exact (h.fields f hf).failsOnly_normalize _ _

theorem Form.IsModest.failsOnly_normalize {form : Form} (h : form.IsModest) :
    FailsOnly (fun _ => False) form.normalize := by
  rw [normalize, Grid.columnCount_int (Integer.isExact_of_natAbs_le h.columns)]
  refine FailsOnly.bind ?_ fun steps => .pure _
  refine (contract_mapFrom (S := fun _ => True) fun i s hs => ?_).failsOnly
  exact (h.steps s hs).failsOnly_normalize i

/-- A program has a number exactly if it stands for one, unless it is a numeral that is not read. -/
theorem contract_programNumber? (text : String) :
    Contract (Integer.Unreadable (Text.trim text))
      (fun number => (number = none ↔ ¬ ∃ n, Text.Denotes (Text.trim text) n) ∧
        ∀ e, ¬ Integer.Unreadable (Text.trim text) e)
      (programNumber? (.text text)) := by
  rw [Form.programNumber?_text]
  generalize Text.trim text = s
  split
  case isTrue hnumeral =>
    refine (Integer.contract_readNumeral hnumeral).map ?_
    rintro n ⟨⟨m, -, hm⟩, hfree⟩
    exact ⟨by simpa using ⟨m, hm⟩, hfree⟩
  case isFalse hnumeral =>
    refine ⟨iff_of_true rfl ?_, fun e he => hnumeral he.isNumeral⟩
    rintro ⟨n, hn⟩
    exact hnumeral hn.isNumeral

namespace Form

variable {form : Form} {errors : List String} {program : Option Int} {e : Fault}

/-- Only a program without a number is said to have none. -/
theorem mem_errors_program_iff (hprogram : programNumber? (.text form.program) = .ok program)
    (h : form.errors = .ok errors) : "Valid program ID is required" ∈ errors ↔ program = none := by
  rw [Form.errors, hprogram, ok_bind, pure_eq_ok] at h
  subst h
  simp only [List.mem_append, mem_messageIf, List.mem_flatMap]
  constructor
  · rintro (((((⟨-, h⟩ | ⟨h, -⟩) | ⟨-, h⟩) | ⟨-, h⟩) | ⟨⟨i, s⟩, -, h⟩) | h)
    · exact absurd h (by decide)
    · simpa using h
    · exact absurd h (by decide)
    · exact absurd h (by decide)
    · obtain ⟨rest, h⟩ := Step.exists_of_mem_errors h
      have hstart := congrArg (·.toList.head?) h
      simp at hstart
    · obtain ⟨name, -, h⟩ := List.mem_map.mp h
      simp only [String.append_assoc] at h
      exact absurd h.symm (ne_repeatedNameStart (by decide) _)
  · rintro rfl
    simp

/-- A form in normal form has its errors unless its program is a numeral that is not read. -/
theorem contract_errors (form : Form) :
    Contract (Integer.Unreadable (Text.trim form.program))
      (fun errors => ("Valid program ID is required" ∈ errors ↔
          ¬ ∃ n, Text.Denotes (Text.trim form.program) n) ∧
        ∀ e, ¬ Integer.Unreadable (Text.trim form.program) e)
      form.errors := by
  have hfails : FailsOnly (Integer.Unreadable (Text.trim form.program)) form.errors :=
    (contract_programNumber? form.program).failsOnly.bind fun _ => .pure _
  refine hfails.contract fun errors h => ?_
  obtain ⟨program, hprogram, -⟩ := bind_eq_ok.mp h
  rw [mem_errors_program_iff hprogram h]
  exact (contract_programNumber? form.program).of_ok hprogram

/-- The review of a modest form has the errors of its normal form. -/
theorem IsModest.contract_review (h : form.IsModest) :
    Contract (Integer.Unreadable (Text.trim form.program))
      (fun r => ("Valid program ID is required" ∈ r.errors ↔
          ¬ ∃ n, Text.Denotes (Text.trim form.program) n) ∧
        ∀ e, ¬ Integer.Unreadable (Text.trim form.program) e)
      form.review := by
  have hnormalize : FailsOnly (Integer.Unreadable (Text.trim form.program)) form.normalize :=
    h.failsOnly_normalize.mono fun _ => False.elim
  refine (hnormalize.contract fun _ hn => hn).bind fun normal hnormal => ?_
  obtain ⟨steps, columns, -, -, rfl⟩ := normalize_eq_ok hnormal
  exact (contract_errors _).bind fun errors herrors => .pure herrors

theorem IsModest.review_eq_error_iff (h : form.IsModest) :
    form.review = .error e ↔ Integer.Unreadable (Text.trim form.program) e :=
  h.contract_review.eq_error_iff (fun _ hr => hr.2) fun _ _ => Integer.Unreadable.unique

/-- The review of a modest form fails exactly if its program is a numeral that is not read.  A
review that there is has the error of a missing program exactly if the program stands for no
number. -/
theorem review_exact (h : form.IsModest) :
    (∀ e, form.review = .error e ↔ Integer.Unreadable (Text.trim form.program) e) ∧
      ∀ r, form.review = .ok r → ("Valid program ID is required" ∈ r.errors ↔
        ¬ ∃ n, Text.Denotes (Text.trim form.program) n) :=
  ⟨fun _ => h.review_eq_error_iff, fun _ hr => (h.contract_review.of_ok hr).1⟩

/-- A form whose program is a superscript. -/
def squareTrip : Form :=
  ⟨"Trip", "", "²", 1, [⟨"s1", "s1", "Details", "",
    [{ Field.plain "f1" "school" "School" with span := 1 }], false, 1, none⟩]⟩

theorem isModest_squareTrip : squareTrip.IsModest := by
  refine ⟨by decide, ?_⟩
  intro s hs
  obtain rfl := List.mem_singleton.mp hs
  refine ⟨by decide, ?_, nofun⟩
  intro f hf
  obtain rfl := List.mem_singleton.mp hf
  exact ⟨by decide, nofun⟩

theorem unreadable_squareTrip :
    Integer.Unreadable (Text.trim squareTrip.program) (.notDecimal "²") := by
  have htrim : Text.trim squareTrip.program = "²" := by decide +kernel
  rw [htrim]
  exact .notDecimal (c := '²') (by decide +kernel) (by decide +kernel) (by decide +kernel)
    (by decide +kernel)

/-- A review of the form fails: its program is a numeral and stands for no number. -/
theorem review_squareTrip :
    squareTrip.IsModest ∧ squareTrip.review = .error (.notDecimal "²") :=
  ⟨isModest_squareTrip, ((review_exact isModest_squareTrip).1 _).mpr unreadable_squareTrip⟩

/-- Not every modest form is reviewed, so that the missing program is not always said. -/
theorem not_forall_exists_review :
    ¬ ∀ form : Form, form.IsModest → ∃ r, form.review = .ok r := by
  intro h
  obtain ⟨r, hr⟩ := h squareTrip isModest_squareTrip
  rw [isModest_squareTrip.review_eq_error_iff.mpr unreadable_squareTrip] at hr
  exact nomatch hr

end Form
end ConditionalForms
