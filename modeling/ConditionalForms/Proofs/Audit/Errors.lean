import ConditionalForms.Audit.Review
import ConditionalForms.Proofs.Sequence
import Mathlib.Data.List.Nodup

/-!
# What the errors of a review say

A review finds no errors in a form exactly if nothing is missing in its normal form.  Every message
starts in its own way, so that errors about repeated names can be told apart from the others.

**Definitions.**
* `Field.IsComplete`, `Form.IsComplete`: what a review asks of fields and of a form.
* `repeatedNameStart`: how errors about repeated names start.

**Results.**
* `Form.errors_eq_nil_iff`: a form without errors is complete and has a program number.
* `Form.ne_of_mem_errors`: without repeated names no error is about one.
-/

namespace ConditionalForms

theorem messageIf_eq_nil_iff {condition : Bool} {message : String} :
    messageIf condition message = [] ↔ condition = false := by
  cases condition <;> simp [messageIf]

theorem mem_messageIf {condition : Bool} {message m : String} :
    m ∈ messageIf condition message ↔ condition = true ∧ m = message := by
  cases condition <;> simp [messageIf]

theorem forall_mem_zipIdx_fst {α : Type} {xs : List α} {P : α → Prop} (start : Nat) :
    (∀ p ∈ xs.zipIdx start, P p.1) ↔ ∀ x ∈ xs, P x := by
  constructor
  · intro h x hx
    rw [← List.zipIdx_map_fst start xs] at hx
    obtain ⟨p, hp, rfl⟩ := List.mem_map.mp hx
    exact h p hp
  · rintro h ⟨x, i⟩ hp
    exact h x (List.fst_mem_of_mem_zipIdx hp)

/-- A field with a label, with options if its kind has any, and with bounds in order. -/
structure Field.IsComplete (f : Field) : Prop where
  label : Text.isAllBlank f.label = false
  options : f.kind.hasOptions = true → f.options ≠ []
  bounds : f.hasCrossedBounds = false

/-- A form with a title, with fields on every step and without repeated names. -/
structure Form.IsComplete (form : Form) : Prop where
  name : Text.isAllBlank form.name = false
  steps : form.steps ≠ []
  filled : ∀ s ∈ form.steps, s.fields ≠ []
  fields : ∀ f ∈ form.fields, f.IsComplete
  distinct : form.fieldNames.Nodup

namespace Field

variable {f : Field} {place m : String}

theorem errors_eq_nil_iff : f.errors place = [] ↔ f.IsComplete := by
  simp only [errors, List.append_eq_nil_iff, messageIf_eq_nil_iff]
  constructor
  · rintro ⟨⟨hlabel, hoptions⟩, hbounds⟩
    refine ⟨hlabel, ?_, hbounds⟩
    intro hkind hnil
    simp [hkind, hnil] at hoptions
  · rintro ⟨hlabel, hoptions, hbounds⟩
    refine ⟨⟨hlabel, ?_⟩, hbounds⟩
    cases hkind : f.kind.hasOptions with
    | false => rfl
    | true => simpa using hoptions hkind

theorem exists_of_mem_errors (h : m ∈ f.errors place) : ∃ rest, m = place ++ rest := by
  simp only [errors, List.mem_append, mem_messageIf, String.append_assoc] at h
  rcases h with (⟨-, rfl⟩ | ⟨-, rfl⟩) | ⟨-, rfl⟩ <;> exact ⟨_, rfl⟩

end Field

namespace Step

variable {s : Step} {index : Nat} {m : String}

theorem errors_eq_nil_iff :
    s.errors index = [] ↔ s.fields ≠ [] ∧ ∀ f ∈ s.fields, f.IsComplete := by
  rw [errors, List.append_eq_nil_iff, messageIf_eq_nil_iff, List.flatMap_eq_nil_iff]
  simp only [Field.errors_eq_nil_iff]
  rw [forall_mem_zipIdx_fst (P := Field.IsComplete), List.isEmpty_eq_false_iff]

theorem exists_of_mem_errors (h : m ∈ s.errors index) : ∃ rest, m = "Step " ++ rest := by
  rw [errors, List.mem_append, mem_messageIf, List.mem_flatMap] at h
  rcases h with ⟨-, rfl⟩ | ⟨⟨f, i⟩, -, h⟩
  · exact ⟨_, String.append_assoc⟩
  · obtain ⟨rest, rfl⟩ := Field.exists_of_mem_errors h
    simp only [String.append_assoc]
    exact ⟨_, rfl⟩

end Step

/-- How an error about a repeated name starts. -/
def repeatedNameStart : String := "Duplicate field name '"

theorem ne_repeatedNameStart {m : String} (h : m.toList.head? ≠ some 'D') (rest : String) :
    m ≠ repeatedNameStart ++ rest := by
  rintro rfl
  simp [repeatedNameStart] at h

namespace Form

variable {form : Form} {errors : List String} {m : String}

theorem repeatedNames_eq_nil_iff : form.repeatedNames = [] ↔ form.fieldNames.Nodup := by
  rw [repeatedNames, List.filter_eq_nil_iff, List.nodup_iff_count_le_one]
  constructor
  · intro h name
    by_cases hmem : name ∈ form.fieldNames
    · simpa using h name hmem
    · rw [List.count_eq_zero_of_not_mem hmem]
      exact Nat.zero_le 1
  · intro h name _
    simpa using h name

theorem repeatedNameErrors_eq_nil_iff :
    form.repeatedNameErrors = [] ↔ form.fieldNames.Nodup := by
  rw [repeatedNameErrors, List.map_eq_nil_iff, ← repeatedNames_eq_nil_iff, sortedNames]
  constructor
  · intro h
    have hlength := congrArg List.length h
    rw [List.length_mergeSort, List.length_nil] at hlength
    cases hnames : form.repeatedNames with
    | nil => rfl
    | cons name rest => simp [hnames, List.eraseDups_cons] at hlength
  · intro h
    simp [h]

/-- A form in normal form has no errors exactly if it is complete and has a program number. -/
theorem errors_eq_nil_iff :
    form.errors = .ok [] ↔
      (∃ n, programNumber? (.text form.program) = .ok (some n)) ∧ form.IsComplete := by
  have hsteps : (form.placedSteps.flatMap fun p => p.2.errors p.1) = [] ↔
      ∀ s ∈ form.steps, s.fields ≠ [] ∧ ∀ f ∈ s.fields, f.IsComplete := by
    rw [placedSteps, List.flatMap_map, List.flatMap_eq_nil_iff]
    simp only [Step.errors_eq_nil_iff]
    exact forall_mem_zipIdx_fst (P := fun s : Step => s.fields ≠ [] ∧ ∀ f ∈ s.fields, f.IsComplete) 0
  simp only [Form.errors, bind_eq_ok, pure_eq_ok, List.append_eq_nil_iff, messageIf_eq_nil_iff,
    repeatedNameErrors_eq_nil_iff]
  constructor
  · rintro ⟨program, hprogram, ⟨⟨⟨⟨hname, hnumber⟩, hstep⟩, -⟩, hall⟩, hdistinct⟩
    obtain ⟨n, rfl⟩ := Option.isSome_iff_exists.mp (by simpa using hnumber)
    have hstepwise := hsteps.mp hall
    refine ⟨⟨n, hprogram⟩, hname, by simpa using hstep, ?_, ?_, hdistinct⟩
    · intro s hs
      exact (hstepwise s hs).1
    · intro f hf
      obtain ⟨s, hs, hfs⟩ := List.mem_flatMap.mp hf
      exact (hstepwise s hs).2 f hfs
  · rintro ⟨⟨n, hprogram⟩, h⟩
    obtain ⟨s, hs⟩ := List.exists_mem_of_ne_nil _ h.steps
    obtain ⟨f, hf⟩ := List.exists_mem_of_ne_nil _ (h.filled s hs)
    have hfields : form.fields ≠ [] := List.ne_nil_of_mem (List.mem_flatMap.mpr ⟨s, hs, hf⟩)
    refine ⟨some n, hprogram, ⟨⟨⟨⟨h.name, rfl⟩, ?_⟩, ?_⟩, ?_⟩, h.distinct⟩
    · simpa using h.steps
    · simpa using hfields
    · refine hsteps.mpr fun s hs => ?_
      exact ⟨h.filled s hs, fun f hf => h.fields f (List.mem_flatMap.mpr ⟨s, hs, hf⟩)⟩

/-- Without repeated names no error is about one. -/
theorem ne_of_mem_errors (hnames : form.fieldNames.Nodup) (h : form.errors = .ok errors)
    (hm : m ∈ errors) : ∀ rest, m ≠ repeatedNameStart ++ rest := by
  simp only [Form.errors, bind_eq_ok, pure_eq_ok] at h
  obtain ⟨program, -, rfl⟩ := h
  rw [repeatedNameErrors_eq_nil_iff.mpr hnames] at hm
  simp only [List.mem_append, mem_messageIf, List.mem_flatMap] at hm
  apply ne_repeatedNameStart
  rcases hm with ((((⟨-, rfl⟩ | ⟨-, rfl⟩) | ⟨-, rfl⟩) | ⟨-, rfl⟩) | ⟨⟨i, s⟩, -, hs⟩) | hm
  · decide
  · decide
  · decide
  · decide
  · obtain ⟨rest, rfl⟩ := Step.exists_of_mem_errors hs
    simp
  · simp at hm

end Form

end ConditionalForms
