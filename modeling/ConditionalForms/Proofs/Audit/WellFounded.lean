import ConditionalForms.Proofs.Audit.Cycle
import ConditionalForms.Proofs.Audit.Report

/-!
# Well-founded forms

A form is well founded if everything that a rule looks at is there and known by then: rules point at
fields of the form, those of a field at other fields no later than its own step, those of a step at
fields of earlier steps, and no field waits for itself over others.  The report is put together by
separate passes over steps, fields and edges; it has no warnings for well-founded forms and for no
others.

**Definitions.**
* `Form.DependsOn`: a field with the first name has a rule that points at a field with the second.
* `Form.IsWellFounded`: all that the rules of a form should satisfy.

**Results.**
* `Form.warnings_eq_nil_iff_findings`: there are no warnings exactly if there are no findings.
* `Form.warnings_eq_nil_iff`: there are no warnings exactly if the form is well founded.
-/

namespace ConditionalForms
namespace Form

open Relation (TransGen)

variable {form : Form}

/-- A field with the first name has a rule that points at the second name, which a field has. -/
def DependsOn (form : Form) (a b : String) : Prop :=
  ∃ f ∈ form.fields, f.name = a ∧ b ∈ referencesOf f.logic ∧ b ∈ form.fieldNames

/-- Rules point at fields that are there and come early enough, steps compare no numbers, and fields
do not wait for each other. -/
structure IsWellFounded (form : Form) : Prop where
  known : ∀ name, form.RefersTo name → name ∈ form.fieldNames
  fields : ∀ (i : Nat) (s : Step), form.steps[i]? = some s → ∀ f ∈ s.fields,
    ∀ name ∈ referencesOf f.logic, name ≠ f.name ∧ ∀ j, form.StandsIn name j → j ≤ i
  steps : ∀ (i : Nat) (s : Step), form.steps[i]? = some s → ∀ name ∈ referencesOf s.logic,
    ∀ j, form.StandsIn name j → j < i
  operators : ∀ s ∈ form.steps, ∀ r ∈ rulesOf s.logic, r.operator.isNumeric = false
  acyclic : ∀ a, ¬ TransGen form.DependsOn a a

/-- There are no warnings exactly if every pass over the form finds nothing. -/
theorem warnings_eq_nil_iff_findings :
    form.report.warnings = [] ↔
      form.danglingNames = [] ∧ form.forwardFromSteps = [] ∧ form.forwardFromFields = [] ∧
        (form.fieldReferences.filter fun p => p.2.2 = p.2.1.name) = [] ∧
        form.numericOnSteps = [] ∧ form.dependencies.findCycle? = none := by
  cases hcycle : form.dependencies.findCycle? with
  | none =>
      simp only [report, hcycle, eraseDups_eq_nil_iff, List.append_eq_nil_iff, List.map_eq_nil_iff,
        namesWarning_eq_nil_iff, sortedNames_eq_nil_iff]
      tauto
  | some names => simp [report, hcycle, eraseDups_eq_nil_iff]

theorem danglingNames_eq_nil_iff :
    form.danglingNames = [] ↔ ∀ name, form.RefersTo name → name ∈ form.fieldNames := by
  simp only [List.eq_nil_iff_forall_not_mem, mem_danglingNames_iff, not_and, not_not]

theorem forwardFromSteps_eq_nil_iff (hdistinct : form.fieldNames.Nodup) :
    form.forwardFromSteps = [] ↔
      ∀ (i : Nat) (s : Step), form.steps[i]? = some s → ∀ name ∈ referencesOf s.logic,
        ∀ j, form.StandsIn name j → j < i := by
  rw [forwardFromSteps, List.filterMap_eq_nil_iff]
  constructor
  · intro h i s hs name hname j hj
    have hfound := h (i, s, name) (mem_stepReferences.mpr ⟨hs, hname⟩)
    simp only [(stepOfField?_eq_some_iff hdistinct).mpr hj] at hfound
    by_contra hle
    simp [Nat.le_of_not_lt hle] at hfound
  · rintro h ⟨i, s, name⟩ hmem
    obtain ⟨hs, hname⟩ := mem_stepReferences.mp hmem
    cases hfound : form.stepOfField? name with
    | none => simp [hfound]
    | some j =>
        have hlt := h i s hs name hname j ((stepOfField?_eq_some_iff hdistinct).mp hfound)
        simp [hfound, Nat.not_le_of_lt hlt]

theorem forwardFromFields_eq_nil_iff (hdistinct : form.fieldNames.Nodup) :
    form.forwardFromFields = [] ↔
      ∀ (i : Nat) (s : Step), form.steps[i]? = some s → ∀ f ∈ s.fields,
        ∀ name ∈ referencesOf f.logic, name ≠ f.name → ∀ j, form.StandsIn name j → j ≤ i := by
  rw [forwardFromFields, List.filterMap_eq_nil_iff]
  constructor
  · intro h i s hs f hf name hname hne j hj
    have hmem : (i, f, name) ∈ form.outwardReferences :=
      mem_outwardReferences.mpr ⟨mem_fieldReferences.mpr ⟨s, hs, hf, hname⟩, hne⟩
    have hfound := h (i, f, name) hmem
    simp only [(stepOfField?_eq_some_iff hdistinct).mpr hj] at hfound
    by_contra hle
    simp [Nat.lt_of_not_le hle] at hfound
  · rintro h ⟨i, f, name⟩ hmem
    obtain ⟨hreference, hne⟩ := mem_outwardReferences.mp hmem
    obtain ⟨s, hs, hf, hname⟩ := mem_fieldReferences.mp hreference
    cases hfound : form.stepOfField? name with
    | none => simp [hfound]
    | some j =>
        have hle := h i s hs f hf name hname hne j ((stepOfField?_eq_some_iff hdistinct).mp hfound)
        simp [hfound, Nat.not_lt_of_le hle]

theorem selfReferences_eq_nil_iff :
    (form.fieldReferences.filter fun p => p.2.2 = p.2.1.name) = [] ↔
      ∀ f ∈ form.fields, ∀ name ∈ referencesOf f.logic, name ≠ f.name := by
  rw [List.filter_eq_nil_iff]
  constructor
  · rintro h f hf name hname heq
    obtain ⟨i, s, hs, hfs⟩ := mem_fields_iff.mp hf
    exact h (i, f, name) (mem_fieldReferences.mpr ⟨s, hs, hfs, hname⟩) (by simpa using heq)
  · rintro h ⟨i, f, name⟩ hmem heq
    obtain ⟨s, hs, hfs, hname⟩ := mem_fieldReferences.mp hmem
    exact h f (mem_fields_iff.mpr ⟨i, s, hs, hfs⟩) name hname (by simpa using heq)

theorem numericOnSteps_eq_nil_iff :
    form.numericOnSteps = [] ↔
      ∀ s ∈ form.steps, ∀ r ∈ rulesOf s.logic, r.operator.isNumeric = false := by
  simp [numericOnSteps, List.flatMap_eq_nil_iff, List.filter_eq_nil_iff, Operator.allowedOnSteps]

/-- Where no field refers to itself, the edges between fields are all that fields depend on. -/
theorem leads_eq_dependsOn
    (hself : ∀ f ∈ form.fields, ∀ name ∈ referencesOf f.logic, name ≠ f.name) :
    form.dependencies.Leads = form.DependsOn := by
  funext a b
  refine propext ?_
  rw [Edges.Leads, leads_dependencies_iff]
  constructor
  · rintro ⟨f, hf, hname, hb, -, hmem⟩
    exact ⟨f, hf, hname, hb, hmem⟩
  · rintro ⟨f, hf, rfl, hb, hmem⟩
    exact ⟨f, hf, rfl, hb, hself f hf b hb, hmem⟩

/-- Where no name is repeated, the report has no warnings exactly if the form is well founded. -/
theorem warnings_eq_nil_iff (hdistinct : form.fieldNames.Nodup) :
    form.report.warnings = [] ↔ form.IsWellFounded := by
  rw [warnings_eq_nil_iff_findings, danglingNames_eq_nil_iff, forwardFromSteps_eq_nil_iff hdistinct,
    forwardFromFields_eq_nil_iff hdistinct, selfReferences_eq_nil_iff, numericOnSteps_eq_nil_iff,
    Edges.findCycle?_eq_none_iff]
  constructor
  · rintro ⟨hknown, hsteps, hfields, hself, hoperators, hacyclic⟩
    refine ⟨hknown, ?_, hsteps, hoperators, leads_eq_dependsOn hself ▸ hacyclic⟩
    intro i s hs f hf name hname
    have hne := hself f (mem_fields_iff.mpr ⟨i, s, hs, hf⟩) name hname
    exact ⟨hne, hfields i s hs f hf name hname hne⟩
  · intro h
    have hself : ∀ f ∈ form.fields, ∀ name ∈ referencesOf f.logic, name ≠ f.name := by
      intro f hf name hname
      obtain ⟨i, s, hs, hfs⟩ := mem_fields_iff.mp hf
      exact (h.fields i s hs f hfs name hname).1
    refine ⟨h.known, h.steps, ?_, hself, h.operators, (leads_eq_dependsOn hself).symm ▸ h.acyclic⟩
    intro i s hs f hf name hname _
    exact (h.fields i s hs f hf name hname).2

/-- A form of two steps: the second one is shown to those who bring a tent, and asks for the school
of everyone older than twelve. -/
def campForm : Form :=
  { name := "Camp", description := "", program := "7", columns := 1
    steps :=
      [{ id := "stay", key := "stay", title := "Stay", description := "", perParticipant := false
         columns := 1, logic := none
         fields := [Field.plain "f-tent" "tent" "Tent", Field.plain "f-age" "age" "Age"] },
       { id := "school", key := "school", title := "School", description := ""
         perParticipant := false, columns := 1
         logic := some ⟨.all, [⟨"tent", .equals, .text "yes"⟩]⟩
         fields :=
          [{ Field.plain "f-school" "school" "School" with
              logic := some ⟨.all, [⟨"answers.age", .greater, .text "12"⟩]⟩ }] }] }

theorem isWellFounded_campForm :
    campForm.fieldNames.Nodup ∧ campForm.report.warnings = [] ∧ campForm.IsWellFounded :=
  ⟨by decide, by decide +kernel, (warnings_eq_nil_iff (by decide)).mp (by decide +kernel)⟩

end Form

end ConditionalForms
