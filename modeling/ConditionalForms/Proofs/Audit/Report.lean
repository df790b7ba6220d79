import ConditionalForms.Audit.Report
import ConditionalForms.Proofs.Form.Normal
import Mathlib.Data.List.Nodup

/-!
# What a report says

The findings of a report are lists that are put together from the steps and fields of a form.  The
lemmas of this module read them as statements about these steps and fields.

**Definitions.**
* `Form.StandsIn`: a field with the name stands in the step at a position.

**Results.**
* `Form.mem_stepReferences`, `Form.mem_fieldReferences`: what rules of steps and fields refer to.
* `Form.standsIn_unique`: where names are distinct, a name stands in one step.
* `Form.stepOfField?_eq_some_iff`: the step that is looked up for a name.
* `Form.mem_dangling_iff`: exactly the names that are referred to and missing dangle.
* `Form.leads_dependencies_iff`: the edges between fields.
-/

namespace ConditionalForms

theorem mem_sortedNames {names : List String} {name : String} :
    name ∈ sortedNames names ↔ name ∈ names := by
  rw [sortedNames, List.mem_mergeSort, List.mem_eraseDups]

theorem eraseDups_eq_nil_iff {α : Type} [BEq α] [LawfulBEq α] {xs : List α} :
    xs.eraseDups = [] ↔ xs = [] := by
  simp only [List.eq_nil_iff_forall_not_mem, List.mem_eraseDups]

theorem sortedNames_eq_nil_iff {names : List String} : sortedNames names = [] ↔ names = [] := by
  simp only [List.eq_nil_iff_forall_not_mem, mem_sortedNames]

namespace Form

variable {form : Form} {i j : Nat} {s : Step} {f : Field} {name : String}

/-- A field with the name stands in the step at a position. -/
def StandsIn (form : Form) (name : String) (i : Nat) : Prop :=
  ∃ s f, form.steps[i]? = some s ∧ f ∈ s.fields ∧ f.name = name

theorem namesWarning_eq_nil_iff {start : String} {names : List String} :
    namesWarning start names = [] ↔ names = [] := by
  unfold namesWarning
  split
  · rename_i h
    simpa using h
  · rename_i h
    simpa using h

theorem mem_placedSteps : (i, s) ∈ form.placedSteps ↔ form.steps[i]? = some s := by
  simp [placedSteps, List.mem_zipIdx_iff_getElem?]

theorem mem_placedFields :
    (i, s, f) ∈ form.placedFields ↔ form.steps[i]? = some s ∧ f ∈ s.fields := by
  simp only [placedFields, List.mem_flatMap, Prod.exists, List.mem_map, Prod.mk.injEq,
    mem_placedSteps]
  constructor
  · rintro ⟨_, _, hs, _, hf, rfl, rfl, rfl⟩
    exact ⟨hs, hf⟩
  · rintro ⟨hs, hf⟩
    exact ⟨i, s, hs, f, hf, rfl, rfl, rfl⟩

theorem mem_fieldNames_iff : name ∈ form.fieldNames ↔ ∃ f ∈ form.fields, f.name = name := by
  rw [fieldNames, List.mem_map]

theorem mem_fields_iff :
    f ∈ form.fields ↔ ∃ (i : Nat) (s : Step), form.steps[i]? = some s ∧ f ∈ s.fields := by
  rw [fields, List.mem_flatMap]
  constructor
  · rintro ⟨s, hs, hf⟩
    obtain ⟨i, hi⟩ := List.mem_iff_getElem?.mp hs
    exact ⟨i, s, hi, hf⟩
  · rintro ⟨i, s, hi, hf⟩
    exact ⟨s, List.mem_of_getElem? hi, hf⟩

theorem mem_fieldNames_iff_standsIn : name ∈ form.fieldNames ↔ ∃ i, form.StandsIn name i := by
  rw [mem_fieldNames_iff]
  constructor
  · rintro ⟨f, hf, hname⟩
    obtain ⟨i, s, hi, hfs⟩ := mem_fields_iff.mp hf
    exact ⟨i, s, f, hi, hfs, hname⟩
  · rintro ⟨i, s, f, hi, hfs, hname⟩
    exact ⟨f, mem_fields_iff.mpr ⟨i, s, hi, hfs⟩, hname⟩

theorem hasField_iff : form.hasField name = true ↔ name ∈ form.fieldNames := List.contains_iff_mem

/-- Where no name is repeated, a name stands in one step. -/
theorem standsIn_unique (hdistinct : form.fieldNames.Nodup) (hi : form.StandsIn name i)
    (hj : form.StandsIn name j) : i = j := by
  rw [fieldNames_eq, List.nodup_flatMap, List.pairwise_iff_getElem] at hdistinct
  obtain ⟨s, f, hs, hf, rfl⟩ := hi
  obtain ⟨t, g, ht, hg, hname⟩ := hj
  obtain ⟨hi, rfl⟩ := List.getElem?_eq_some_iff.mp hs
  obtain ⟨hj, rfl⟩ := List.getElem?_eq_some_iff.mp ht
  have hfn : f.name ∈ form.steps[i].names := List.mem_map_of_mem hf
  have hgn : f.name ∈ form.steps[j].names := hname ▸ List.mem_map_of_mem hg
  rcases Nat.lt_trichotomy i j with h | h | h
  · exact absurd hgn (hdistinct.2 i j hi hj h hfn)
  · exact h
  · exact absurd hfn (hdistinct.2 j i hj hi h hgn)

theorem standsIn_of_stepOfField? (h : form.stepOfField? name = some i) : form.StandsIn name i := by
  obtain ⟨⟨k, s, f⟩, hfind, rfl⟩ := Option.map_eq_some_iff.mp h
  obtain ⟨hs, hf⟩ := mem_placedFields.mp (List.mem_of_find?_eq_some hfind)
  have hname := List.find?_some hfind
  exact ⟨s, f, hs, hf, by simpa using hname⟩

theorem stepOfField?_eq_none_iff : form.stepOfField? name = none ↔ name ∉ form.fieldNames := by
  rw [stepOfField?, Option.map_eq_none_iff, List.find?_eq_none, mem_fieldNames_iff_standsIn]
  constructor
  · rintro h ⟨i, s, f, hs, hf, hname⟩
    exact h (i, s, f) (mem_placedFields.mpr ⟨hs, hf⟩) (by simpa using hname)
  · rintro h ⟨i, s, f⟩ hplaced hname
    obtain ⟨hs, hf⟩ := mem_placedFields.mp hplaced
    exact h ⟨i, s, f, hs, hf, by simpa using hname⟩

/-- Where no name is repeated, the step that is looked up for a name is the one it stands in. -/
theorem stepOfField?_eq_some_iff (hdistinct : form.fieldNames.Nodup) :
    form.stepOfField? name = some i ↔ form.StandsIn name i := by
  constructor
  · exact standsIn_of_stepOfField?
  · intro hi
    cases hfound : form.stepOfField? name with
    | none =>
        have hmem := mem_fieldNames_iff_standsIn.mpr ⟨i, hi⟩
        exact absurd hmem (stepOfField?_eq_none_iff.mp hfound)
    | some j => rw [standsIn_unique hdistinct hi (standsIn_of_stepOfField? hfound)]

theorem mem_stepReferences :
    (i, s, name) ∈ form.stepReferences ↔ form.steps[i]? = some s ∧ name ∈ referencesOf s.logic := by
  simp only [stepReferences, List.mem_flatMap, Prod.exists, List.mem_map, Prod.mk.injEq,
    mem_placedSteps]
  constructor
  · rintro ⟨_, _, hs, _, hname, rfl, rfl, rfl⟩
    exact ⟨hs, hname⟩
  · rintro ⟨hs, hname⟩
    exact ⟨i, s, hs, name, hname, rfl, rfl, rfl⟩

theorem mem_fieldReferences :
    (i, f, name) ∈ form.fieldReferences ↔
      ∃ s, form.steps[i]? = some s ∧ f ∈ s.fields ∧ name ∈ referencesOf f.logic := by
  simp only [fieldReferences, List.mem_flatMap, Prod.exists, List.mem_map, Prod.mk.injEq,
    mem_placedFields]
  constructor
  · rintro ⟨_, s, _, ⟨hs, hf⟩, _, hname, rfl, rfl, rfl⟩
    exact ⟨s, hs, hf, hname⟩
  · rintro ⟨s, hs, hf, hname⟩
    exact ⟨i, s, f, ⟨hs, hf⟩, name, hname, rfl, rfl, rfl⟩

theorem mem_outwardReferences :
    (i, f, name) ∈ form.outwardReferences ↔
      (i, f, name) ∈ form.fieldReferences ∧ name ≠ f.name := by
  simp [outwardReferences]

/-- A rule of a step or of a field points at the answer of the name. -/
def RefersTo (form : Form) (name : String) : Prop :=
  (∃ s ∈ form.steps, name ∈ referencesOf s.logic) ∨ ∃ f ∈ form.fields, name ∈ referencesOf f.logic

theorem mem_danglingNames_iff :
    name ∈ form.danglingNames ↔ form.RefersTo name ∧ name ∉ form.fieldNames := by
  have hhas : (!form.hasField name) = true ↔ name ∉ form.fieldNames := by
    rw [Bool.not_eq_true', ← Bool.not_eq_true, hasField_iff]
  rw [danglingNames, List.mem_filter, hhas, List.mem_append, and_congr_left_iff]
  intro hmissing
  refine or_congr ?_ ?_
  · simp only [List.mem_map, Prod.exists, mem_stepReferences]
    constructor
    · rintro ⟨i, s, _, ⟨hs, hname⟩, rfl⟩
      exact ⟨s, List.mem_of_getElem? hs, hname⟩
    · rintro ⟨s, hs, hname⟩
      obtain ⟨i, hi⟩ := List.mem_iff_getElem?.mp hs
      exact ⟨i, s, name, ⟨hi, hname⟩, rfl⟩
  · simp only [List.mem_map, Prod.exists, mem_outwardReferences, mem_fieldReferences]
    constructor
    · rintro ⟨i, f, _, ⟨⟨s, hs, hf, hname⟩, -⟩, rfl⟩
      exact ⟨f, mem_fields_iff.mpr ⟨i, s, hs, hf⟩, hname⟩
    · rintro ⟨f, hf, hname⟩
      obtain ⟨i, s, hs, hfs⟩ := mem_fields_iff.mp hf
      refine ⟨i, f, name, ⟨⟨s, hs, hfs, hname⟩, ?_⟩, rfl⟩
      -- A field has its own name, so that a missing one is never a reference to itself.
      rintro rfl
      exact hmissing (mem_fieldNames_iff.mpr ⟨f, hf, rfl⟩)

/-- Exactly the names that some rule points at and no field has dangle. -/
theorem mem_dangling_iff :
    name ∈ form.report.dangling ↔ form.RefersTo name ∧ name ∉ form.fieldNames := by
  rw [← mem_danglingNames_iff]
  exact mem_sortedNames

theorem leads_dependencies_iff {a b : String} :
    (a, b) ∈ form.dependencies ↔
      ∃ f ∈ form.fields, f.name = a ∧ b ∈ referencesOf f.logic ∧ b ≠ a ∧ b ∈ form.fieldNames := by
  simp only [dependencies, List.mem_map, List.mem_filter, Prod.exists, Prod.mk.injEq,
    mem_outwardReferences, mem_fieldReferences, hasField_iff]
  constructor
  · rintro ⟨i, f, _, ⟨⟨⟨s, hs, hf, hname⟩, hne⟩, hmem⟩, rfl, rfl⟩
    exact ⟨f, mem_fields_iff.mpr ⟨i, s, hs, hf⟩, rfl, hname, hne, hmem⟩
  · rintro ⟨f, hf, rfl, hname, hne, hmem⟩
    obtain ⟨i, s, hs, hfs⟩ := mem_fields_iff.mp hf
    exact ⟨i, f, b, ⟨⟨⟨s, hs, hfs, hname⟩, hne⟩, hmem⟩, rfl, rfl⟩

end Form

end ConditionalForms
