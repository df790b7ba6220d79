import ConditionalForms.Proofs.Audit.Usage
import ConditionalForms.Proofs.Document.Shapes

/-!
# The numbers of saved fields

A saved field has a number whose hundreds are meant to be the position of its step.  The fields of a
step are counted from one, so that three bounds lie side by side: up to 99 fields all numbers of a
step have its position, up to 100 fields the numbers of all steps increase, and from 101 fields on
the next step begins with a number that is taken.

**Definitions.**
* `Form.numberedFields`: the fields of a form with the numbers that they are saved under.
* `Form.IsNumbered`: a document has the fields of a form under some numbers.
* `HasStray`: a field has a number of another step.

**Results.**
* `Form.hasStray_numberedFields_iff`: exactly the overfull steps have a number of another step.
* `Form.exists_shared_number`: two fields share a number after a step of more than 100 fields.
* `Form.isNumbered_of_save`: the numbers in a saved document, and what is noticed about them.
-/

namespace ConditionalForms

/-- Some field of the step at a position has a number of another position. -/
def HasStray (numbered : List ((Nat × Step × Field) × Int)) (i : Nat) : Prop :=
  ∃ x ∈ numbered, x.1.1 = i ∧ x.2 / 100 ≠ i

instance (numbered : List ((Nat × Step × Field) × Int)) (i : Nat) :
    Decidable (HasStray numbered i) :=
  inferInstanceAs (Decidable (∃ x ∈ numbered, x.1.1 = i ∧ x.2 / 100 ≠ i))

namespace Form

/-- The document lists the fields of the form in order, each with its name, the key of its step and
its number. -/
structure IsNumbered (form : Form) (doc : Record) (numbered : List ((Nat × Step × Field) × Int)) :
    Prop where
  placed : numbered.map Prod.fst = form.placedFields
  entries : ∃ rs : List Record, doc.get "fields" = .list (rs.map .object) ∧
    List.Forall₂ (fun r x => r.get "field_name" = .text x.1.2.2.name ∧
      r.get "step_key" = .text x.1.2.1.key ∧ r.get "order" = .int x.2) rs numbered

/-- The fields of a form with the numbers that they are saved under. -/
def numberedFields (form : Form) : List ((Nat × Step × Field) × Int) :=
  form.steps.zipIdx.flatMap fun p => p.1.fields.zipIdx.map fun q =>
    ((p.2, p.1, q.1), (orderNumber p.2 q.2 : Int))

variable {form normal : Form} {doc : Record} {i j m n : Nat} {s : Step} {f : Field}

theorem map_fst_numberedFields (form : Form) :
    form.numberedFields.map Prod.fst = form.placedFields := by
  have hfields : ∀ p : Step × Nat, (p.1.fields.zipIdx.map fun q =>
      (((p.2, p.1, q.1), (orderNumber p.2 q.2 : Int)) : (Nat × Step × Field) × Int)).map Prod.fst =
        p.1.fields.map fun f => (p.2, p.1, f) := by
    intro p
    conv_rhs => rw [← List.zipIdx_map_fst 0 p.1.fields]
    simp only [List.map_map, Function.comp_def]
  simp only [numberedFields, placedFields, placedSteps, List.map_flatMap, List.flatMap_map, hfields]

theorem map_snd_numberedFields (form : Form) :
    form.numberedFields.map Prod.snd = (Flat.numberedRecords form.steps.zipIdx).map Prod.fst := by
  simp [numberedFields, Flat.numberedRecords, Step.numberedRecords, List.map_flatMap,
    Function.comp_def]

theorem mem_numberedFields {x : (Nat × Step × Field) × Int} :
    x ∈ form.numberedFields ↔ ∃ i s j f, form.steps[i]? = some s ∧ s.fields[j]? = some f ∧
      x = ((i, s, f), (orderNumber i j : Int)) := by
  simp only [numberedFields, List.mem_flatMap, List.mem_map, Prod.exists,
    List.mem_zipIdx_iff_getElem?]
  constructor
  · rintro ⟨s, i, hs, f, j, hf, rfl⟩
    exact ⟨i, s, j, f, hs, hf, rfl⟩
  · rintro ⟨i, s, j, f, hs, hf, rfl⟩
    exact ⟨s, i, hs, f, j, hf, rfl⟩

theorem map_entry_numberedFields (form : Form) :
    (form.numberedFields.map fun x => x.1.2.2.entry x.2.toNat x.1.2.1.key) = form.fieldRecords := by
  simp [numberedFields, fieldRecords, Step.fieldRecords, List.map_flatMap, Function.comp_def]

/-- The document of a form has its fields under their numbers. -/
theorem isNumbered_document (form : Form) (program : Option Int) :
    form.IsNumbered (form.document program) form.numberedFields := by
  refine ⟨form.map_fst_numberedFields, form.fieldRecords, (form.get_document program).2, ?_⟩
  rw [← map_entry_numberedFields, List.forall₂_map_left_iff, List.forall₂_same]
  intro x hx
  obtain ⟨i, s, j, f, -, -, rfl⟩ := mem_numberedFields.mp hx
  simp [Record.get, Field.get?_entry, Field.get?_constraints, Record.get?_cons,
    Record.get?_nil]

/-- The last number of a hundred is the first one with the hundreds of the next position. -/
theorem orderNumber_ediv_ne_iff : ((orderNumber i j : Nat) : Int) / 100 ≠ i ↔ 99 ≤ j := by
  simp only [orderNumber, orderStride]
  omega

/-- Exactly the overfull steps have a number of another step. -/
theorem hasStray_numberedFields_iff (hs : form.steps[i]? = some s) :
    HasStray form.numberedFields i ↔ s.isOverfull = true := by
  rw [Step.isOverfull, decide_eq_true_eq, orderStride]
  constructor
  · rintro ⟨x, hx, hplace, hstray⟩
    obtain ⟨i', t, j, f, ht, hf, rfl⟩ := mem_numberedFields.mp hx
    obtain rfl : i' = i := hplace
    obtain rfl : s = t := Option.some.inj (hs.symm.trans ht)
    have hj : j < s.fields.length := (List.getElem?_eq_some_iff.mp hf).1
    have hlast : 99 ≤ j := orderNumber_ediv_ne_iff.mp hstray
    omega
  · intro hcount
    have hf : s.fields[99]? = some s.fields[99] := List.getElem?_eq_getElem (by omega)
    exact ⟨_, mem_numberedFields.mpr ⟨i, s, 99, _, hs, hf, rfl⟩, rfl,
      orderNumber_ediv_ne_iff.mpr (Nat.le_refl 99)⟩

/-- The overfull steps are those at the positions with numbers of others. -/
theorem overfullSteps_eq (form : Form) :
    form.overfullSteps = (form.placedSteps.filter fun p =>
      decide (HasStray form.numberedFields p.1)).map Prod.snd := by
  have hfilter : (form.placedSteps.filter fun p => decide (HasStray form.numberedFields p.1)) =
      form.placedSteps.filter (Step.isOverfull ∘ Prod.snd) := by
    refine List.filter_congr fun p hp => ?_
    rw [Function.comp_apply, Bool.eq_iff_iff, decide_eq_true_eq,
      hasStray_numberedFields_iff (mem_placedSteps.mp hp)]
  rw [hfilter, ← List.filter_map, map_placedSteps, overfullSteps]

theorem pairwise_numberedFields (h : ∀ n ∈ form.fieldCounts, n ≤ 100) :
    (form.numberedFields.map Prod.snd).Pairwise (· < ·) := by
  rw [map_snd_numberedFields, List.pairwise_map]
  exact Flat.pairwise_numberedRecords form.steps 0 fun s hs => h _ (List.mem_map_of_mem hs)

/-- The field after the first hundred of a step has the number of the first field of the next. -/
theorem exists_shared_number (hm : form.fieldCounts[i]? = some m)
    (hn : form.fieldCounts[i + 1]? = some n) (hcount : 100 < m) (hnext : 0 < n) :
    ∃ x ∈ form.numberedFields, ∃ y ∈ form.numberedFields,
      x.1.1 = i ∧ y.1.1 = i + 1 ∧ x.2 = y.2 := by
  obtain ⟨s, hs, rfl⟩ := exists_step_of_fieldCounts hm
  obtain ⟨t, ht, rfl⟩ := exists_step_of_fieldCounts hn
  have hf : s.fields[100]? = some s.fields[100] := List.getElem?_eq_getElem hcount
  have hg : t.fields[0]? = some t.fields[0] := List.getElem?_eq_getElem hnext
  refine ⟨_, mem_numberedFields.mpr ⟨i, s, 100, _, hs, hf, rfl⟩,
    _, mem_numberedFields.mpr ⟨i + 1, t, 0, _, ht, hg, rfl⟩, rfl, rfl, ?_⟩
  show ((orderNumber i 100 : Nat) : Int) = (orderNumber (i + 1) 0 : Nat)
  simp only [orderNumber, orderStride]
  omega

/-- A saved document lists the fields of a form under numbers.  Exactly the steps that have a number
of another position are noticed, in order.  The numbers increase as long as no step has more than
100 fields, and a step of more fields shares a number with the step after it, if that has any. -/
theorem isNumbered_of_save {notices : List String} (h : form.save = .ok (doc, notices)) :
    ∃ normal numbered, form.normalize = .ok normal ∧ normal.IsNumbered doc numbered ∧
      notices = (normal.placedSteps.filter fun p => decide (HasStray numbered p.1)).map
        (fun p => p.2.overfullNotice) ∧
      ((∀ n ∈ form.fieldCounts, n ≤ 100) → (numbered.map Prod.snd).Pairwise (· < ·)) ∧
      ∀ i m n, form.fieldCounts[i]? = some m → form.fieldCounts[i + 1]? = some n →
        100 < m → 0 < n → ∃ x ∈ numbered, ∃ y ∈ numbered,
          x.1.1 = i ∧ y.1.1 = i + 1 ∧ x.2 = y.2 := by
  simp only [save, bind_eq_ok, pure_eq_ok, Prod.mk.injEq] at h
  obtain ⟨normal, hnormal, document, hdoc, rfl, rfl⟩ := h
  rw [documentOfNormal_eq (isNormal_of_normalize hnormal), map_eq_ok] at hdoc
  obtain ⟨program, -, rfl⟩ := hdoc
  refine ⟨normal, normal.numberedFields, hnormal, normal.isNumbered_document program, ?_, ?_, ?_⟩
  · rw [overfullSteps_eq, List.map_map]
    rfl
  · rw [← fieldCounts_of_normalize hnormal]
    exact pairwise_numberedFields
  · rw [← fieldCounts_of_normalize hnormal]
    exact fun i m n => exists_shared_number

/-- A field for one seat. -/
def seat : Field := { Field.plain "f-seat" "seat" "Seat" with span := 2 }

/-- A form whose first step has a field too many. -/
def crowded : Form :=
  { travel with
    steps := [{ Example.transportStep 2 with fields := List.replicate 101 seat },
      Example.consentStep] }

theorem isNormal_crowded : crowded.IsNormal := by
  have htransport := isNormal_travel.steps _ List.mem_cons_self
  have hseat : seat.IsNormal 2 := by
    have hfixed : seat.normalize 2 0 = .ok seat := rfl
    exact Field.isNormal_of_normalize (by decide) hfixed
  have hconsent : Example.consentStep.IsNormal := by
    have hfixed : Step.normalize 1 Example.consentStep = .ok Example.consentStep := rfl
    exact Step.isNormal_of_normalize hfixed
  refine ⟨by decide, by decide, ?_⟩
  rintro s (_ | ⟨_, _ | ⟨_, ⟨⟩⟩⟩)
  · exact { htransport with
      fields := fun f hf => (List.eq_of_mem_replicate hf).symm ▸ hseat }
  · exact hconsent

theorem save_crowded : crowded.save = .ok (crowded.document (some 7),
    ["Step 'transport' has 101 fields; orders overflow into the next step's bucket"]) := by
  have hprogram : programNumber? (.text crowded.program) = .ok (some 7) := programNumber?_travel
  rw [save, isNormal_crowded.normalize_eq, ok_bind, documentOfNormal_eq isNormal_crowded, hprogram]
  rfl

/-- The last field of the crowded step has the number of the first one after it. -/
theorem isNumbered_crowded :
    crowded.save = .ok (crowded.document (some 7),
        ["Step 'transport' has 101 fields; orders overflow into the next step's bucket"]) ∧
      ∃ normal numbered, crowded.normalize = .ok normal ∧
        normal.IsNumbered (crowded.document (some 7)) numbered ∧
        ∃ x ∈ numbered, ∃ y ∈ numbered, x.1.1 = 0 ∧ y.1.1 = 1 ∧ x.2 = y.2 := by
  obtain ⟨normal, numbered, hnormal, hnumbered, -, -, hshared⟩ := isNumbered_of_save save_crowded
  exact ⟨save_crowded, normal, numbered, hnormal, hnumbered,
    hshared 0 101 1 rfl rfl (by decide) (by decide)⟩

end Form

end ConditionalForms
