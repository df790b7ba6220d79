import ConditionalForms.Proofs.Audit.Handover
import ConditionalForms.Proofs.Document.RoundTrip

/-!
# Reviews of what is saved

A form, its document and the form that is read back from the document are reviewed by different
checks over different data.  What passes the first of them passes the others: saving cannot fail,
every record of the document is filled, and nothing that a review asks for is lost on the way, not
even where an infinite bound or a constraint of another kind of field is dropped.

**Definitions.**
* `Field.HasSmallIntegers`: whole numbers up to `2 ^ 53` and any doubles.

**Results.**
* `Form.isInOrder_document`: the document of a complete form is in order.
* `Form.exists_reload_of_isComplete`: what comes back of a complete form is complete.
* `Form.exists_valid_saved`: a form without errors is saved, and it is read back without errors.
-/

namespace ConditionalForms

theorem Text.isAllBlank_of_trim {s : String} (hne : s ≠ "") (h : trim s = s) :
    isAllBlank s = false := by
  by_contra hblank
  have hall : ∀ c ∈ s.toList, isBlank c = true := by
    simpa [isAllBlank] using hblank
  have hdrop : s.toList.dropWhile isBlank = [] := List.dropWhile_eq_nil_iff.mpr hall
  rw [trim, trimList, hdrop] at h
  exact hne h.symm

theorem FieldKind.isAllBlank_documentName (k : FieldKind) :
    Text.isAllBlank k.documentName = false := by
  cases k <;> decide

namespace Bound

/-- What comes back of a bound: an infinite one or a NaN is dropped. -/
def readBack : Bound → Option Bound
  | .int n => some (.int n)
  | .float x => if x.isFinite then some (canonical (.float x)) else none

theorem bound?_toValue_eq_readBack {b : Bound} (h : ∀ n, b = .int n → n.natAbs ≤ 2 ^ 53) :
    b.toValue.bound? = .ok b.readBack := by
  cases b with
  | int n => exact Value.bound?_int (Integer.isExact_of_natAbs_le (h n rfl))
  | float x => cases hx : x.isFinite with
    | true =>
        rw [readBack, if_pos hx]
        exact bound?_toValue (b := .float x) hx
    | false => simp [toValue, Value.bound?, Value.double?, hx, readBack]

theorem readBack_cases (b : Bound) : b.readBack = none ∨ b.readBack = some b.canonical := by
  cases b with
  | int n => exact Or.inr rfl
  | float x => cases hx : x.isFinite with
    | true => exact Or.inr (by rw [readBack, if_pos hx])
    | false => exact Or.inl (by simp [readBack, hx])

end Bound

namespace Field

/-- The whole numbers of the field are not beyond `2 ^ 53`; its bounds may be any doubles. -/
structure HasSmallIntegers (f : Field) : Prop where
  maxLength : ∀ n ∈ f.maxLength, n.natAbs ≤ 2 ^ 53
  minValue : ∀ n, f.minValue = some (.int n) → n.natAbs ≤ 2 ^ 53
  maxValue : ∀ n, f.maxValue = some (.int n) → n.natAbs ≤ 2 ^ 53
  maxFileSize : ∀ n ∈ f.maxFileSize, n.natAbs ≤ 2 ^ 53

theorem HasSmallIntegers.of_normalize {f g : Field} {columns : Int} {number : Nat}
    (h : f.HasSmallIntegers) (hg : f.normalize columns number = .ok g) : g.HasSmallIntegers := by
  obtain ⟨span, logic, -, -, rfl⟩ := normalize_eq_ok hg
  exact ⟨h.maxLength, h.minValue, h.maxValue, h.maxFileSize⟩

theorem bound?_boundOrNull {b : Option Bound} {c : Bool}
    (h : ∀ n, b = some (.int n) → n.natAbs ≤ 2 ^ 53) :
    (if c then boundOrNull b else .null).bound? =
      .ok (if c then b.bind Bound.readBack else none) := by
  cases c with
  | false => rfl
  | true => cases b with
    | none => rfl
    | some x => exact Bound.bound?_toValue_eq_readBack fun n hn => h n (congrArg some hn)

/-- Bounds that come back are not crossed unless they were. -/
theorem crossed_of_readBack {low high : Bound} {l h : Bound} (hl : low.readBack = some l)
    (hh : high.readBack = some h) : l.gt h = low.gt high := by
  rcases low.readBack_cases with hlow | hlow
  · simp [hlow] at hl
  · rcases high.readBack_cases with hhigh | hhigh
    · simp [hhigh] at hh
    · obtain rfl := Option.some.inj (hlow.symm.trans hl)
      obtain rfl := Option.some.inj (hhigh.symm.trans hh)
      exact Bound.gt_canonical low high

/-- What comes back of a complete field is a complete field of the same name. -/
theorem exists_reload {f : Field} (h : f.HasSmallIntegers) (columns : Int) :
    ∃ g, f.reload columns = .ok g ∧ g.name = f.name ∧ (f.IsComplete → g.IsComplete) := by
  rw [reload, wholeBound?_ite fun n hn => Integer.isExact_of_natAbs_le (h.maxLength n hn),
    bound?_boundOrNull h.minValue, bound?_boundOrNull h.maxValue,
    wholeBound?_ite fun n hn => Integer.isExact_of_natAbs_le (h.maxFileSize n hn)]
  refine ⟨_, rfl, rfl, ?_⟩
  intro hf
  refine ⟨hf.label, ?_, ?_⟩
  · intro hkind
    have hkind' : f.kind.hasOptions = true := hkind
    simpa [hkind'] using hf.options hkind'
  · have hbounds := hf.bounds
    cases hkind : f.kind.hasBounds with
    | false => simp [hasCrossedBounds]
    | true => cases hmin : f.minValue with
      | none => simp [hasCrossedBounds]
      | some low => cases hmax : f.maxValue with
        | none => cases hl : low.readBack <;> simp [hasCrossedBounds, hl]
        | some high =>
            simp only [hasCrossedBounds, hmin, hmax] at hbounds
            cases hl : low.readBack with
            | none => simp [hasCrossedBounds, hl]
            | some l => cases hh : high.readBack with
              | none => simp [hasCrossedBounds, hl, hh]
              | some h =>
                  simpa [hasCrossedBounds, hl, hh, crossed_of_readBack hl hh] using hbounds

/-- The record of a complete field is filled. -/
theorem isFilledRecord_entry {f : Field} {columns : Int} (hf : f.IsNormal columns)
    (hlabel : Text.isAllBlank f.label = false) (order : Nat) (stepKey : String) :
    Document.IsFilledRecord (.object (f.entry order stepKey)) := by
  have hname := Text.isAllBlank_of_trim hf.name_ne hf.trim_name
  refine ⟨_, rfl, ?_⟩
  simp [Document.requiredMembers, Document.IsFilled, Record.get, get?_entry, Record.get?_cons,
    hname, hlabel, FieldKind.isAllBlank_documentName]

end Field

namespace Step

/-- What comes back of a step with complete fields has complete fields of the same names. -/
theorem exists_reload {s : Step} (h : ∀ f ∈ s.fields, f.HasSmallIntegers ∧ f.IsComplete) :
    ∃ t, s.reload = .ok t ∧ t.names = s.names ∧ ∀ g ∈ t.fields, g.IsComplete := by
  have hfields : ∀ f ∈ s.fields,
      ∃ g, f.reload s.columns = .ok g ∧ (g.name = f.name ∧ g.IsComplete) := by
    intro f hf
    obtain ⟨hsmall, hcomplete⟩ := h f hf
    obtain ⟨g, hg, hname, hkept⟩ := Field.exists_reload hsmall s.columns
    exact ⟨g, hg, hname, hkept hcomplete⟩
  obtain ⟨fields, hreload, hall⟩ := exists_mapM_of_forall hfields
  refine ⟨{ s with id := s.key, fields := fields }, by rw [reload, hreload]; rfl, ?_, ?_⟩
  · exact (forall₂_map_eq (hall.imp fun f g hfg => hfg.1.symm)).symm
  · intro g hg
    obtain ⟨f, -, -, hcomplete⟩ := exists_left_of_forall₂ hall hg
    exact hcomplete

end Step

namespace Form

variable {form : Form}

/-- The document of a complete form with a program number is in order. -/
theorem isInOrder_document (hnormal : form.IsNormal) (h : form.IsComplete) (n : Int) :
    Document.IsInOrder (form.document (some n)) := by
  have hrecords : ∀ v ∈ form.fieldRecords.map Value.object, Document.IsFilledRecord v := by
    intro v hv
    obtain ⟨r, hr, rfl⟩ := List.mem_map.mp hv
    obtain ⟨f, hf, order, stepKey, rfl⟩ := exists_left_of_forall₂ form.forall₂_fieldRecords hr
    obtain ⟨s, hs, hfs⟩ := List.mem_flatMap.mp hf
    exact Field.isFilledRecord_entry ((hnormal.steps s hs).fields f hfs) (h.fields f hf).label ..
  obtain ⟨s, hs⟩ := List.exists_mem_of_ne_nil _ h.steps
  obtain ⟨f, hf⟩ := List.exists_mem_of_ne_nil _ (h.filled s hs)
  have hfields : form.fieldRecords ≠ [] := by
    intro hnil
    have hlength := form.forall₂_fieldRecords.length_eq
    rw [hnil, List.length_nil, List.length_eq_zero_iff] at hlength
    exact List.ne_nil_of_mem (mem_fields hs hf) hlength
  have hsteps : form.stepRecords ≠ [] := by
    simpa [stepRecords] using h.steps
  obtain ⟨hsteps_get, hfields_get⟩ := get_document form (some n)
  refine ⟨⟨form.name, ?_, h.name⟩, ⟨n, ?_⟩, ?_, _, hfields_get, by simpa using hfields, hrecords⟩
  · simp [document, head, Record.get, Record.get?_cons]
  · simp [document, head, Record.get, Record.get?_cons, Value.ofInt?]
  · rw [hsteps_get]
    simpa [Value.isTruthy] using hsteps

/-- What comes back of a complete form is complete, and it has the same program number. -/
theorem exists_reload_of_isComplete {program : Option Int} (h : form.IsComplete)
    (hsmall : ∀ f ∈ form.fields, f.HasSmallIntegers)
    (hprogram : programNumber? (.text form.program) = .ok program) :
    ∃ loaded, form.reload program = .ok loaded ∧ loaded.IsComplete ∧
      programNumber? (.text loaded.program) = .ok program := by
  have hreload : ∀ s ∈ form.steps,
      ∃ t, s.reload = .ok t ∧ (t.names = s.names ∧ ∀ g ∈ t.fields, g.IsComplete) := by
    intro s hs
    refine Step.exists_reload fun f hf => ?_
    exact ⟨hsmall f (mem_fields hs hf), h.fields f (mem_fields hs hf)⟩
  obtain ⟨steps, hsteps, hall⟩ := exists_mapM_of_forall hreload
  let text := (program.map Integer.decimalText).getD ""
  have hnames : fieldNames { form with program := text, steps := steps } = form.fieldNames := by
    rw [fieldNames_eq, fieldNames_eq, List.flatMap_def, List.flatMap_def]
    exact congrArg List.flatten (forall₂_map_eq (hall.imp fun s t hst => hst.1.symm)).symm
  refine ⟨{ form with program := text, steps := steps }, ?_, ?_,
    programNumber?_of_programOf hprogram⟩
  · rw [reload, hsteps, ok_bind, programOf_of_programNumber? hprogram]
    rfl
  · refine ⟨h.name, ?_, ?_, ?_, ?_⟩
    · rintro (hnil : steps = [])
      have hlength := hall.length_eq
      rw [hnil, List.length_nil, List.length_eq_zero_iff] at hlength
      exact h.steps hlength
    · intro t ht hnil
      obtain ⟨s, hs, hnames, -⟩ := exists_left_of_forall₂ hall ht
      rw [Step.names, hnil, List.map_nil] at hnames
      exact h.filled s hs (List.map_eq_nil_iff.mp hnames.symm)
    · intro g hg
      obtain ⟨t, ht, hgt⟩ := List.mem_flatMap.mp hg
      obtain ⟨s, -, -, hcomplete⟩ := exists_left_of_forall₂ hall ht
      exact hcomplete g hgt
    · rw [hnames]
      exact h.distinct

/-- A form in which a review finds no errors can be saved, its document is in order, and the form
that is read back from the document has no errors either. -/
theorem exists_valid_saved {review : Review} (hsmall : ∀ f ∈ form.fields, f.HasSmallIntegers)
    (hreview : form.review = .ok review) (hvalid : review.isValid = true) :
    ∃ doc checked loaded again, form.toDocument = .ok doc ∧
      Document.review doc = .ok checked ∧ checked.isValid = true ∧
      ofDocument (.object doc) = .ok loaded ∧ loaded.value.review = .ok again ∧
      again.isValid = true := by
  simp only [Form.review, bind_eq_ok, pure_eq_ok] at hreview
  obtain ⟨normal, hnormal, errors, herrors, rfl⟩ := hreview
  obtain rfl : errors = [] := List.isEmpty_iff.mp hvalid
  obtain ⟨⟨n, hprogram⟩, hcomplete⟩ := errors_eq_nil_iff.mp herrors
  have hn := isNormal_of_normalize hnormal
  have hsmall' : ∀ g ∈ normal.fields, g.HasSmallIntegers := by
    intro g hg
    obtain ⟨f, hf, columns, number, hfg⟩ := exists_field_of_normalize hnormal hg
    exact (hsmall f hf).of_normalize hfg
  obtain ⟨back, hback, hagain, hnumber⟩ := exists_reload_of_isComplete hcomplete hsmall' hprogram
  have hload := ofDocument_document hn hcomplete.distinct (some n)
  rw [hback, map_eq_ok] at hload
  obtain ⟨loaded, hloaded, rfl⟩ := hload
  have hfixed := (isNormal_of_reload hn hback).normalize_eq
  obtain ⟨checked, hchecked, hinOrder⟩ := (isInOrder_document hn hcomplete n).exists_review
  refine ⟨normal.document (some n), checked, loaded, ⟨[], loaded.value.report.warnings⟩, ?_,
    hchecked, hinOrder, hloaded, ?_, rfl⟩
  · rw [toDocument, hnormal, ok_bind, documentOfNormal_eq hn, hprogram]
    rfl
  · rw [Form.review, hfixed, ok_bind, errors_eq_nil_iff.mpr ⟨⟨n, hnumber⟩, hagain⟩]
    rfl

/-- A form with a bound that is not finite and a limit that its kind of field does not have. -/
def ferry : Form :=
  { name := "Ferry", description := "", program := "07", columns := 2
    steps :=
      [{ id := "", key := "trip", title := "Trip", description := "", perParticipant := false
         columns := 2, logic := none
         fields :=
          [{ Field.plain "f-cars" "cars" "Cars" with
              kind := .number, minValue := some (.float (.infinite true)),
              maxValue := some (.int 3), span := 1 },
           { Field.plain "f-deck" "deck" "Deck" with
              kind := .select, options := ["Sun", "Car"], maxLength := some 9, span := 2 }] }] }

theorem hasSmallIntegers_ferry : ∀ f ∈ ferry.fields, f.HasSmallIntegers := by
  intro f hf
  rcases List.mem_cons.mp hf with rfl | hf
  · refine ⟨nofun, nofun, ?_, nofun⟩
    rintro n ⟨⟩
    decide
  · obtain rfl := List.mem_singleton.mp hf
    refine ⟨?_, nofun, nofun, nofun⟩
    rintro n ⟨⟩
    decide

theorem review_ferry : ferry.review = .ok ⟨[], []⟩ := by decide +kernel

theorem exists_valid_saved_ferry :
    ferry.review = .ok ⟨[], []⟩ ∧
      ∃ doc checked loaded again, ferry.toDocument = .ok doc ∧
        Document.review doc = .ok checked ∧ checked.isValid = true ∧
        ofDocument (.object doc) = .ok loaded ∧ loaded.value.review = .ok again ∧
        again.isValid = true :=
  ⟨review_ferry, exists_valid_saved hasSmallIntegers_ferry review_ferry rfl⟩

end Form

end ConditionalForms
