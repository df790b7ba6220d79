import ConditionalForms.Author.Draft
import ConditionalForms.Proofs.Audit.Errors
import ConditionalForms.Proofs.Form.FreeName
import ConditionalForms.Proofs.Form.Normal
import Mathlib.Data.List.Perm.Basic

/-!
# Sound forms

Whatever an author does, in whatever order, the widths of the form and its steps stay within the
grid, fields stay within their steps, and no two fields come to have one name.  A run of edits
keeps this because each edit does; an edit that fails changes nothing.

**Definitions.**
* `Form.IsSound`: widths and spans are in range, and the names of fields are distinct slugs.
* `Form.outline`: the widths of a form with the names and spans of its fields.

**Results.**
* `Form.IsSound.edit`: what one edit makes of a sound form is sound.
* `Draft.sound_run`: a run of edits keeps a form sound, so that normalizing does not change its
  outline and a review finds no repeated name.
-/

namespace ConditionalForms

/-- A field of a step of some columns with a slug for its name and a span within the step. -/
structure Field.Fits (columns : Int) (f : Field) : Prop where
  named : Name.IsSlug f.name
  span_pos : 1 ≤ f.span
  span_le : f.span ≤ columns

/-- A step whose width is in range and whose fields fit it. -/
structure Step.Fits (s : Step) : Prop where
  columns_pos : 1 ≤ s.columns
  columns_le : s.columns ≤ Grid.maxColumns
  fields : ∀ f ∈ s.fields, f.Fits s.columns

/-- A form whose width and steps are in range and whose fields have different names. -/
structure Form.IsSound (form : Form) : Prop where
  columns_pos : 1 ≤ form.columns
  columns_le : form.columns ≤ Grid.maxColumns
  steps : ∀ s ∈ form.steps, s.Fits
  distinct : form.fieldNames.Nodup

/-- The widths of a form with the names and spans of its fields. -/
def Form.outline (form : Form) : Int × List (Int × List (String × Int)) :=
  (form.columns, form.steps.map fun s => (s.columns, s.fields.map fun f => (f.name, f.span)))

section Items

variable {α : Type} {xs : List α} {x : α}

theorem getElem?_of_itemAt? {index : Int} (h : itemAt? xs index = some x) :
    xs[index.toNat]? = some x := by
  cases index with
  | ofNat i => exact h
  | negSucc i => simp [itemAt?] at h

theorem perm_cons_eraseIdx {i : Nat} (h : xs[i]? = some x) : (x :: xs.eraseIdx i).Perm xs := by
  obtain ⟨hi, rfl⟩ := List.getElem?_eq_some_iff.mp h
  exact List.getElem_cons_eraseIdx_perm hi

theorem clampIndex_le (index : Int) (n : Nat) : clampIndex index n ≤ n := by
  unfold clampIndex
  omega

theorem moveItem_perm (xs : List α) (source : Nat) (target : Int) :
    (moveItem xs source target).Perm xs := by
  unfold moveItem
  split
  · exact List.Perm.refl xs
  · rename_i x hx
    exact (List.perm_insertIdx x _ (clampIndex_le _ _)).trans (perm_cons_eraseIdx hx)

theorem nodup_insert {ys : List α} (h : (xs ++ ys).Nodup) (hx : x ∉ xs ++ ys) :
    (xs ++ [x] ++ ys).Nodup := by
  rw [List.append_assoc, List.singleton_append, List.nodup_middle, List.nodup_cons]
  exact ⟨hx, h⟩

end Items

namespace Field

theorem Fits.foldl_apply {f : Field} {columns : Int} (hf : f.Fits columns)
    (changes : List FieldChange) :
    (changes.foldl FieldChange.apply f).Fits columns ∧
      (changes.foldl FieldChange.apply f).name = f.name := by
  induction changes generalizing f with
  | nil => exact ⟨hf, rfl⟩
  | cons c changes ih =>
      have hone : (c.apply f).Fits columns ∧ (c.apply f).name = f.name := by
        cases c <;> exact ⟨⟨hf.named, hf.span_pos, hf.span_le⟩, rfl⟩
      obtain ⟨hrest, hname⟩ := ih hone.1
      exact ⟨hrest, hname.trans hone.2⟩

theorem Fits.normalize_place {f g : Field} {columns : Int} {number : Nat} (hf : f.Fits columns)
    (hcolumns : columns ≤ Grid.maxColumns) (h : f.normalize columns number = .ok g) :
    g.name = f.name ∧ g.span = f.span := by
  obtain ⟨span, logic, hspan, -, rfl⟩ := normalize_eq_ok h
  rw [Grid.span_of_bounds hf.span_pos (Int.le_trans hf.span_le hcolumns), Except.ok.injEq] at hspan
  constructor
  · show f.normalName number = f.name
    rw [normalName, hf.named.trim_eq, orElseText_of_ne hf.named.1]
  · show span = f.span
    rw [← hspan, Int.min_eq_right hf.span_le]

end Field

namespace Step

variable {s t : Step} {columns : Int}

theorem setColumns_eq_ok (h : s.setColumns columns = .ok t) :
    ∃ fields, t = { s with columns := columns, fields := fields } ∧
      List.Forall₂ (fun f g => ∃ span, Grid.span (.int f.span) columns = .ok span ∧
        g = { f with span := span }) s.fields fields := by
  simp only [setColumns, bind_eq_ok, pure_eq_ok] at h
  obtain ⟨fields, hfields, rfl⟩ := h
  refine ⟨fields, rfl, (forall₂_of_mapM hfields).imp fun f g hg => ?_⟩
  simp only [bind_eq_ok, pure_eq_ok] at hg
  obtain ⟨span, hspan, rfl⟩ := hg
  exact ⟨span, hspan, rfl⟩

theorem names_setColumns (h : s.setColumns columns = .ok t) : t.names = s.names := by
  obtain ⟨fields, rfl, hfields⟩ := setColumns_eq_ok h
  refine (forall₂_map_eq (hfields.imp fun f g hg => ?_)).symm
  obtain ⟨span, -, rfl⟩ := hg
  rfl

theorem Fits.setColumns (hs : s.Fits) (hpos : 1 ≤ columns) (hle : columns ≤ Grid.maxColumns)
    (h : s.setColumns columns = .ok t) : t.Fits := by
  obtain ⟨fields, rfl, hfields⟩ := setColumns_eq_ok h
  refine ⟨hpos, hle, ?_⟩
  intro g hg
  obtain ⟨f, hf, span, hspan, rfl⟩ := exists_left_of_forall₂ hfields hg
  obtain ⟨hspan_pos, hspan_le⟩ := Grid.span_bounds hpos hspan
  exact ⟨(hs.fields f hf).named, hspan_pos, hspan_le⟩

theorem change_eq_ok {changes : List StepChange} (h : s.change changes = .ok t) :
    ∃ resized, t = changes.foldl StepChange.apply resized ∧
      (resized = s ∨ ∃ v n, Grid.columnCount v = .ok n ∧ s.setColumns n = .ok resized) := by
  unfold change at h
  cases hlast : lastOf? StepChange.columns? changes with
  | none =>
      rw [hlast] at h
      exact ⟨s, (Except.ok.inj h).symm, Or.inl rfl⟩
  | some v =>
      simp only [hlast, bind_eq_ok, pure_eq_ok] at h
      obtain ⟨n, hn, resized, hresized, rfl⟩ := h
      exact ⟨resized, rfl, Or.inr ⟨v, n, hn, hresized⟩⟩

theorem Fits.foldl_apply (hs : s.Fits) (changes : List StepChange) :
    (changes.foldl StepChange.apply s).Fits ∧ (changes.foldl StepChange.apply s).names = s.names := by
  induction changes generalizing s with
  | nil => exact ⟨hs, rfl⟩
  | cons c changes ih =>
      have hone : (c.apply s).Fits ∧ (c.apply s).names = s.names := by
        cases c <;> exact ⟨⟨hs.columns_pos, hs.columns_le, hs.fields⟩, rfl⟩
      obtain ⟨hrest, hnames⟩ := ih hone.1
      exact ⟨hrest, hnames.trans hone.2⟩

theorem Fits.change {changes : List StepChange} (hs : s.Fits) (h : s.change changes = .ok t) :
    t.Fits ∧ t.names = s.names := by
  obtain ⟨resized, rfl, rfl | ⟨v, n, hn, hset⟩⟩ := change_eq_ok h
  · exact hs.foldl_apply changes
  · obtain ⟨hpos, hle⟩ := Grid.columnCount_bounds hn
    obtain ⟨hfits, hnames⟩ := (hs.setColumns hpos hle hset).foldl_apply changes
    exact ⟨hfits, hnames.trans (names_setColumns hset)⟩

/-- Normalizing leaves the width of a step that fits, and the names and spans in it, as they are. -/
theorem Fits.outline_normalize {index : Nat} (hs : s.Fits) (h : s.normalize index = .ok t) :
    (t.columns, t.fields.map fun f => (f.name, f.span)) =
      (s.columns, s.fields.map fun f => (f.name, f.span)) := by
  obtain ⟨columns, fields, logic, hcolumns, hfields, -, rfl⟩ := normalize_eq_ok h
  rw [Grid.columnCount_of_bounds hs.columns_pos hs.columns_le, Except.ok.injEq] at hcolumns
  subst hcolumns
  refine congrArg (Prod.mk s.columns) (forall₂_map_eq ?_).symm
  refine forall₂_imp_of_mem (forall₂_of_mapFrom hfields) hs.fields fun f g hf hfg => ?_
  obtain ⟨i, hfg⟩ := hfg
  obtain ⟨hname, hspan⟩ := hf.normalize_place hs.columns_le hfg
  rw [hname, hspan]

theorem Fits.withFields {fields : List Field} (hs : s.Fits)
    (h : ∀ f ∈ fields, f.Fits s.columns) : Step.Fits { s with fields := fields } :=
  ⟨hs.columns_pos, hs.columns_le, h⟩

end Step

namespace Form

variable {form new : Form} {index : Int} {i j : Nat} {s t : Step}

theorem stepAt_eq_ok_iff :
    form.stepAt index = .ok (i, s) ↔ index.toNat = i ∧ itemAt? form.steps index = some s := by
  unfold stepAt
  split
  · rename_i t ht
    simp [ht]
  · rename_i ht
    simp [ht]

theorem fieldAt_eq_ok_iff {f : Field} :
    fieldAt s index = .ok (j, f) ↔ index.toNat = j ∧ itemAt? s.fields index = some f := by
  unfold fieldAt
  split
  · rename_i g hg
    simp [hg]
  · rename_i hg
    simp [hg]

theorem getElem?_of_stepAt (h : form.stepAt index = .ok (i, s)) : form.steps[i]? = some s := by
  obtain ⟨rfl, hs⟩ := stepAt_eq_ok_iff.mp h
  exact getElem?_of_itemAt? hs

theorem getElem?_of_fieldAt {f : Field} (h : fieldAt s index = .ok (j, f)) :
    s.fields[j]? = some f := by
  obtain ⟨rfl, hf⟩ := fieldAt_eq_ok_iff.mp h
  exact getElem?_of_itemAt? hf

/-- The names of the fields of all steps but the one at a position. -/
def namesBeside (form : Form) (i : Nat) : List String :=
  (form.steps.eraseIdx i).flatMap Step.names

theorem fieldNames_perm (h : form.steps[i]? = some s) :
    form.fieldNames.Perm (s.names ++ form.namesBeside i) := by
  rw [fieldNames_eq]
  exact ((perm_cons_eraseIdx h).flatMap_right Step.names).symm

theorem fieldNames_putStep_perm (h : form.steps[i]? = some s) (t : Step) :
    (form.putStep i t).fieldNames.Perm (t.names ++ form.namesBeside i) := by
  obtain ⟨hi, -⟩ := List.getElem?_eq_some_iff.mp h
  rw [fieldNames_eq]
  exact (List.set_perm_cons_eraseIdx hi t).flatMap_right Step.names

theorem otherNames_eq (h : form.steps[i]? = some s) (j : Nat) :
    form.otherNames i j =
      (form.putStep i { s with fields := s.fields.eraseIdx j }).fieldNames := by
  obtain ⟨hi, rfl⟩ := List.getElem?_eq_some_iff.mp h
  rw [fieldNames_eq, otherNames, List.flatMap_def, List.flatMap_def]
  congr 1
  refine List.ext_getElem (by simp [putStep]) fun k hk _ => ?_
  by_cases hki : i = k
  · subst hki
    simp [putStep, Step.names]
  · simp [putStep, Step.names, hki, Ne.symm hki]

theorem otherNames_perm (h : form.steps[i]? = some s) (j : Nat) :
    (form.otherNames i j).Perm ((s.fields.eraseIdx j).map Field.name ++ form.namesBeside i) := by
  rw [otherNames_eq h]
  exact fieldNames_putStep_perm h _

theorem nodup_cons_otherNames {f : Field} (hdistinct : form.fieldNames.Nodup)
    (hs : form.steps[i]? = some s) (hf : s.fields[j]? = some f) :
    (f.name :: form.otherNames i j).Nodup := by
  have hall : (f.name :: form.otherNames i j).Perm (s.names ++ form.namesBeside i) :=
    ((otherNames_perm hs j).cons f.name).trans
      (((perm_cons_eraseIdx hf).map Field.name).append_right _)
  exact hall.symm.nodup ((fieldNames_perm hs).nodup hdistinct)

theorem changeField_eq_ok {field : Int} {changes : List FieldChange}
    (h : form.changeField index field changes = .ok new) :
    ∃ i s j f kind span, form.stepAt index = .ok (i, s) ∧ fieldAt s field = .ok (j, f) ∧
      Grid.span ((lastOf? FieldChange.span? changes).getD (.int f.span)) s.columns = .ok span ∧
      new = form.putStep i { s with
        fields := s.fields.set j { changes.foldl FieldChange.apply f with
          kind := kind, span := span,
          name := form.nameAfter f { changes.foldl FieldChange.apply f with kind := kind } changes
            (form.otherNames i j) } } := by
  unfold changeField at h
  obtain ⟨⟨i, s⟩, hat, h⟩ := bind_eq_ok.mp h
  obtain ⟨⟨j, f⟩, hfield, h⟩ := bind_eq_ok.mp h
  obtain ⟨-, -, h⟩ := bind_eq_ok.mp h
  cases hlast : lastOf? FieldChange.kind? changes with
  | none =>
      simp only [hlast, bind_eq_ok, pure_eq_ok] at h
      obtain ⟨kind, -, span, hspan, rfl⟩ := h
      exact ⟨i, s, j, f, kind, span, hat, hfield, hspan, rfl⟩
  | some name =>
      simp only [hlast, bind_eq_ok, pure_eq_ok] at h
      obtain ⟨kind, -, span, hspan, rfl⟩ := h
      exact ⟨i, s, j, f, kind, span, hat, hfield, hspan, rfl⟩

section Names

variable (label : String) (taken : List String)

theorem isSlug_derivedName (form : Form) : Name.IsSlug (form.derivedName label taken) :=
  (Name.isSlug_orElse label _).firstFree taken

theorem derivedName_not_mem (form : Form) : form.derivedName label taken ∉ taken :=
  Name.firstFree_not_mem _ _

theorem isSlug_typedName (form : Form) (typed : String) :
    Name.IsSlug (form.typedName typed label taken) := by
  rw [typedName]
  by_cases hslug : Name.slug (Text.trim typed) = ""
  · rw [if_pos hslug]
    exact isSlug_derivedName label taken form
  · rw [if_neg hslug]
    exact (Name.isSlug_slug hslug).firstFree taken

theorem typedName_not_mem (form : Form) (typed : String) :
    form.typedName typed label taken ∉ taken := by
  rw [typedName]
  by_cases hslug : Name.slug (Text.trim typed) = ""
  · rw [if_pos hslug]
    exact derivedName_not_mem label taken form
  · rw [if_neg hslug]
    exact Name.firstFree_not_mem _ _

/-- A field that is changed keeps its name or gets a free slug. -/
theorem nameAfter_cases (form : Form) (before after : Field) (changes : List FieldChange) :
    form.nameAfter before after changes taken = before.name ∨
      Name.IsSlug (form.nameAfter before after changes taken) ∧
        form.nameAfter before after changes taken ∉ taken := by
  unfold nameAfter
  split
  · exact Or.inr ⟨isSlug_typedName _ _ _ _, typedName_not_mem _ _ _ _⟩
  · split
    · exact Or.inr ⟨isSlug_derivedName _ _ _, derivedName_not_mem _ _ _⟩
    · exact Or.inl rfl

end Names

theorem fieldNames_eq_of_outline (h : new.outline = form.outline) :
    new.fieldNames = form.fieldNames := by
  have hread : ∀ f : Form, f.fieldNames = f.outline.2.flatMap fun p => p.2.map Prod.fst := by
    intro f
    simp [fieldNames, fields, outline, List.map_flatMap, List.flatMap_map, Function.comp_def]
  rw [hread, hread, h]

namespace IsSound

theorem empty : Form.empty.IsSound := by
  constructor
  · decide
  · decide
  · intro s hs
    simp [Form.empty] at hs
  · decide

theorem fits (h : form.IsSound) (hs : form.steps[i]? = some s) : s.Fits :=
  h.steps s (List.mem_of_getElem? hs)

theorem distinct_beside (h : form.IsSound) (hs : form.steps[i]? = some s) :
    (s.names ++ form.namesBeside i).Nodup :=
  (fieldNames_perm hs).nodup h.distinct

/-- A sound form stays sound with a step that fits in place of another, if its names are neither
repeated nor found in other steps. -/
theorem putStep (h : form.IsSound) (hs : form.steps[i]? = some s) (ht : t.Fits)
    (hnames : (t.names ++ form.namesBeside i).Nodup) : (form.putStep i t).IsSound := by
  refine ⟨h.columns_pos, h.columns_le, ?_, (fieldNames_putStep_perm hs t).symm.nodup hnames⟩
  intro u hu
  rcases List.mem_or_eq_of_mem_set hu with hu | rfl
  · exact h.steps u hu
  · exact ht

theorem changeForm {changes : List FormChange} (h : form.IsSound)
    (hnew : form.changeForm changes = .ok new) : new.IsSound := by
  simp only [Form.changeForm, bind_eq_ok, pure_eq_ok] at hnew
  obtain ⟨-, -, rfl⟩ := hnew
  induction changes generalizing form with
  | nil => exact h
  | cons c changes ih =>
      have hone : (c.apply form).IsSound := by
        cases c <;> exact ⟨h.columns_pos, h.columns_le, h.steps, h.distinct⟩
      exact ih hone

theorem setColumns {v : Value} (h : form.IsSound) (hnew : form.setColumns v = .ok new) :
    new.IsSound := by
  simp only [Form.setColumns, bind_eq_ok, pure_eq_ok] at hnew
  obtain ⟨columns, hcolumns, steps, hsteps, rfl⟩ := hnew
  obtain ⟨hpos, hle⟩ := Grid.columnCount_bounds hcolumns
  have hset : List.Forall₂ (fun s t => ∃ n, 1 ≤ n ∧ n ≤ Grid.maxColumns ∧ s.setColumns n = .ok t)
      form.steps steps := by
    refine (forall₂_of_mapM hsteps).imp fun s t hst => ?_
    obtain ⟨n, hn, ht⟩ := bind_eq_ok.mp hst
    obtain ⟨hn_pos, hn_le⟩ := Grid.columnCount_bounds hn
    exact ⟨n, hn_pos, hn_le, ht⟩
  refine ⟨hpos, hle, ?_, ?_⟩
  · intro t ht
    obtain ⟨s, hs, n, hn_pos, hn_le, hst⟩ := exists_left_of_forall₂ hset ht
    exact (h.steps s hs).setColumns hn_pos hn_le hst
  · have hnames : form.steps.map Step.names = steps.map Step.names := by
      refine forall₂_map_eq (hset.imp fun s t hst => ?_)
      obtain ⟨n, -, -, ht⟩ := hst
      exact (Step.names_setColumns ht).symm
    rw [fieldNames_eq, List.flatMap_def, ← hnames, ← List.flatMap_def, ← fieldNames_eq]
    exact h.distinct

theorem insertStep {k : Nat} (h : form.IsSound) (hk : k ≤ form.steps.length) (ht : t.Fits)
    (hnone : t.fields = []) : IsSound { form with steps := form.steps.insertIdx k t } := by
  have hperm := List.perm_insertIdx t form.steps hk
  refine ⟨h.columns_pos, h.columns_le, ?_, ?_⟩
  · intro s hs
    rcases List.mem_cons.mp (hperm.mem_iff.mp hs) with rfl | hs
    · exact ht
    · exact h.steps s hs
  · rw [fieldNames_eq]
    refine (hperm.flatMap_right Step.names).symm.nodup ?_
    rw [List.flatMap_cons, Step.names, hnone, ← fieldNames_eq]
    exact h.distinct

theorem addStep {id : String} {step : NewStep} (h : form.IsSound)
    (hnew : form.addStep id step = .ok new) : new.IsSound := by
  simp only [Form.addStep, bind_eq_ok, pure_eq_ok] at hnew
  obtain ⟨columns, hcolumns, rfl⟩ := hnew
  obtain ⟨hpos, hle⟩ := Grid.columnCount_bounds hcolumns
  refine h.insertStep ?_ ⟨hpos, hle, by simp⟩ rfl
  split
  · exact clampIndex_le _ _
  · exact Nat.le_refl _

theorem changeStep {changes : List StepChange} (h : form.IsSound)
    (hnew : form.changeStep index changes = .ok new) : new.IsSound := by
  simp only [Form.changeStep, bind_eq_ok, pure_eq_ok] at hnew
  obtain ⟨⟨i, s⟩, hat, -, -, t, ht, rfl⟩ := hnew
  have hs := getElem?_of_stepAt hat
  obtain ⟨hfits, hnames⟩ := (h.fits hs).change ht
  refine h.putStep hs hfits ?_
  rw [hnames]
  exact h.distinct_beside hs

theorem removeStep (h : form.IsSound) (hnew : form.removeStep index = .ok new) :
    new.IsSound := by
  simp only [Form.removeStep, bind_eq_ok, pure_eq_ok] at hnew
  obtain ⟨⟨i, s⟩, hat, rfl⟩ := hnew
  refine ⟨h.columns_pos, h.columns_le, ?_, ?_⟩
  · intro t ht
    exact h.steps t (List.mem_of_mem_eraseIdx ht)
  · have hbeside := (h.distinct_beside (getElem?_of_stepAt hat)).of_append_right
    rw [fieldNames_eq]
    exact hbeside

theorem moveStep {target : Int} (h : form.IsSound)
    (hnew : form.moveStep index target = .ok new) : new.IsSound := by
  simp only [Form.moveStep, bind_eq_ok, pure_eq_ok] at hnew
  obtain ⟨⟨i, s⟩, hat, rfl⟩ := hnew
  have hperm := moveItem_perm form.steps i target
  refine ⟨h.columns_pos, h.columns_le, ?_, ?_⟩
  · intro t ht
    exact h.steps t (hperm.mem_iff.mp ht)
  · rw [fieldNames_eq]
    refine (hperm.flatMap_right Step.names).symm.nodup ?_
    rw [← fieldNames_eq]
    exact h.distinct

theorem appendField {f : Field} (h : form.IsSound) (hs : form.steps[i]? = some s)
    (hf : f.Fits s.columns) (hfree : f.name ∉ form.fieldNames) :
    (form.putStep i { s with fields := s.fields ++ [f] }).IsSound := by
  refine h.putStep hs ((h.fits hs).withFields ?_) ?_
  · intro g hg
    rcases List.mem_append.mp hg with hg | hg
    · exact (h.fits hs).fields g hg
    · obtain rfl := List.mem_singleton.mp hg
      exact hf
  · have hnames := nodup_insert (h.distinct_beside hs)
      (fun hmem => hfree ((fieldNames_perm hs).mem_iff.mpr hmem))
    rwa [Step.names, List.map_append, List.map_singleton]

theorem addField {id label kind : String} {changes : List FieldChange} (h : form.IsSound)
    (hnew : form.addField id index label kind changes = .ok new) : new.IsSound := by
  simp only [Form.addField, stepForNewField, Field.plain, bind_eq_ok, pure_eq_ok] at hnew
  obtain ⟨⟨i, s⟩, ⟨found, hat, -, -, rfl⟩, kind, -, span, hspan, rfl⟩ := hnew
  have hs := getElem?_of_stepAt hat
  obtain ⟨hspan_pos, hspan_le⟩ := Grid.span_bounds (h.fits hs).columns_pos hspan
  let typed := ((lastOf? FieldChange.name? changes).getD none).getD ""
  have hslug := isSlug_typedName label form.fieldNames form typed
  have hfree := typedName_not_mem label form.fieldNames form typed
  generalize form.typedName _ label form.fieldNames = name at hslug hfree ⊢
  obtain ⟨hfits, hname⟩ := Field.Fits.foldl_apply (f := ⟨id, name, label, kind, false, "", [], none,
    none, none, [], none, span, none⟩) ⟨hslug, hspan_pos, hspan_le⟩ changes
  refine h.appendField hs hfits ?_
  rwa [hname]

theorem setField {f g : Field} (h : form.IsSound) (hs : form.steps[i]? = some s)
    (hf : s.fields[j]? = some f) (hg : g.Fits s.columns)
    (hname : g.name = f.name ∨ g.name ∉ form.otherNames i j) :
    (form.putStep i { s with fields := s.fields.set j g }).IsSound := by
  obtain ⟨hj, -⟩ := List.getElem?_eq_some_iff.mp hf
  have hothers := otherNames_perm hs j
  have hbefore := nodup_cons_otherNames h.distinct hs hf
  have hafter : (g.name :: form.otherNames i j).Nodup := by
    rcases hname with hname | hname
    · rwa [hname]
    · exact List.nodup_cons.mpr ⟨hname, hbefore.of_cons⟩
  refine h.putStep hs ((h.fits hs).withFields ?_) ?_
  · intro u hu
    rcases List.mem_or_eq_of_mem_set hu with hu | rfl
    · exact (h.fits hs).fields u hu
    · exact hg
  · have hset := ((List.set_perm_cons_eraseIdx hj g).map Field.name).append_right
      (form.namesBeside i)
    exact (hset.trans (hothers.symm.cons g.name)).symm.nodup hafter

theorem changeField {field : Int} {changes : List FieldChange} (h : form.IsSound)
    (hnew : form.changeField index field changes = .ok new) : new.IsSound := by
  obtain ⟨i, s, j, f, kind, span, hat, hfield, hspan, rfl⟩ := changeField_eq_ok hnew
  have hs := getElem?_of_stepAt hat
  have hf := getElem?_of_fieldAt hfield
  obtain ⟨hspan_pos, hspan_le⟩ := Grid.span_bounds (h.fits hs).columns_pos hspan
  have hbefore := (h.fits hs).fields f (List.mem_of_getElem? hf)
  have hname := nameAfter_cases (form.otherNames i j) form f
    { changes.foldl FieldChange.apply f with kind := kind } changes
  generalize form.nameAfter f _ changes (form.otherNames i j) = name at hname ⊢
  refine h.setField hs hf ⟨?_, hspan_pos, hspan_le⟩ (hname.imp_right And.right)
  rcases hname with rfl | ⟨hslug, -⟩
  · exact hbefore.named
  · exact hslug

theorem removeField {field : Int} (h : form.IsSound)
    (hnew : form.removeField index field = .ok new) : new.IsSound := by
  simp only [Form.removeField, bind_eq_ok, pure_eq_ok] at hnew
  obtain ⟨⟨i, s⟩, hat, ⟨j, f⟩, -, rfl⟩ := hnew
  have hs := getElem?_of_stepAt hat
  refine h.putStep hs ((h.fits hs).withFields ?_) ?_
  · intro g hg
    exact (h.fits hs).fields g (List.mem_of_mem_eraseIdx hg)
  · have hsub : ((s.fields.eraseIdx j).map Field.name).Sublist s.names :=
      (List.eraseIdx_sublist s.fields j).map Field.name
    exact (h.distinct_beside hs).sublist (hsub.append_right _)

theorem moveField {source target : Int} (h : form.IsSound)
    (hnew : form.moveField index source target = .ok new) : new.IsSound := by
  simp only [Form.moveField, bind_eq_ok, pure_eq_ok] at hnew
  obtain ⟨⟨i, s⟩, hat, ⟨j, f⟩, -, rfl⟩ := hnew
  have hs := getElem?_of_stepAt hat
  have hperm := moveItem_perm s.fields j target
  refine h.putStep hs ((h.fits hs).withFields ?_) ?_
  · intro g hg
    exact (h.fits hs).fields g (hperm.mem_iff.mp hg)
  · exact ((hperm.map Field.name).append_right _).symm.nodup (h.distinct_beside hs)

/-- What one edit makes of a sound form is sound. -/
theorem edit {id : String} {e : Edit} (h : form.IsSound) (hnew : form.edit id e = .ok new) :
    new.IsSound := by
  cases e with
  | changeForm changes => exact h.changeForm hnew
  | setColumns v => exact h.setColumns hnew
  | addStep step => exact h.addStep hnew
  | changeStep step changes => exact h.changeStep hnew
  | removeStep step => exact h.removeStep hnew
  | moveStep source target => exact h.moveStep hnew
  | addField step label kind changes => exact h.addField hnew
  | changeField step field changes => exact h.changeField hnew
  | removeField step field => exact h.removeField hnew
  | moveField step source target => exact h.moveField hnew

theorem perform {d : Draft} (h : d.form.IsSound) (e : Edit) : (d.perform e).1.form.IsSound := by
  unfold Draft.perform
  cases hnew : d.form.edit (Draft.idText e.idStem (d.issuedAfter e)) e with
  | ok form => exact h.edit hnew
  | error fault => exact h

theorem run {d : Draft} (h : d.form.IsSound) (edits : List Edit) : (d.run edits).form.IsSound := by
  induction edits generalizing d with
  | nil => exact h
  | cons e edits ih => exact ih (h.perform e)

/-! ### What soundness spares -/

/-- Normalizing leaves the outline of a sound form as it is. -/
theorem outline_normalize (h : form.IsSound) (hnew : form.normalize = .ok new) :
    new.outline = form.outline := by
  obtain ⟨steps, columns, hsteps, hcolumns, rfl⟩ := normalize_eq_ok hnew
  rw [Grid.columnCount_of_bounds h.columns_pos h.columns_le, Except.ok.injEq] at hcolumns
  subst hcolumns
  refine congrArg (Prod.mk form.columns) (forall₂_map_eq ?_).symm
  refine forall₂_imp_of_mem (forall₂_of_mapFrom hsteps) h.steps fun s t hs hst => ?_
  obtain ⟨index, hst⟩ := hst
  exact (hs.outline_normalize hst).symm

/-- A review of a sound form finds no repeated name. -/
theorem not_repeated_of_review {review : Review} (h : form.IsSound)
    (hreview : form.review = .ok review) :
    ∀ m ∈ review.errors, ∀ rest, m ≠ repeatedNameStart ++ rest := by
  simp only [Form.review, bind_eq_ok, pure_eq_ok] at hreview
  obtain ⟨normal, hnormal, errors, herrors, rfl⟩ := hreview
  have hnames : normal.fieldNames.Nodup := by
    rw [fieldNames_eq_of_outline (h.outline_normalize hnormal)]
    exact h.distinct
  intro m hm
  exact ne_of_mem_errors hnames herrors hm

end IsSound

end Form

/-- Whatever edits an author makes of a sound form, and whichever of them fail, the form stays
sound: normalizing leaves its names, spans and widths as they are, and a review finds no repeated
name. -/
theorem Draft.sound_run (d : Draft) (edits : List Edit) (h : d.form.IsSound) :
    (d.run edits).form.IsSound ∧
      (∀ normal, (d.run edits).form.normalize = .ok normal →
        normal.outline = (d.run edits).form.outline) ∧
      ∀ review, (d.run edits).form.review = .ok review →
        ∀ m ∈ review.errors, ∀ rest, m ≠ repeatedNameStart ++ rest := by
  have hrun := Form.IsSound.run h edits
  refine ⟨hrun, ?_, ?_⟩
  · intro normal hnormal
    exact hrun.outline_normalize hnormal
  · intro review hreview
    exact hrun.not_repeated_of_review hreview

/-- Two fields of one label in a form that becomes narrower, and a step that is not there. -/
def twoNames : List Edit :=
  [.addStep ⟨"Who", "", false, .null, none, none⟩,
    .addField 0 "Name" "text" [],
    .removeStep 3,
    .addField 0 "Name" "text" [.span (.int 3)],
    .changeStep 0 [.columns (.int 2)]]

theorem Draft.sound_run_twoNames :
    Form.empty.IsSound ∧
      (Draft.run ⟨.empty, 0⟩ twoNames).form.outline = (4, [(2, [("name", 2), ("name-2", 2)])]) ∧
      (Draft.run ⟨.empty, 0⟩ twoNames).form.IsSound :=
  ⟨Form.IsSound.empty, by decide +kernel,
    (Draft.sound_run ⟨.empty, 0⟩ twoNames Form.IsSound.empty).1⟩

end ConditionalForms
