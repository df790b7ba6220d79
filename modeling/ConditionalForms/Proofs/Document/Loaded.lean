import ConditionalForms.Proofs.Document.Failure

/-!
# What loading can give

A document may hold anything, but the fields that are loaded from one hold only what a saved field
gives back: numbers that doubles hold, in the kind that they are read in, and file types that are
not empty.  All three shapes load their fields in the same way, so that this holds for every loaded
form.

**Definitions.**
* `Field.IsRead`, `Form.IsRead`: the numbers and file types are as they are read.

**Results.**
* `Value.isRead_of_bound?`, `Value.isExact_of_wholeBound?`: what is read of a number.
* `Form.isRead_of_ofDocument`: every loaded form is as it is read.
* `Form.IsLoaded.exists_field_of_normalize`: loaded fields stay in their places in normal form.
-/

namespace ConditionalForms

open Integer (IsExact)

/-- The bound is held by a double and in the kind that it is read in. -/
structure Bound.IsRead (b : Bound) : Prop where
  exact : b.IsExact
  canonical : b.canonical = b

namespace Value

theorem isRead_of_bound? {v : Value} {b : Bound} (h : v.bound? = .ok (some b)) : b.IsRead := by
  unfold bound? at h
  split at h
  · simp at h
  · simp at h
  · rw [bind_eq_ok] at h
    obtain ⟨found, -, h⟩ := h
    cases found with
    | none => simp at h
    | some x =>
        cases hfinite : x.isFinite with
        | false => simp [hfinite] at h
        | true => cases hx : x.integer? with
          | none =>
              obtain rfl : Bound.float x = b := by simpa [hfinite, hx] using h
              exact ⟨hfinite, by simp [Bound.canonical, hx]⟩
          | some n =>
              obtain rfl : Bound.int n = b := by simpa [hfinite, hx] using h
              exact ⟨Integer.isExact_of_integer? hx, rfl⟩

theorem isExact_of_wholeBound? {v : Value} {n : Int} (h : v.wholeBound? = .ok (some n)) :
    IsExact n := by
  have hbool : ∀ b, v ≠ .bool b := by
    rintro b rfl
    cases h
  rw [wholeBound?_eq hbool, map_eq_ok] at h
  obtain ⟨found, -, htruncate⟩ := h
  obtain ⟨x, -, hx⟩ := Option.bind_eq_some_iff.mp htruncate
  exact Integer.isExact_of_truncate? hx

end Value

/-- The numbers and file types of the field are as they are read. -/
structure Field.IsRead (f : Field) : Prop where
  maxLength : ∀ n ∈ f.maxLength, IsExact n
  minValue : ∀ b ∈ f.minValue, b.IsRead
  maxValue : ∀ b ∈ f.maxValue, b.IsRead
  maxFileSize : ∀ n ∈ f.maxFileSize, IsExact n
  fileTypes : "" ∉ f.fileTypes

theorem Field.isRead_of_ofRecord {r : Record} {columns : Int} {fallback : String} {f : Field}
    (h : ofRecord r columns fallback = .ok f) : f.IsRead := by
  obtain ⟨hmembers, -⟩ := hasMembers_of_ofRecord h
  refine ⟨?_, ?_, ?_, ?_, Value.empty_notMem_texts hmembers.fileTypes⟩
  · exact fun n hn => Value.isExact_of_wholeBound? (hn ▸ hmembers.maxLength)
  · exact fun b hb => Value.isRead_of_bound? (hb ▸ hmembers.minValue)
  · exact fun b hb => Value.isRead_of_bound? (hb ▸ hmembers.maxValue)
  · exact fun n hn => Value.isExact_of_wholeBound? (hn ▸ hmembers.maxFileSize)

/-- All fields of the step are as they are read. -/
def Step.IsRead (s : Step) : Prop := ∀ f ∈ s.fields, f.IsRead

/-- All fields of the form are as they are read. -/
def Form.IsRead (form : Form) : Prop := ∀ s ∈ form.steps, s.IsRead

theorem Step.IsLoaded.isRead {s : Step} (h : s.IsLoaded) : s.IsRead := by
  intro f hf
  obtain ⟨r, fallback, hload⟩ := h.fields f hf
  exact Field.isRead_of_ofRecord hload

/-- Bringing a loaded step into normal form keeps its key, its columns and the places of its
fields. -/
theorem Step.IsLoaded.normalize_eq_ok {s t : Step} {index : Nat} (hs : s.IsLoaded)
    (h : s.normalize index = .ok t) :
    t.key = s.key ∧ t.columns = s.columns ∧
      mapFrom (fun i f => f.normalize s.columns (orderNumber index i)) 0 s.fields =
        .ok t.fields := by
  obtain ⟨columns, fields, logic, hcolumns, hfields, -, rfl⟩ := Step.normalize_eq_ok h
  rw [Grid.columnCount_of_bounds hs.columns_pos hs.columns_le] at hcolumns
  obtain rfl := Except.ok.inj hcolumns
  exact ⟨orElseText_of_ne hs.key_ne, rfl, hfields⟩

namespace Form

variable {form normal : Form}

/-- In normal form the field at a place is the normal form of the loaded one. -/
theorem IsLoaded.exists_field_of_normalize (hloaded : form.IsLoaded)
    (h : form.normalize = .ok normal) {i n : Nat} {s : Step} {raw : Field}
    (hs : form.steps[i]? = some s) (hraw : s.fields[n]? = some raw) :
    ∃ t f number, normal.steps[i]? = some t ∧ t.fields[n]? = some f ∧ t.columns = s.columns ∧
      raw.normalize s.columns number = .ok f := by
  obtain ⟨steps, columns, hsteps, -, rfl⟩ := normalize_eq_ok h
  obtain ⟨t, ht, index, hst⟩ := exists_getElem?_of_forall₂ (forall₂_of_mapFrom hsteps) hs
  obtain ⟨-, hcolumns, hfields⟩ :=
    (hloaded.steps s (List.mem_of_getElem? hs)).normalize_eq_ok hst
  obtain ⟨f, hf, j, hnormal⟩ := exists_getElem?_of_forall₂ (forall₂_of_mapFrom hfields) hraw
  exact ⟨t, f, _, ht, hf, hcolumns, hnormal⟩

/-- Steps that are loaded keep their keys in normal form. -/
theorem IsLoaded.keys_eq_of_normalize (hloaded : form.IsLoaded)
    (h : form.normalize = .ok normal) : normal.steps.map Step.key = form.steps.map Step.key := by
  obtain ⟨steps, columns, hsteps, -, rfl⟩ := normalize_eq_ok h
  have hkeys : List.Forall₂ (fun s t : Step => s.key = t.key) form.steps steps := by
    refine forall₂_imp_of_mem (forall₂_of_mapFrom hsteps) hloaded.steps fun s t hs hst => ?_
    obtain ⟨number, hst⟩ := hst
    exact (hs.normalize_eq_ok hst).1.symm
  exact (forall₂_map_eq hkeys).symm

theorem IsRead.fields (h : form.IsRead) : ∀ f ∈ form.fields, f.IsRead := by
  intro f hf
  obtain ⟨s, hs, hfs⟩ := List.mem_flatMap.mp hf
  exact h s hs f hfs

/-- Bringing a form into normal form does not touch its numbers and file types. -/
theorem IsRead.of_normalize (h : form.IsRead) (hnormal : form.normalize = .ok normal) :
    normal.IsRead := by
  intro t ht g hg
  obtain ⟨f, hf, columns, number, hfg⟩ := exists_field_of_normalize hnormal (mem_fields ht hg)
  have hread := h.fields f hf
  obtain ⟨span, logic, -, -, rfl⟩ := Field.normalize_eq_ok hfg
  exact ⟨hread.maxLength, hread.minValue, hread.maxValue, hread.maxFileSize, hread.fileTypes⟩

/-- Every loaded form is as it is read, and in normal form. -/
theorem isRead_of_ofDocument {v : Value} {loaded : Loaded Form} (h : ofDocument v = .ok loaded) :
    loaded.value.IsRead ∧ loaded.value.IsNormal := by
  cases v with
  | object r =>
      simp only [ofDocument, bind_eq_ok, pure_eq_ok] at h
      obtain ⟨raw, hraw, form, hform, rfl⟩ := h
      have hloaded := (contract_ofRecord r).of_ok hraw
      have hread : raw.value.IsRead := fun s hs => (hloaded.steps s hs).isRead
      exact ⟨hread.of_normalize hform, isNormal_of_normalize hform⟩
  | _ => simp [ofDocument] at h

end Form

end ConditionalForms
