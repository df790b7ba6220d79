import ConditionalForms.Form.Normal
import ConditionalForms.Proofs.Form.Name
import ConditionalForms.Proofs.Rule.Clean
import ConditionalForms.Proofs.Value.Number

/-!
# The normal form of forms

Bringing a form into normal form is a projection: its results are normal, and a normal form stays
as it is.

**Definitions.**
* `Field.IsNormal`, `Step.IsNormal`, `Form.IsNormal`: ids, names, keys and titles are there, widths
  and spans are in range, and rules are clean.

**Results.**
* `Field.normalize_eq_ok`, `Step.normalize_eq_ok`, `Form.normalize_eq_ok`: all that normalizing
  does.
* `Form.isNormal_of_normalize`: the result is normal.
* `Form.IsNormal.normalize_eq`: a normal form stays as it is.
-/

namespace ConditionalForms

open Operator (allowedOnFields allowedOnSteps)

theorem orElseText_of_ne {s t : String} (h : s ≠ "") : orElseText s t = s := if_neg h

theorem orElseText_ne {s t : String} (h : t ≠ "") : orElseText s t ≠ "" := by
  unfold orElseText
  split
  · exact h
  · rename_i hs
    exact hs

namespace Name

/-- A name that is given, or derived from a label, or numbered. -/
theorem orElse_ne (given label : String) (n : Int) :
    orElseText (Text.trim given) (orElseText (slug label) (placeholder n)) ≠ "" :=
  orElseText_ne (orElseText_ne (placeholder_ne_empty n))

theorem trim_orElse (given label : String) (n : Int) :
    Text.trim (orElseText (Text.trim given) (orElseText (slug label) (placeholder n))) =
      orElseText (Text.trim given) (orElseText (slug label) (placeholder n)) := by
  unfold orElseText
  split
  · split
    · exact trim_placeholder n
    · exact trim_slug label
  · exact Text.trim_idem given

end Name

theorem filter_ne_empty {texts : List String} (h : "" ∉ texts) :
    texts.filter (· ≠ "") = texts := by
  rw [List.filter_eq_self]
  intro text hmem
  have hne : text ≠ "" := fun e => h (e ▸ hmem)
  simpa using hne

namespace Grid

theorem columnCount_bounds {v : Value} {n : Int} (h : columnCount v = .ok n) :
    1 ≤ n ∧ n ≤ maxColumns := by
  simp only [columnCount, bind_eq_ok] at h
  obtain ⟨x, -, h⟩ := h
  have hmax : maxColumns = 4 := rfl
  split at h <;> simp only [pure_eq_ok] at h <;> omega

theorem span_bounds {v : Value} {columns n : Int} (hcolumns : 1 ≤ columns)
    (h : span v columns = .ok n) : 1 ≤ n ∧ n ≤ columns := by
  simp only [span, bind_eq_ok] at h
  obtain ⟨x, -, h⟩ := h
  split at h <;> simp only [pure_eq_ok] at h <;> omega

theorem columnCount_of_bounds {n : Int} (hpos : 1 ≤ n) (hle : n ≤ maxColumns) :
    columnCount (.int n) = .ok n := by
  have hmax : maxColumns = 4 := rfl
  have hmin : min maxColumns n = n := by omega
  rw [columnCount_int (Integer.isExact_of_natAbs_le (by omega)), if_pos (by omega), hmin]

/-- The span of a field in a grid that may be narrower than the one it was made for. -/
theorem span_of_bounds {n columns : Int} (hpos : 1 ≤ n) (hle : n ≤ maxColumns) :
    span (.int n) columns = .ok (min columns n) := by
  have hmax : maxColumns = 4 := rfl
  rw [span_int (Integer.isExact_of_natAbs_le (by omega)), if_pos (by omega)]

end Grid

namespace Field

/-- A field of a step of some columns, as it stands in a form in normal form. -/
structure IsNormal (columns : Int) (f : Field) : Prop where
  id_ne : f.id ≠ ""
  name_ne : f.name ≠ ""
  trim_name : Text.trim f.name = f.name
  options : "" ∉ f.options
  span_pos : 1 ≤ f.span
  span_le : f.span ≤ columns
  logic : RuleGroup.IsCleanLogic allowedOnFields f.logic

variable {f normal : Field} {columns : Int} {number : Nat}

/-- The name that a field has in normal form. -/
def normalName (f : Field) (number : Nat) : String :=
  orElseText (Text.trim f.name) (orElseText (Name.slug f.label) (Name.placeholder number))

theorem normalName_ne (f : Field) (number : Nat) : f.normalName number ≠ "" :=
  Name.orElse_ne f.name f.label number

theorem trim_normalName (f : Field) (number : Nat) :
    Text.trim (f.normalName number) = f.normalName number :=
  Name.trim_orElse f.name f.label number

theorem normalize_eq_ok (h : f.normalize columns number = .ok normal) :
    ∃ span logic, Grid.span (.int f.span) columns = .ok span ∧
      RuleGroup.cleanLogic allowedOnFields f.logic = .ok logic ∧
      normal = { f with
        id := orElseText f.id (f.normalName number), name := f.normalName number,
        options := f.options.filter (· ≠ ""), span := span, logic := logic } := by
  simp only [normalize, bind_eq_ok, pure_eq_ok] at h
  obtain ⟨span, hspan, logic, hlogic, rfl⟩ := h
  exact ⟨span, logic, hspan, hlogic, rfl⟩

theorem isNormal_of_normalize (hcolumns : 1 ≤ columns)
    (h : f.normalize columns number = .ok normal) : normal.IsNormal columns := by
  obtain ⟨span, logic, hspan, hlogic, rfl⟩ := normalize_eq_ok h
  obtain ⟨hpos, hle⟩ := Grid.span_bounds hcolumns hspan
  exact {
    id_ne := orElseText_ne (normalName_ne f number)
    name_ne := normalName_ne f number
    trim_name := trim_normalName f number
    options := by simp
    span_pos := hpos
    span_le := hle
    logic := RuleGroup.isCleanLogic_of_cleanLogic hlogic }

theorem IsNormal.normalize_eq (h : f.IsNormal columns) (hcolumns : columns ≤ Grid.maxColumns) :
    f.normalize columns number = .ok f := by
  have hspan : Grid.span (.int f.span) columns = .ok f.span := by
    rw [Grid.span_of_bounds h.span_pos (Int.le_trans h.span_le hcolumns)]
    congr 1
    have := h.span_le
    omega
  simp only [normalize, hspan, RuleGroup.cleanLogic_of_isCleanLogic h.logic, ok_bind, h.trim_name,
    orElseText_of_ne h.name_ne, orElseText_of_ne h.id_ne, filter_ne_empty h.options]
  rfl

end Field

namespace Step

/-- A step as it stands in a form in normal form. -/
structure IsNormal (s : Step) : Prop where
  id_ne : s.id ≠ ""
  key_ne : s.key ≠ ""
  title_ne : s.title ≠ ""
  columns_pos : 1 ≤ s.columns
  columns_le : s.columns ≤ Grid.maxColumns
  fields : ∀ f ∈ s.fields, f.IsNormal s.columns
  logic : RuleGroup.IsCleanLogic allowedOnSteps s.logic

variable {s normal : Step} {index : Nat}

/-- The names of the fields of a step. -/
def names (s : Step) : List String := s.fields.map Field.name

/-- The key that a step has in normal form. -/
def normalKey (s : Step) (index : Nat) : String :=
  orElseText s.key (orElseText s.id (defaultKey index))

theorem normalKey_ne (s : Step) (index : Nat) : s.normalKey index ≠ "" :=
  orElseText_ne (orElseText_ne (by simp [defaultKey]))

theorem normalize_eq_ok (h : Step.normalize index s = .ok normal) :
    ∃ columns fields logic, Grid.columnCount (.int s.columns) = .ok columns ∧
      mapFrom (fun i f => f.normalize columns (orderNumber index i)) 0 s.fields = .ok fields ∧
      RuleGroup.cleanLogic allowedOnSteps s.logic = .ok logic ∧
      normal = { s with
        id := orElseText s.id (s.normalKey index), key := s.normalKey index,
        title := orElseText s.title (defaultTitle index), fields := fields, columns := columns,
        logic := logic } := by
  simp only [normalize, bind_eq_ok, pure_eq_ok] at h
  obtain ⟨columns, hcolumns, fields, hfields, logic, hlogic, rfl⟩ := h
  exact ⟨columns, fields, logic, hcolumns, hfields, hlogic, rfl⟩

theorem isNormal_of_normalize (h : Step.normalize index s = .ok normal) : normal.IsNormal := by
  obtain ⟨columns, fields, logic, hcolumns, hfields, hlogic, rfl⟩ := normalize_eq_ok h
  obtain ⟨hpos, hle⟩ := Grid.columnCount_bounds hcolumns
  refine {
    id_ne := orElseText_ne (normalKey_ne s index)
    key_ne := normalKey_ne s index
    title_ne := orElseText_ne (by simp [defaultTitle])
    columns_pos := hpos
    columns_le := hle
    fields := ?_
    logic := RuleGroup.isCleanLogic_of_cleanLogic hlogic }
  intro f hf
  obtain ⟨_, _, _, hnormal⟩ := exists_of_mem_mapFrom hfields hf
  exact Field.isNormal_of_normalize hpos hnormal

theorem IsNormal.normalize_eq (h : s.IsNormal) : Step.normalize index s = .ok s := by
  have hfields : mapFrom (fun i f => f.normalize s.columns (orderNumber index i)) 0 s.fields =
      .ok s.fields :=
    mapFrom_eq_self fun _ f hf => (h.fields f hf).normalize_eq h.columns_le
  simp only [normalize, Grid.columnCount_of_bounds h.columns_pos h.columns_le, ok_bind, hfields,
    RuleGroup.cleanLogic_of_isCleanLogic h.logic, orElseText_of_ne h.key_ne,
    orElseText_of_ne h.id_ne, orElseText_of_ne h.title_ne]
  rfl

end Step

namespace Form

/-- A form in normal form. -/
structure IsNormal (form : Form) : Prop where
  columns_pos : 1 ≤ form.columns
  columns_le : form.columns ≤ Grid.maxColumns
  steps : ∀ s ∈ form.steps, s.IsNormal

variable {form normal : Form}

theorem normalize_eq_ok (h : form.normalize = .ok normal) :
    ∃ steps columns, mapFrom Step.normalize 0 form.steps = .ok steps ∧
      Grid.columnCount (.int form.columns) = .ok columns ∧
      normal = { form with steps := steps, columns := columns } := by
  simp only [normalize, bind_eq_ok, pure_eq_ok] at h
  obtain ⟨steps, hsteps, columns, hcolumns, rfl⟩ := h
  exact ⟨steps, columns, hsteps, hcolumns, rfl⟩

theorem isNormal_of_normalize (h : form.normalize = .ok normal) : normal.IsNormal := by
  obtain ⟨steps, columns, hsteps, hcolumns, rfl⟩ := normalize_eq_ok h
  obtain ⟨hpos, hle⟩ := Grid.columnCount_bounds hcolumns
  refine ⟨hpos, hle, ?_⟩
  intro s hs
  obtain ⟨_, _, _, hnormal⟩ := exists_of_mem_mapFrom hsteps hs
  exact Step.isNormal_of_normalize hnormal

theorem IsNormal.normalize_eq (h : form.IsNormal) : form.normalize = .ok form := by
  have hsteps : mapFrom Step.normalize 0 form.steps = .ok form.steps :=
    mapFrom_eq_self fun _ s hs => (h.steps s hs).normalize_eq
  simp only [normalize, hsteps, Grid.columnCount_of_bounds h.columns_pos h.columns_le, ok_bind]
  rfl

theorem mem_fields {s : Step} {f : Field} (hs : s ∈ form.steps) (hf : f ∈ s.fields) :
    f ∈ form.fields :=
  List.mem_flatMap.mpr ⟨s, hs, hf⟩

theorem fieldNames_eq (form : Form) : form.fieldNames = form.steps.flatMap Step.names := by
  rw [fieldNames, fields, List.map_flatMap]
  rfl

/-- The fields of a normal form are those of the form, brought into normal form. -/
theorem exists_field_of_normalize {g : Field} (h : form.normalize = .ok normal)
    (hg : g ∈ normal.fields) :
    ∃ f ∈ form.fields, ∃ columns number, f.normalize columns number = .ok g := by
  obtain ⟨steps, columns, hsteps, -, rfl⟩ := normalize_eq_ok h
  obtain ⟨t, ht, hgt⟩ := List.mem_flatMap.mp hg
  obtain ⟨s, hs, index, hst⟩ := exists_of_mem_mapFrom hsteps ht
  obtain ⟨columns, fields, logic, -, hfields, -, rfl⟩ := Step.normalize_eq_ok hst
  obtain ⟨f, hf, i, hfg⟩ := exists_of_mem_mapFrom hfields hgt
  exact ⟨f, mem_fields hs hf, columns, _, hfg⟩

end Form

end ConditionalForms
