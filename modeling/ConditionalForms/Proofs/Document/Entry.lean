import ConditionalForms.Proofs.Form.Normal
import ConditionalForms.Proofs.Value.Record

/-!
# The entries of a document

A form in normal form has a document without faults, but for its program text.  Its entries are
written down here as plain records, and each of them is read back as far as it was written: only
the constraints that the kind of a field supports are kept, and numbers pass through doubles.

**Definitions.**
* `Field.entry`, `Step.entry`, `Form.document`: the records of a normal form.
* `Field.reload`, `Step.reload`: what comes back of a field and of a step.

**Results.**
* `Form.documentOfNormal_eq`: the document of a normal form consists of these records.
* `Field.load_entry`, `Step.ofRecord_entry`: reading the records gives what comes back.
-/

namespace ConditionalForms

/-- Empty texts are not read back. -/
theorem Value.texts_textsOrNull (texts : List String) :
    (textsOrNull texts).texts = .ok (texts.filter (· ≠ "")) := by
  have hread (xs : List String) : (xs.map Value.text).mapM plainText = .ok xs := by
    induction xs with
    | nil => rfl
    | cons x xs ih => rw [List.map_cons, List.mapM_cons, ih, plainText, ok_bind, ok_bind]; rfl
  cases texts with
  | nil => rfl
  | cons text rest =>
      rw [textsOrNull, if_neg (by simp), Value.texts, List.filter_map]
      exact hread _

namespace Field

/-- The record of a field whose rules are clean. -/
def entry (f : Field) (order : Nat) (stepKey : String) : Record :=
  .ofNames ([("field_name", .text f.name), ("label", .text f.label),
      ("field_type", .text f.kind.documentName), ("is_required", .bool f.required),
      ("help_text", textOrNull f.helpText), ("order", .int order)] ++
    f.constraints ++
    [("conditional_logic", RuleGroup.cleanValue f.logic), ("column_span", .int f.span),
      ("step_key", .text stepKey)])

/-- The record that refers to the field. -/
def reference (f : Field) : Record := [("field_name", .text f.name), ("column_span", .int f.span)]

/-- What comes back of a field in a grid of some columns. -/
def reload (f : Field) (columns : Int) : Except Fault Field := do
  let maxLength ← (if f.kind.hasMaxLength then Value.ofInt? f.maxLength else .null).wholeBound?
  let minValue ← (if f.kind.hasBounds then boundOrNull f.minValue else .null).bound?
  let maxValue ← (if f.kind.hasBounds then boundOrNull f.maxValue else .null).bound?
  let maxFileSize ←
    (if f.kind.hasFileLimits then Value.ofInt? f.maxFileSize else .null).wholeBound?
  return { f with
    id := f.name, options := if f.kind.hasOptions then f.options else [], maxLength := maxLength,
    minValue := minValue, maxValue := maxValue,
    fileTypes := if f.kind.hasFileLimits then f.fileTypes.filter (· ≠ "") else [],
    maxFileSize := maxFileSize, span := min columns f.span }

variable {f : Field} {columns : Int} {order : Nat} {stepKey : String}

theorem toEntry_eq {allowed : Operator → Bool} (h : RuleGroup.IsCleanLogic allowed f.logic) :
    f.toEntry order stepKey = .ok (f.entry order stepKey) := by
  rw [toEntry, RuleGroup.toValue_of_isCleanLogic h]
  rfl

/-- Looks a name up among the members of an entry. -/
theorem get?_entry (f : Field) (order : Nat) (stepKey name : String) :
    (f.entry order stepKey).get? name =
      ((Record.ofNames [("field_name", .text f.name), ("label", .text f.label),
        ("field_type", .text f.kind.documentName), ("is_required", .bool f.required),
        ("help_text", textOrNull f.helpText), ("order", .int order)]).get? name).or
      (((Record.ofNames f.constraints).get? name).or
      ((Record.ofNames [("conditional_logic", RuleGroup.cleanValue f.logic),
        ("column_span", .int f.span), ("step_key", .text stepKey)]).get? name)) := by
  rw [entry, Record.ofNames_append, Record.ofNames_append, Record.get?_append, Record.get?_append,
    Option.or_assoc]

/-- Looks a name up among the constraints of a field. -/
theorem get?_constraints (f : Field) (name : String) :
    (Record.ofNames f.constraints).get? name =
      if f.kind.hasOptions ∧ "options" = name then some (textsOrNull f.options)
      else if f.kind.hasMaxLength ∧ "max_length" = name then some (Value.ofInt? f.maxLength)
      else if f.kind.hasBounds ∧ "min_value" = name then some (boundOrNull f.minValue)
      else if f.kind.hasBounds ∧ "max_value" = name then some (boundOrNull f.maxValue)
      else if f.kind.hasFileLimits ∧ "allowed_file_types" = name then
        some (textsOrNull f.fileTypes)
      else if f.kind.hasFileLimits ∧ "max_file_size" = name then
        some (Value.ofInt? f.maxFileSize)
      else none := by
  cases hkind : f.kind <;>
    simp [constraints, hkind, FieldKind.hasOptions, FieldKind.hasMaxLength, FieldKind.hasBounds,
      FieldKind.hasFileLimits, Record.get?_cons, Record.get?_nil]

/-- The members of an entry that the kind of the field may leave out. -/
theorem get_entry_constraint (f : Field) (order : Nat) (stepKey : String) :
    (f.entry order stepKey).get "options" =
        (if f.kind.hasOptions then textsOrNull f.options else .null) ∧
      (f.entry order stepKey).get "max_length" =
        (if f.kind.hasMaxLength then Value.ofInt? f.maxLength else .null) ∧
      (f.entry order stepKey).get "min_value" =
        (if f.kind.hasBounds then boundOrNull f.minValue else .null) ∧
      (f.entry order stepKey).get "max_value" =
        (if f.kind.hasBounds then boundOrNull f.maxValue else .null) ∧
      (f.entry order stepKey).get "allowed_file_types" =
        (if f.kind.hasFileLimits then textsOrNull f.fileTypes else .null) ∧
      (f.entry order stepKey).get "max_file_size" =
        (if f.kind.hasFileLimits then Value.ofInt? f.maxFileSize else .null) := by
  cases hkind : f.kind <;>
    simp [Record.get, get?_entry, get?_constraints, Record.get?_cons, Record.get?_nil, hkind,
      FieldKind.hasOptions, FieldKind.hasMaxLength, FieldKind.hasBounds, FieldKind.hasFileLimits]

theorem labelOf_entry (f : Field) (order : Nat) (stepKey : String) :
    labelOf (f.entry order stepKey) = .ok f.label := by
  have hlabel : (f.entry order stepKey).get "label" = .text f.label := by
    simp [Record.get, get?_entry, Record.get?_cons]
  simp [labelOf, Record.firstOf, hlabel, Value.plainText]

theorem kindOf?_entry (f : Field) (order : Nat) (stepKey : String) :
    kindOf? (f.entry order stepKey) = some f.kind := by
  have hkind : (f.entry order stepKey).get "field_type" = .text f.kind.documentName := by
    simp [Record.get, get?_entry, Record.get?_cons]
  simp [kindOf?, kindValue, Record.firstOf, hkind, FieldKind.ofEitherName?_documentName]

theorem textOf_entry (f : Field) (order : Nat) (stepKey : String) :
    (f.entry order stepKey).textOf "field_name" = .ok f.name := by
  have hname : (f.entry order stepKey).get "field_name" = .text f.name := by
    simp [Record.get, get?_entry, Record.get?_cons]
  by_cases hempty : f.name = ""
  · simp [Record.textOf, hname, Value.isTruthy, hempty]
  · simp [Record.textOf, hname, Value.isTruthy, Value.plainText, hempty]

theorem nameOf_entry (hf : f.IsNormal columns) (label fallback : String) :
    nameOf (f.entry order stepKey) label fallback = .ok f.name := by
  simp only [nameOf, textOf_entry, ok_bind, hf.trim_name, orElseText_of_ne hf.name_ne]
  rfl

theorem firstOf_helpText_entry (f : Field) (order : Nat) (stepKey : String) :
    (f.entry order stepKey).firstOf ["help_text", "helpText"] (.text "") = .text f.helpText := by
  have hhelp : (f.entry order stepKey).get "help_text" = textOrNull f.helpText := by
    simp [Record.get, get?_entry, Record.get?_cons]
  have hother : (f.entry order stepKey).get "helpText" = .null := by
    simp [Record.get, get?_entry, get?_constraints, Record.get?_cons, Record.get?_nil]
  rw [Record.firstOf_pair _ _ _ _ hother, hhelp, textOrNull]
  by_cases hempty : f.helpText = ""
  · simp [hempty, Value.isNull]
  · simp [hempty, Value.isNull]

theorem firstOf_span_entry (f : Field) (order : Nat) (stepKey : String) :
    (f.entry order stepKey).firstOf ["column_span", "columnSpan"] .null = .int f.span := by
  have hspan : (f.entry order stepKey).get "column_span" = .int f.span := by
    simp [Record.get, get?_entry, get?_constraints, Record.get?_cons, Record.get?_nil]
  simp [Record.firstOf, hspan]

theorem firstOf_logic_entry (f : Field) (order : Nat) (stepKey : String) :
    (f.entry order stepKey).firstOf ["conditional_logic", "conditionalLogic"] .null =
      RuleGroup.cleanValue f.logic := by
  have hlogic : (f.entry order stepKey).get "conditional_logic" = RuleGroup.cleanValue f.logic := by
    simp [Record.get, get?_entry, get?_constraints, Record.get?_cons, Record.get?_nil]
  have hother : (f.entry order stepKey).get "conditionalLogic" = .null := by
    simp [Record.get, get?_entry, get?_constraints, Record.get?_cons, Record.get?_nil]
  rw [Record.firstOf_pair _ _ _ _ hother, hlogic]
  cases f.logic <;> rfl

theorem firstOf_required_entry (f : Field) (order : Nat) (stepKey : String) :
    (f.entry order stepKey).firstOf ["is_required", "required"] (.bool false) =
      .bool f.required := by
  have hrequired : (f.entry order stepKey).get "is_required" = .bool f.required := by
    simp [Record.get, get?_entry, Record.get?_cons]
  simp [Record.firstOf, hrequired]

/-- Reading the entry of a field in a grid that may be narrower than the one of its step. -/
theorem load_entry {gridColumns : Int} (hf : f.IsNormal columns)
    (hcolumns : columns ≤ Grid.maxColumns) (fallback : String) :
    load (f.entry order stepKey) gridColumns fallback =
      (fun g => ⟨g, []⟩) <$> f.reload gridColumns := by
  have hspan : Grid.span (.int f.span) gridColumns = .ok (min gridColumns f.span) :=
    Grid.span_of_bounds hf.span_pos (Int.le_trans hf.span_le hcolumns)
  have hoptions : (if f.kind.hasOptions then textsOrNull f.options else .null).texts =
      .ok (if f.kind.hasOptions then f.options else []) := by
    split
    · rw [Value.texts_textsOrNull, filter_ne_empty hf.options]
    · rfl
  have htypes : (if f.kind.hasFileLimits then textsOrNull f.fileTypes else .null).texts =
      .ok (if f.kind.hasFileLimits then f.fileTypes.filter (· ≠ "") else []) := by
    split
    · exact Value.texts_textsOrNull f.fileTypes
    · rfl
  obtain ⟨gotOptions, gotLength, gotMin, gotMax, gotTypes, gotSize⟩ :=
    get_entry_constraint f order stepKey
  simp only [load, recordWarnings, ofRecord, labelOf_entry, kindOf?_entry, nameOf_entry hf,
    firstOf_helpText_entry, firstOf_span_entry, firstOf_logic_entry, firstOf_required_entry,
    gotOptions, gotLength, gotMin, gotMax, gotTypes, gotSize, hspan, hoptions, htypes,
    RuleGroup.ofValue?_cleanValue hf.logic, ok_bind, pure_bind, reload, map_bind, bind_assoc]
  simp [Value.plainText, Value.isTruthy]

end Field

namespace Step

/-- The record of a step whose rules are clean, with some records as its fields. -/
def entry (s : Step) (index : Nat) (records : List Record) : Record :=
  [("key", .text s.key), ("title", .text s.title), ("description", .text s.description),
    ("order", .int (index + 1)), ("per_participant", .bool s.perParticipant),
    ("layout", .object [("columns", .int s.columns)]),
    ("conditional_logic", RuleGroup.cleanValue s.logic), ("fields", .list (records.map .object))]

/-- The records of the fields of the step at a position. -/
def fieldRecords (s : Step) (index : Nat) : List Record :=
  s.fields.zipIdx.map fun p => p.1.entry (orderNumber index p.2) s.key

/-- What comes back of a step. -/
def reload (s : Step) : Except Fault Step := do
  let fields ← s.fields.mapM fun f => f.reload s.columns
  return { s with id := s.key, fields := fields }

variable {s : Step}

theorem toEntry_eq {allowed : Operator → Bool} (h : RuleGroup.IsCleanLogic allowed s.logic)
    (index : Nat) :
    s.toEntry index = .ok (.object (s.entry index (s.fields.map Field.reference))) := by
  rw [toEntry, RuleGroup.toValue_of_isCleanLogic h, entry, List.map_map]
  rfl

theorem fieldEntries_eq (h : s.IsNormal) (index : Nat) :
    s.fieldEntries index = .ok ((s.fieldRecords index).map .object) := by
  have hentry : ∀ i, ∀ f ∈ s.fields,
      (do return Value.object (← f.toEntry (orderNumber index i) s.key)) =
        .ok (Value.object (f.entry (orderNumber index i) s.key)) := by
    intro i f hf
    rw [Field.toEntry_eq (h.fields f hf).logic]
    rfl
  rw [fieldEntries, mapFrom_eq_zipIdx hentry, fieldRecords, List.map_map]
  rfl

theorem columnsOf_entry (h : s.IsNormal) (index : Nat) (records : List Record)
    (formColumns : Int) : columnsOf (s.entry index records) formColumns = .ok s.columns := by
  simpa [columnsOf, entry, Record.get, Record.get?_cons] using
    Grid.columnCount_of_bounds h.columns_pos h.columns_le

theorem listOf_entry (s : Step) (index : Nat) (records : List Record) :
    (s.entry index records).listOf "fields" = .ok (records.map .object) := by
  simp [Record.listOf, entry, Record.get, Record.get?_cons]

/-- The record of a step is read back with whatever fields were loaded. -/
theorem ofRecord_entry (h : s.IsNormal) (index position : Nat) (records : List Record)
    (fields : List Field) :
    ofRecord (s.entry index records) position fields s.columns =
      .ok { s with id := s.key, fields := fields } := by
  have hlogic : (s.entry index records).firstOf ["conditional_logic", "conditionalLogic"] .null =
      RuleGroup.cleanValue s.logic := by
    have hother : (s.entry index records).get "conditionalLogic" = .null := by
      simp [entry, Record.get, Record.get?_cons, Record.get?_nil]
    rw [Record.firstOf_pair _ _ _ _ hother]
    cases hl : s.logic <;>
      simp [entry, Record.get, Record.get?_cons, hl, RuleGroup.cleanValue, Value.isNull]
  simp only [ofRecord, hlogic, RuleGroup.ofValue?_cleanValue h.logic]
  simp [entry, Record.firstOf, Record.get, Record.get?_cons, Record.get?_nil, Value.isTruthy,
    h.key_ne, Value.plainText]

end Step

namespace Form

/-- The records of the steps, which refer to their fields by name. -/
def stepRecords (form : Form) : List Record :=
  form.steps.zipIdx.map fun p => p.1.entry p.2 (p.1.fields.map Field.reference)

/-- The records of all fields. -/
def fieldRecords (form : Form) : List Record :=
  form.steps.zipIdx.flatMap fun p => p.1.fieldRecords p.2

/-- The members of a document that are about the form itself. -/
def head (form : Form) (program : Option Int) : Record :=
  [("program", Value.ofInt? program), ("title", .text form.name),
    ("description", .text form.description),
    ("layout_config", .object [("columns", .int form.columns)])]

/-- The document of a form in normal form with a program number. -/
def document (form : Form) (program : Option Int) : Record :=
  form.head program ++ [(("steps" : Key), .list (form.stepRecords.map .object)),
    (("fields" : Key), .list (form.fieldRecords.map .object))]

theorem get_document (form : Form) (program : Option Int) :
    (form.document program).get "steps" = .list (form.stepRecords.map .object) ∧
      (form.document program).get "fields" = .list (form.fieldRecords.map .object) := by
  simp [document, head, Record.get, Record.get?_cons]

theorem listOf_document (form : Form) (program : Option Int) :
    (form.document program).listOf "steps" = .ok (form.stepRecords.map .object) ∧
      (form.document program).listOf "fields" = .ok (form.fieldRecords.map .object) := by
  obtain ⟨hsteps, hfields⟩ := get_document form program
  simp [Record.listOf, hsteps, hfields]

/-- Saving a form in normal form fails only over its program text. -/
theorem documentOfNormal_eq {form : Form} (h : form.IsNormal) :
    form.documentOfNormal = form.document <$> programNumber? (.text form.program) := by
  have hparts : mapFrom (fun i s => do
        let entries ← s.fieldEntries i
        let entry ← s.toEntry i
        return (entries, entry)) 0 form.steps =
      .ok (form.steps.zipIdx.map fun p => ((p.1.fieldRecords p.2).map .object,
        .object (p.1.entry p.2 (p.1.fields.map Field.reference)))) := by
    refine mapFrom_eq_zipIdx (g := fun i (s : Step) => ((s.fieldRecords i).map Value.object,
      Value.object (s.entry i (s.fields.map Field.reference)))) fun i s hs => ?_
    rw [Step.fieldEntries_eq (h.steps s hs), ok_bind, Step.toEntry_eq (h.steps s hs).logic]
    rfl
  rw [documentOfNormal, hparts, ok_bind]
  cases programNumber? (.text form.program) with
  | error e => rfl
  | ok program =>
      simp [document, head, stepRecords, fieldRecords, List.map_map, List.flatMap_map,
        List.map_flatMap, Function.comp_def]

end Form

end ConditionalForms
