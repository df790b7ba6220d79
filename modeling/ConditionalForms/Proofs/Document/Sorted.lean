import ConditionalForms.Proofs.Document.Members
import ConditionalForms.Proofs.Document.Reload
import ConditionalForms.Proofs.Value.Sorted
import Mathlib.Data.List.Nodup

/-!
# Documents with their members in ascending order

The document of a form in normal form is a plain value.  Putting its members into ascending order
changes the order within the document itself, its steps, its fields and its references only, so that
the document is still loaded as the same form with the same warnings.

**Results.**
* `Form.isPlain_document`: a document is a plain value.
* `Form.ofDocument_sorted`: the sorted document is loaded like the document.
-/

namespace ConditionalForms

namespace Record

/-- A record keeps its ordered values under their names. -/
theorem alikeBut_sorted {r : Record} (hidden : List String) (h : r.HasNames)
    (hvalues : ∀ m ∈ r, m.1.name ∉ hidden → m.2.IsOrdered) : AlikeBut hidden r r.sorted := by
  intro name hname
  rw [get?_sorted h]
  cases hget : r.get? name with
  | none => rfl
  | some v =>
      have hmem := (get?_eq_some_iff h.nodup).mp hget
      rw [Option.map_some, (hvalues _ hmem hname).sorted]

theorem IsSettled.alike_sorted {r : Record} (h : r.IsSettled) : r.Alike r.sorted := fun name =>
  alikeBut_sorted [] h.names (fun m hm _ => h.values m hm) name List.not_mem_nil

theorem forall₂_alike_sorted {records : List Record} (h : ∀ r ∈ records, r.IsSettled) :
    List.Forall₂ Alike records (records.map sorted) := by
  rw [List.forall₂_map_right_iff, List.forall₂_same]
  exact fun r hr => (h r hr).alike_sorted

/-- A list of records stands under the same name, with the records sorted. -/
theorem listOf_sorted {r : Record} (h : r.HasNames) {name : String} {records : List Record}
    (hlist : r.listOf name = .ok (records.map .object)) :
    r.sorted.listOf name = .ok ((records.map sorted).map .object) := by
  rw [listOf] at hlist ⊢
  rw [get_sorted h]
  cases hv : r.get name <;> simp only [hv, Except.ok.injEq, reduceCtorEq] at hlist
  · rw [List.map_eq_nil_iff.mp hlist.symm]
    rfl
  · rw [hlist, Value.sorted_objects]

theorem isPlain_list {records : List Record}
    (h : ∀ r ∈ records, Value.IsPlain (.object r)) :
    Value.IsPlain (.list (records.map .object)) :=
  .list (List.forall_mem_map.mpr h)

theorem IsSettled.isPlain {r : Record} (h : r.IsSettled) : Value.IsPlain (.object r) :=
  .object h.names fun m hm => (h.values m hm).plain

end Record

/-- The layout of a form or a step. -/
theorem Value.isOrdered_layout (columns : Int) :
    IsOrdered (.object [("columns", .int columns)]) :=
  isOrdered_of_keys ["columns"] rfl (by decide) (by decide) (by simp [isOrdered_int])

namespace RuleGroup

theorem isOrdered_ruleToValue {allowed : Operator → Bool} {r : Rule} (h : r.IsClean allowed) :
    (ruleToValue r).IsOrdered := by
  rw [ruleToValue, h.isNull_operand]
  cases hop : r.operator.needsOperand with
  | false =>
      refine Value.isOrdered_of_keys ["field", "op"] rfl (by decide) (by decide) ?_
      simp [Value.isOrdered_text]
  | true =>
      obtain ⟨s, -, hs⟩ := h.operand hop
      rw [hs]
      refine Value.isOrdered_of_keys ["field", "op", "value"] rfl (by decide) (by decide) ?_
      simp [Value.isOrdered_text]

theorem isOrdered_cleanValue {allowed : Operator → Bool} {logic : Option RuleGroup}
    (h : IsCleanLogic allowed logic) : (cleanValue logic).IsOrdered := by
  cases logic with
  | none => exact Value.isOrdered_null
  | some g =>
      obtain ⟨-, hrules⟩ := h g rfl
      have hlist : (Value.list (g.rules.map ruleToValue)).IsOrdered :=
        Value.isOrdered_list
          (List.forall_mem_map.mpr fun r hr => isOrdered_ruleToValue (hrules r hr))
      refine Value.isOrdered_of_keys ["mode", "rules"] rfl (by decide) (by decide) ?_
      simp [Value.isOrdered_text, hlist]

end RuleGroup

namespace Field

variable {f : Field} {columns : Int}

theorem hasNames_entry (f : Field) (order : Nat) (stepKey : String) :
    (f.entry order stepKey).HasNames := by
  refine Record.hasNames_of_keys _ (by rw [entry, Record.map_fst_ofNames]) ?_
  cases hkind : f.kind <;>
    simp [constraints, hkind, FieldKind.hasOptions, FieldKind.hasMaxLength, FieldKind.hasBounds,
      FieldKind.hasFileLimits]

theorem isOrdered_constraints (f : Field) : ∀ m ∈ f.constraints, m.2.IsOrdered := by
  have htexts (texts : List String) : (textsOrNull texts).IsOrdered := by
    unfold textsOrNull
    split
    · exact Value.isOrdered_null
    · exact Value.isOrdered_list (List.forall_mem_map.mpr fun s _ => Value.isOrdered_text s)
  have hint (n : Option Int) : (Value.ofInt? n).IsOrdered := by
    cases n with
    | none => exact Value.isOrdered_null
    | some n => exact Value.isOrdered_int n
  have hbound (b : Option Bound) : (boundOrNull b).IsOrdered := by
    rcases b with _ | (n | x)
    · exact Value.isOrdered_null
    · exact Value.isOrdered_int n
    · exact Value.isOrdered_float x
  cases hkind : f.kind <;>
    simp [constraints, hkind, FieldKind.hasOptions, FieldKind.hasMaxLength, FieldKind.hasBounds,
      FieldKind.hasFileLimits, htexts, hint, hbound]

theorem isSettled_entry (h : f.IsNormal columns) (order : Nat) (stepKey : String) :
    (f.entry order stepKey).IsSettled where
  names := f.hasNames_entry order stepKey
  values := by
    have hhelp : (textOrNull f.helpText).IsOrdered := by
      unfold textOrNull
      split
      · exact Value.isOrdered_null
      · exact Value.isOrdered_text _
    refine List.forall_mem_map.mpr ?_
    rw [List.forall_mem_append, List.forall_mem_append]
    refine ⟨⟨?_, isOrdered_constraints f⟩, ?_⟩
    · simp [Value.isOrdered_text, Value.isOrdered_bool, Value.isOrdered_int, hhelp]
    · simp [Value.isOrdered_text, Value.isOrdered_int, RuleGroup.isOrdered_cleanValue h.logic]

theorem isSettled_reference (f : Field) : f.reference.IsSettled where
  names := Record.hasNames_of_keys ["field_name", "column_span"] rfl (by decide)
  values := by simp [reference, Value.isOrdered_text, Value.isOrdered_int]

end Field

namespace Step

variable {s : Step}

theorem isSettled_references (s : Step) : ∀ r ∈ s.fields.map Field.reference, r.IsSettled :=
  List.forall_mem_map.mpr fun f _ => f.isSettled_reference

theorem hasNames_entry (s : Step) (index : Nat) (records : List Record) :
    (s.entry index records).HasNames :=
  Record.hasNames_of_keys ["key", "title", "description", "order", "per_participant",
    "layout", "conditional_logic", "fields"] rfl (by decide)

/-- All members of a step but its fields are in order. -/
theorem isOrdered_entry (h : s.IsNormal) (index : Nat) (records : List Record) :
    ∀ m ∈ s.entry index records, m.1.name ∉ ["fields"] → m.2.IsOrdered := by
  have hlogic := RuleGroup.isOrdered_cleanValue h.logic
  simp [entry, Key.name, Value.isOrdered_text, Value.isOrdered_int, Value.isOrdered_bool,
    Value.isOrdered_layout, hlogic]

theorem isPlain_entry (h : s.IsNormal) (index : Nat) :
    Value.IsPlain (.object (s.entry index (s.fields.map Field.reference))) := by
  have hfields : Value.IsPlain (.list ((s.fields.map Field.reference).map .object)) :=
    Record.isPlain_list fun r hr => (s.isSettled_references r hr).isPlain
  have hlogic := (RuleGroup.isOrdered_cleanValue h.logic).plain
  refine .object (s.hasNames_entry index _) ?_
  simp only [entry, List.forall_mem_cons]
  exact ⟨.text _, .text _, .text _, .int _, .bool _, (Value.isOrdered_layout _).plain, hlogic,
    hfields, by simp⟩

theorem alikeSteps_sorted (h : s.IsNormal) (index : Nat) :
    Structured.AlikeSteps (s.entry index (s.fields.map Field.reference))
      (s.entry index (s.fields.map Field.reference)).sorted where
  but := Record.alikeBut_sorted ["fields"] (s.hasNames_entry index _) (isOrdered_entry h index _)
  fields := ⟨_, _, s.listOf_entry index _,
    Record.listOf_sorted (s.hasNames_entry index _) (s.listOf_entry index _),
    Record.forall₂_alike_sorted s.isSettled_references⟩

end Step

namespace Form

variable {form : Form}

theorem exists_step_of_mem_stepRecords {r : Record} (h : r ∈ form.stepRecords) :
    ∃ s ∈ form.steps, ∃ index, r = s.entry index (s.fields.map Field.reference) := by
  obtain ⟨p, hp, rfl⟩ := List.mem_map.mp h
  exact ⟨p.1, List.fst_mem_of_mem_zipIdx hp, p.2, rfl⟩

theorem isSettled_fieldRecords (h : form.IsNormal) : ∀ r ∈ form.fieldRecords, r.IsSettled := by
  intro r hr
  obtain ⟨f, hf, order, stepKey, rfl⟩ := exists_left_of_forall₂ form.forall₂_fieldRecords hr
  obtain ⟨s, hs, hfs⟩ := List.mem_flatMap.mp hf
  exact Field.isSettled_entry ((h.steps s hs).fields f hfs) order stepKey

theorem isOrdered_head (form : Form) (program : Option Int) :
    ∀ m ∈ form.head program, m.2.IsOrdered := by
  have hprogram : (Value.ofInt? program).IsOrdered := by
    cases program with
    | none => exact Value.isOrdered_null
    | some n => exact Value.isOrdered_int n
  simp [head, Value.isOrdered_text, Value.isOrdered_layout, hprogram]

theorem hasNames_document (form : Form) (program : Option Int) :
    (form.document program).HasNames :=
  Record.hasNames_of_keys ["program", "title", "description", "layout_config", "steps", "fields"]
    rfl (by decide)

/-- A document is a plain value. -/
theorem isPlain_document (h : form.IsNormal) (program : Option Int) :
    Value.IsPlain (.object (form.document program)) := by
  have hsteps : Value.IsPlain (.list (form.stepRecords.map .object)) := by
    refine Record.isPlain_list fun r hr => ?_
    obtain ⟨s, hs, index, rfl⟩ := exists_step_of_mem_stepRecords hr
    exact Step.isPlain_entry (h.steps s hs) index
  have hfields : Value.IsPlain (.list (form.fieldRecords.map .object)) :=
    Record.isPlain_list fun r hr => (isSettled_fieldRecords h r hr).isPlain
  refine .object (hasNames_document form program) ?_
  rw [document, List.forall_mem_append]
  refine ⟨fun m hm => (isOrdered_head form program m hm).plain, ?_⟩
  simp [hsteps, hfields]

theorem alikeBut_document (form : Form) (program : Option Int) :
    Record.AlikeBut ["steps", "fields"] (form.document program) (form.document program).sorted := by
  refine Record.alikeBut_sorted _ (hasNames_document form program) ?_
  rw [document, List.forall_mem_append]
  exact ⟨fun m hm _ => isOrdered_head form program m hm, by simp [Key.name]⟩

theorem forall₂_alikeSteps (h : form.IsNormal) :
    List.Forall₂ Structured.AlikeSteps form.stepRecords (form.stepRecords.map Record.sorted) := by
  rw [List.forall₂_map_right_iff, List.forall₂_same]
  intro r hr
  obtain ⟨s, hs, index, rfl⟩ := exists_step_of_mem_stepRecords hr
  exact Step.alikeSteps_sorted (h.steps s hs) index

/-- Without steps the document has the shape of an older one. -/
theorem ofRecord_sorted_of_empty (hform : form.steps = []) (program : Option Int) :
    ofRecord (form.document program) = ofRecord (form.document program).sorted := by
  have hnames := hasNames_document form program
  have hnoSteps : form.stepRecords = [] := by simp [stepRecords, hform]
  have hnoFields : form.fieldRecords = [] := by simp [fieldRecords, hform]
  obtain ⟨gotSteps, -⟩ := get_document form program
  obtain ⟨-, hfields⟩ := listOf_document form program
  have hsortedFields := Record.listOf_sorted hnames hfields
  rw [hnoFields] at hfields hsortedFields
  refine ofRecord_congr .flat (alikeBut_document form program) ?_ ?_ fun columns => ?_
  · simp [Shape.ofRecord, gotSteps, hnoSteps, Value.isTruthy]
  · simp [Shape.ofRecord, Record.get_sorted hnames, gotSteps, hnoSteps, Value.sorted,
      Value.isTruthy]
  · rw [Shape.load, Flat.load, Flat.load, hfields, hsortedFields]
    rfl

theorem shape_document_sorted (hform : form.steps ≠ []) (program : Option Int) :
    Shape.ofRecord (form.document program).sorted = .ok .structured := by
  obtain ⟨gotSteps, gotFields⟩ := get_document form program
  cases hsteps : form.steps with
  | nil => exact absurd hsteps hform
  | cons s steps =>
      simp [Shape.ofRecord, Record.get_sorted (hasNames_document form program), gotSteps,
        gotFields, stepRecords, hsteps, Value.sorted]

theorem ofRecord_sorted (h : form.IsNormal) (hform : form.steps ≠ []) (program : Option Int) :
    ofRecord (form.document program) = ofRecord (form.document program).sorted := by
  have hnames := hasNames_document form program
  obtain ⟨hsteps, hfields⟩ := listOf_document form program
  refine ofRecord_congr .structured (alikeBut_document form program) (shape_document hform program)
    (shape_document_sorted hform program) fun columns => ?_
  exact Structured.load_congr hsteps (Record.listOf_sorted hnames hsteps) (forall₂_alikeSteps h)
    hfields (Record.listOf_sorted hnames hfields)
    (Record.forall₂_alike_sorted (isSettled_fieldRecords h)) columns

/-- The sorted document is loaded like the document. -/
theorem ofDocument_sorted (h : form.IsNormal) (program : Option Int) :
    ofDocument (.object (form.document program).sorted) =
      ofDocument (.object (form.document program)) := by
  have hrecord : ofRecord (form.document program) = ofRecord (form.document program).sorted := by
    by_cases hform : form.steps = []
    · exact ofRecord_sorted_of_empty hform program
    · exact ofRecord_sorted h hform program
  rw [ofDocument, ofDocument, hrecord]

end Form

end ConditionalForms
