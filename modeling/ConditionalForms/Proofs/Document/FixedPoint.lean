import ConditionalForms.Document.Text
import ConditionalForms.Proofs.Document.Loaded
import ConditionalForms.Proofs.Document.RoundTrip
import ConditionalForms.Proofs.Document.Sorted
import ConditionalForms.Proofs.Json.RoundTrip

/-!
# Loading brings a document into a form that stays

Whatever document a form is loaded from, in whichever shape, its JSON text is read back as a form
with the same JSON text: everything that loading can give is among what is written and read
unchanged.  Reading the text gives no warnings unless the form has no steps: a document without steps
has the shape of an older one.

**Definitions.**
* `Field.SavedLike`, `Step.SavedLike`: the same records in a document.

**Results.**
* `Field.savedLike_of_reload`: a field that was read comes back with the same record.
* `Form.document_of_reload`: a form that was read comes back with the same document.
* `Form.exists_ofJson_toJson`: the JSON text of a loaded form is read as a form with that text.
-/

namespace ConditionalForms

open Integer (IsExact)

namespace Field

/-- The second field has the same records in a document as the first one. -/
structure SavedLike (f g : Field) : Prop where
  entry : ∀ order stepKey, g.entry order stepKey = f.entry order stepKey
  reference : g.reference = f.reference

theorem canonical_map_eq {b : Option Bound} (h : ∀ x ∈ b, x.IsRead) :
    b.map Bound.canonical = b := by
  cases b with
  | none => rfl
  | some x => rw [Option.map_some, (h x rfl).canonical]

/-- A field that was read comes back with the same records. -/
theorem savedLike_of_reload {f : Field} {columns : Int} (hf : f.IsNormal columns)
    (hread : f.IsRead) : ∃ g, f.reload columns = .ok g ∧ f.SavedLike g := by
  have hspan : min columns f.span = f.span := Int.min_eq_right hf.span_le
  rw [reload, wholeBound?_ite hread.maxLength, bound?_ite fun b hb => (hread.minValue b hb).exact,
    bound?_ite fun b hb => (hread.maxValue b hb).exact, wholeBound?_ite hread.maxFileSize,
    canonical_map_eq hread.minValue, canonical_map_eq hread.maxValue]
  refine ⟨_, rfl, ?_, ?_⟩
  · intro order stepKey
    simp only [entry, constraints, hspan, filter_ne_empty hread.fileTypes]
    cases hkind : f.kind <;> rfl
  · simp only [reference, hspan]

end Field

namespace Step

/-- The second step has the same records in a document as the first one. -/
structure SavedLike (s t : Step) : Prop where
  entry : ∀ index, t.entry index (t.fields.map Field.reference) =
    s.entry index (s.fields.map Field.reference)
  fieldRecords : ∀ index, t.fieldRecords index = s.fieldRecords index

theorem savedLike_of_reload {s : Step} (hs : s.IsNormal) (hread : s.IsRead) :
    ∃ t, s.reload = .ok t ∧ s.SavedLike t := by
  obtain ⟨fields, hfields, hall⟩ := exists_mapM_of_forall fun f hf =>
    Field.savedLike_of_reload (hs.fields f hf) (hread f hf)
  refine ⟨{ s with id := s.key, fields := fields }, by rw [reload, hfields]; rfl, ?_, ?_⟩
  · intro index
    have hreferences : fields.map Field.reference = s.fields.map Field.reference :=
      (forall₂_map_eq (hall.imp fun _ _ h => h.reference.symm)).symm
    rw [entry, entry, hreferences]
  · intro index
    exact zipIdx_map_eq_of_forall₂ (f := fun f i => f.entry (orderNumber index i) s.key)
      (g := fun f i => f.entry (orderNumber index i) s.key) hall (fun _ _ h i => h.entry _ _) 0

end Step

namespace Form

/-- The second form has the same document as the first one. -/
theorem document_of_reload {form : Form} (hform : form.IsNormal) (hread : form.IsRead)
    {program : Option Int} (hprogram : programNumber? (.text form.program) = .ok program) :
    ∃ loaded, form.reload program = .ok loaded ∧
      programNumber? (.text loaded.program) = .ok program ∧
      loaded.document program = form.document program := by
  obtain ⟨steps, hsteps, hall⟩ := exists_mapM_of_forall fun s hs =>
    Step.savedLike_of_reload (hform.steps s hs) (hread s hs)
  refine ⟨{ form with program := (program.map Integer.decimalText).getD "", steps := steps }, ?_,
    programNumber?_of_programOf hprogram, ?_⟩
  · rw [reload, hsteps, ok_bind, programOf_of_programNumber? hprogram]
    rfl
  · have hrecords := zipIdx_map_eq_of_forall₂
      (f := fun (s : Step) i => s.entry i (s.fields.map Field.reference))
      (g := fun (s : Step) i => s.entry i (s.fields.map Field.reference)) hall
      (fun _ _ h i => h.entry i) 0
    have hfields := zipIdx_map_eq_of_forall₂ (f := Step.fieldRecords) (g := Step.fieldRecords) hall
      (fun _ _ h i => h.fieldRecords i) 0
    rw [document, document, stepRecords, stepRecords, fieldRecords, fieldRecords, List.flatMap_def,
      List.flatMap_def, hrecords, hfields]
    rfl

variable {form : Form} {loaded : Loaded Form}

/-- Only a document without steps is taken for one of an older shape. -/
theorem warnings_of_ofDocument (hform : form.IsNormal) (hnodup : form.fieldNames.Nodup)
    {program : Option Int} (hsteps : form.steps ≠ [])
    (h : ofDocument (.object (form.document program)) = .ok loaded) : loaded.warnings = [] := by
  have hshape := shape_document hsteps program
  simp only [ofDocument, ofRecord, bind_eq_ok, pure_eq_ok] at h
  obtain ⟨raw, ⟨columns, -, shape, hshape', steps, hload, name, -, description, -, text, -, rfl⟩,
    normal, -, rfl⟩ := h
  obtain rfl := Except.ok.inj (hshape.symm.trans hshape')
  rw [Shape.load, Structured.load_document hform hnodup, map_eq_ok] at hload
  obtain ⟨reloaded, -, rfl⟩ := hload
  rfl

/-- The JSON text of a loaded form is read as a form with the same JSON text, and without warnings
when the form has steps. -/
theorem exists_ofJson_toJson {v : Value} {text : String} (hload : ofDocument v = .ok loaded)
    (hnodup : loaded.value.fieldNames.Nodup) (htext : loaded.value.toJson = .ok text) :
    ∃ again, ofJson text = .ok again ∧ again.value.toJson = .ok text ∧
      (loaded.value.steps ≠ [] → again.warnings = []) := by
  obtain ⟨hread, hnormal⟩ := isRead_of_ofDocument hload
  simp only [toJson, bind_eq_ok] at htext
  obtain ⟨doc, hdoc, hwrite⟩ := htext
  obtain ⟨program, hprogram, rfl⟩ := toDocument_eq_ok hdoc hnormal.normalize_eq
  obtain ⟨form, hform, hformProgram, hdocument⟩ := document_of_reload hnormal hread hprogram
  have hvalue := ofDocument_document hnormal hnodup program
  rw [hform, map_eq_ok] at hvalue
  obtain ⟨again, hagain, rfl⟩ := hvalue
  -- the text holds the members in ascending order, which loading does not see
  have hparsed := Json.read_write (isPlain_document hnormal program) hwrite
  have hagainNormal := (isRead_of_ofDocument hagain).2
  refine ⟨again, ?_, ?_, fun hsteps => warnings_of_ofDocument hnormal hnodup hsteps hagain⟩
  · rw [ofJson, hparsed, ok_bind, Value.sorted_object, ofDocument_sorted hnormal, hagain]
  · rw [toJson, toDocument, hagainNormal.normalize_eq, ok_bind, documentOfNormal_eq hagainNormal,
      hformProgram, map_ok, ok_bind, hdocument, hwrite]

/-- A document of the flat shape without a name for its field, whose bound is a text. -/
def tripRecord : Record :=
  [("title", .text "Trip"),
    ("fields", .list [.object [("label", .text "Age"), ("type", .text "number"),
      ("min_value", .text "2.5"), ("order", .int 101)]])]

theorem exists_ofJson_toJson_trip :
    ∃ loaded text again, ofDocument (.object tripRecord) = .ok loaded ∧
      loaded.value.fieldNames = ["age"] ∧
      loaded.warnings = ["Loading form from legacy 'flat' payload shape"] ∧
      loaded.value.toJson = .ok text ∧ ofJson text = .ok again ∧
      again.value.toJson = .ok text ∧ again.warnings = [] := by
  have hcheck : ((ofDocument (.object tripRecord)).toOption.any fun loaded =>
      loaded.value.fieldNames == ["age"] && !loaded.value.steps.isEmpty &&
        loaded.warnings == ["Loading form from legacy 'flat' payload shape"] &&
        loaded.value.toJson.toOption.isSome) = true := by decide +kernel
  cases hload : ofDocument (.object tripRecord) with
  | error e => simp [hload, Except.toOption] at hcheck
  | ok loaded =>
      simp only [hload, Except.toOption, Option.any_some, Bool.and_eq_true, beq_iff_eq,
        Bool.not_eq_true', List.isEmpty_eq_false_iff] at hcheck
      obtain ⟨⟨⟨hnames, hsteps⟩, hwarnings⟩, hsome⟩ := hcheck
      cases htext : loaded.value.toJson with
      | error e => simp [htext] at hsome
      | ok text =>
          obtain ⟨again, hagain, hsame, hsilent⟩ :=
            exists_ofJson_toJson hload (by rw [hnames]; decide) htext
          exact ⟨loaded, text, again, rfl, hnames, hwarnings, htext, hagain, hsame, hsilent hsteps⟩

end Form

end ConditionalForms
