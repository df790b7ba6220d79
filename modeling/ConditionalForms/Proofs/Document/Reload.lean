import ConditionalForms.Proofs.Document.Entry

/-!
# Reading a document back

What is read from the document of a form is described without the document: every field comes back
by itself, in the order in which the fields stand in their steps.  The references of the steps are
resolved because names are distinct, and no field is left over.

**Definitions.**
* `Form.reload`: what comes back of a form in normal form.

**Results.**
* `Structured.load_document`: the steps come back one by one.
* `Form.ofDocument_document`: the form comes back, already in normal form.
-/

namespace ConditionalForms

variable {α β : Type}

/-- Records that are loaded without warnings, whatever their positions are. -/
theorem loadRecords_eq {load : Nat → Record → Except Fault (Loaded β)} {g : α → Except Fault β}
    {xs : List α} {records : List Record}
    (h : List.Forall₂ (fun x r => ∀ i, load i r = (fun y => ⟨y, []⟩) <$> g x) xs records) :
    ∀ start, loadRecords load start (records.map .object) =
      (fun ys => ⟨ys, []⟩) <$> xs.mapM g := by
  induction h with
  | nil => exact fun _ => rfl
  | @cons x r xs records hr _ ih =>
      intro start
      rw [List.map_cons, loadRecords, hr, ih, List.mapM_cons]
      cases g x with
      | error e => rfl
      | ok y => cases xs.mapM g <;> rfl

namespace Field

/-- The record is an entry of the field, whatever its order number and step are. -/
def IsEntry (f : Field) (r : Record) : Prop := ∃ order stepKey, r = f.entry order stepKey

/-- Finding the name of the field gives one of its entries. -/
def IsNamedIn (f : Field) (named : List (String × Record)) : Prop :=
  ∃ r, f.IsEntry r ∧ named.find? (fun p => p.1 = f.name) = some (f.name, r)

end Field

theorem Step.forall₂_fieldRecords (s : Step) (index : Nat) :
    List.Forall₂ Field.IsEntry s.fields (s.fieldRecords index) := by
  refine (forall₂_zipIdx (fun i f => f.entry (orderNumber index i) s.key) s.fields 0).imp ?_
  rintro f r ⟨i, rfl⟩
  exact ⟨_, _, rfl⟩

theorem Form.forall₂_fieldRecords (form : Form) :
    List.Forall₂ Field.IsEntry form.fields form.fieldRecords := by
  have hsteps : List.Forall₂ (fun (s : Step) (p : Step × Nat) => p.1 = s) form.steps
      form.steps.zipIdx := by
    have hpairs := forall₂_zipIdx (fun i s => (s, i)) form.steps 0
    rw [List.map_id'] at hpairs
    refine hpairs.imp ?_
    rintro s p ⟨i, rfl⟩
    rfl
  refine List.rel_flatMap hsteps ?_
  rintro s ⟨_, i⟩ rfl
  exact Step.forall₂_fieldRecords _ i

namespace Structured

variable {named : List (String × Record)}

theorem namedRecords_eq {fields : List Field} {records : List Record}
    (h : List.Forall₂ Field.IsEntry fields records) (hne : ∀ f ∈ fields, f.name ≠ "") :
    ∃ named, namedRecords (records.map .object) = .ok named ∧
      List.Forall₂ (fun f p => p.1 = f.name ∧ f.IsEntry p.2) fields named := by
  induction h with
  | nil => exact ⟨[], rfl, .nil⟩
  | @cons f r fields records hr _ ih =>
      obtain ⟨named, hnamed, hall⟩ := ih fun g hg => hne g (List.mem_cons_of_mem _ hg)
      refine ⟨(f.name, r) :: named, ?_, .cons ⟨rfl, hr⟩ hall⟩
      obtain ⟨order, stepKey, rfl⟩ := hr
      have hname : (f.entry order stepKey).get "field_name" = .text f.name := by
        simp [Record.get, Field.get?_entry, Record.get?_cons]
      simp [namedRecords, hname, Value.isTruthy, hne f List.mem_cons_self, Value.plainText, hnamed]

/-- Distinct names are found. -/
theorem isNamedIn_of_nodup {fields : List Field}
    (h : List.Forall₂ (fun f p => p.1 = f.name ∧ f.IsEntry p.2) fields named)
    (hnodup : (fields.map Field.name).Nodup) : ∀ f ∈ fields, f.IsNamedIn named := by
  induction h with
  | nil => simp
  | @cons f p fields named hp _ ih =>
      obtain ⟨hname, hentry⟩ := hp
      rw [List.map_cons, List.nodup_cons] at hnodup
      intro g hg
      rcases List.mem_cons.mp hg with rfl | hg
      · refine ⟨p.2, hentry, ?_⟩
        rw [List.find?_cons_of_pos (by simpa using hname), ← hname]
      · obtain ⟨r, hr, hfind⟩ := ih hnodup.2 g hg
        have hne : p.1 ≠ g.name := by
          intro e
          exact hnodup.1 (List.mem_map.mpr ⟨g, hg, by rw [← e, hname]⟩)
        exact ⟨r, hr, by simp [hne, hfind]⟩

/-- A reference gives what the common record of the field gives. -/
theorem loadReference_eq {f : Field} {columns : Int} (hf : f.IsNormal columns)
    (hcolumns : columns ≤ Grid.maxColumns) (hnamed : f.IsNamedIn named) (i j : Nat) :
    loadReference named columns i j f.reference =
      (fun p => ⟨p, []⟩) <$> (f.name, ·) <$> f.reload columns := by
  obtain ⟨_, ⟨order, stepKey, rfl⟩, hfind⟩ := hnamed
  have hname : f.reference.textOf "field_name" = .ok f.name := by
    simp [Record.textOf, Field.reference, Record.get, Record.get?_cons, Value.isTruthy,
      hf.name_ne, Value.plainText]
  have hspan : (f.entry order stepKey).get? "column_span" = some (.int f.span) := by
    simp [Field.get?_entry, Field.get?_constraints, Record.get?_cons, Record.get?_nil]
  have hreferent : referent named f.name f.reference = f.entry order stepKey := by
    simp [referent, hfind, Field.reference, Record.get, Record.get?_cons,
      Record.set_eq_self hspan]
  simp only [loadReference, hname, ok_bind, hreferent, Field.load_entry hf hcolumns]
  cases f.reload columns <;> rfl

/-- The steps come back one by one, and all their fields are placed. -/
theorem loadSteps_eq {formColumns : Int} {steps : List Step} {records : List Record}
    (h : List.Forall₂ (fun s r => ∃ index, r = s.entry index (s.fields.map Field.reference))
      steps records)
    (hsteps : ∀ s ∈ steps, s.IsNormal ∧ ∀ f ∈ s.fields, f.IsNamedIn named) :
    ∀ (i : Nat) (p : Progress), loadSteps named formColumns i p (records.map .object) =
      (fun reloaded => ⟨p.steps ++ reloaded,
        p.placed ++ (steps.flatMap Step.fields).map Field.name, p.warnings⟩) <$>
        steps.mapM Step.reload := by
  induction h with
  | nil =>
      intro _ p
      simp [loadSteps]
      rfl
  | @cons s r steps records hr _ ih =>
      intro i p
      obtain ⟨index, rfl⟩ := hr
      obtain ⟨hs, hnamed⟩ := hsteps s List.mem_cons_self
      have hreferences : List.Forall₂ (fun f r => ∀ j,
          loadReference named s.columns i j r =
            (fun q => ⟨q, []⟩) <$> (f.name, ·) <$> f.reload s.columns)
          s.fields (s.fields.map Field.reference) := by
        rw [List.forall₂_map_right_iff, List.forall₂_same]
        intro f hf j
        exact loadReference_eq (hs.fields f hf) hs.columns_le (hnamed f hf) i j
      -- What follows depends only on whether the fields of this step come back.
      rw [List.map_cons, loadSteps, Step.columnsOf_entry hs, ok_bind, Step.listOf_entry, ok_bind,
        loadRecords_eq hreferences, mapM_pair, List.mapM_cons, Step.reload]
      cases hfields : s.fields.mapM fun f => f.reload s.columns with
      | error e => rfl
      | ok fields =>
          have hlength : s.fields.length = fields.length :=
            (forall₂_of_mapM hfields).length_eq
          have hnames : ((s.fields.map Field.name).zip fields).map Prod.fst =
              s.fields.map Field.name := List.map_fst_zip (by simp [hlength])
          have hvalues : ((s.fields.map Field.name).zip fields).map Prod.snd = fields :=
            List.map_snd_zip (by simp [hlength])
          simp only [map_ok, ok_bind, hnames, hvalues, Step.ofRecord_entry hs]
          rw [ih fun t ht => hsteps t (List.mem_cons_of_mem _ ht)]
          cases steps.mapM Step.reload <;> simp

theorem placeRest_eq {fields : List Field} {records : List Record} {p : Progress}
    (h : List.Forall₂ Field.IsEntry fields records)
    (hplaced : ∀ f ∈ fields, f.name ∈ p.placed) : placeRest p (records.map .object) = .ok p := by
  induction h with
  | nil => rfl
  | @cons f r fields records hr _ ih =>
      obtain ⟨order, stepKey, rfl⟩ := hr
      have hrecord : placeRecord p (f.entry order stepKey) = .ok p := by
        simp only [placeRecord, Field.textOf_entry, ok_bind, List.contains_eq_mem,
          hplaced f List.mem_cons_self]
        rfl
      rw [List.map_cons, placeRest, hrecord, ok_bind]
      exact ih fun g hg => hplaced g (List.mem_cons_of_mem _ hg)

/-- With distinct names, the steps of a saved form come back one by one. -/
theorem load_document {form : Form} (h : form.IsNormal) (hnodup : form.fieldNames.Nodup)
    (program : Option Int) (formColumns : Int) :
    load (form.document program) formColumns =
      (fun steps => ⟨steps, []⟩) <$> form.steps.mapM Step.reload := by
  obtain ⟨hsteps, hfields⟩ := form.listOf_document program
  have hne : ∀ f ∈ form.fields, f.name ≠ "" := by
    intro f hf
    obtain ⟨s, hs, hfs⟩ := List.mem_flatMap.mp hf
    exact ((h.steps s hs).fields f hfs).name_ne
  obtain ⟨named, hnamed, hentries⟩ := namedRecords_eq form.forall₂_fieldRecords hne
  have hfound : ∀ s ∈ form.steps, s.IsNormal ∧ ∀ f ∈ s.fields, f.IsNamedIn named := by
    intro s hs
    refine ⟨h.steps s hs, fun f hf => ?_⟩
    exact isNamedIn_of_nodup hentries hnodup f (Form.mem_fields hs hf)
  have hrecords := forall₂_zipIdx (fun i (s : Step) => s.entry i (s.fields.map Field.reference))
    form.steps 0
  rw [load, hfields, ok_bind, hnamed, ok_bind, hsteps, ok_bind,
    Form.stepRecords, loadSteps_eq hrecords hfound]
  cases form.steps.mapM Step.reload with
  | error e => rfl
  | ok steps =>
      rw [map_ok, ok_bind, placeRest_eq form.forall₂_fieldRecords]
      · rfl
      · intro f hf
        exact List.mem_append_right _ (List.mem_map_of_mem hf)

end Structured

namespace Field

theorem isNormal_of_reload {f g : Field} {columns gridColumns : Int} (h : f.IsNormal columns)
    (hgrid : 1 ≤ gridColumns) (hg : f.reload gridColumns = .ok g) : g.IsNormal gridColumns := by
  simp only [reload, bind_eq_ok, pure_eq_ok] at hg
  obtain ⟨maxLength, -, minValue, -, maxValue, -, maxFileSize, -, rfl⟩ := hg
  refine {
    id_ne := h.name_ne
    name_ne := h.name_ne
    trim_name := h.trim_name
    options := ?_
    span_pos := ?_
    span_le := Int.min_le_left _ _
    logic := h.logic }
  · cases f.kind.hasOptions with
    | true => exact h.options
    | false => exact List.not_mem_nil
  · have := h.span_pos
    show 1 ≤ min gridColumns f.span
    omega

end Field

namespace Step

variable {s t : Step}

theorem reload_eq_ok (h : s.reload = .ok t) :
    ∃ fields, (s.fields.mapM fun f => f.reload s.columns) = .ok fields ∧
      t = { s with id := s.key, fields := fields } := by
  simp only [reload, bind_eq_ok, pure_eq_ok] at h
  obtain ⟨fields, hfields, rfl⟩ := h
  exact ⟨fields, hfields, rfl⟩

theorem isNormal_of_reload (h : s.IsNormal) (ht : s.reload = .ok t) : t.IsNormal := by
  obtain ⟨fields, hfields, rfl⟩ := reload_eq_ok ht
  refine { h with id_ne := h.key_ne, fields := ?_ }
  intro g hg
  obtain ⟨f, hf, hfg⟩ := exists_left_of_forall₂ (forall₂_of_mapM hfields) hg
  exact Field.isNormal_of_reload (h.fields f hf) h.columns_pos hfg

end Step

namespace Form

/-- The program text that is read from a document. -/
def programOf : Option Int → Except Fault String
  | some n => Integer.write n
  | none => .ok ""

/-- What comes back of a form with a program number. -/
def reload (form : Form) (program : Option Int) : Except Fault Form := do
  let steps ← form.steps.mapM Step.reload
  let text ← programOf program
  return { form with program := text, steps := steps }

variable {form : Form} {program : Option Int}

/-- Reading a document whose members about the form itself are the saved ones. -/
theorem ofRecord_head (h : form.IsNormal) {rest : Record} {shape : Shape}
    (hshape : Shape.ofRecord (form.head program ++ rest) = .ok shape) :
    Loaded.value <$> ofRecord (form.head program ++ rest) = (do
      let steps ← shape.load (form.head program ++ rest) form.columns
      let text ← programOf program
      return { form with program := text, steps := steps.value }) := by
  have hcolumns : columnsOf (form.head program ++ rest) = .ok form.columns := by
    simpa [columnsOf, head, Record.get, Record.get?_cons, Value.orElse, Value.isTruthy,
      Record.firstOf] using Grid.columnCount_of_bounds h.columns_pos h.columns_le
  have hprogram : programText (form.head program ++ rest) = programOf program := by
    cases program <;>
      simp [programText, head, Record.get, Record.get?_cons, Value.ofInt?, programOf,
        Value.plainText, Value.literal, Key.literal]
  have hname : (form.head program ++ rest).firstOf ["title", "name"] (.text "") =
      .text form.name := by
    simp [Record.firstOf, head, Record.get, Record.get?_cons]
  have hdescription : (form.head program ++ rest).firstOf ["description"] (.text "") =
      .text form.description := by
    simp [Record.firstOf, head, Record.get, Record.get?_cons]
  simp only [ofRecord, hcolumns, hshape, ok_bind, hname, hdescription, hprogram, Value.plainText]
  cases shape.load (form.head program ++ rest) form.columns with
  | error e => rfl
  | ok steps => cases programOf program <;> rfl

/-- A loaded form that is normal already is not changed any more. -/
theorem ofDocument_eq {r : Record} {x : Except Fault Form}
    (h : Loaded.value <$> ofRecord r = x) (hnormal : ∀ f, x = .ok f → f.IsNormal) :
    Loaded.value <$> ofDocument (.object r) = x := by
  subst h
  cases hr : ofRecord r with
  | error e => simp only [ofDocument, hr]; rfl
  | ok loaded =>
      have hvalue : loaded.value.normalize = .ok loaded.value :=
        (hnormal loaded.value (by rw [hr]; rfl)).normalize_eq
      simp only [ofDocument, hr, ok_bind, hvalue]
      rfl

theorem reload_eq_ok {loaded : Form} (h : form.reload program = .ok loaded) :
    ∃ steps text, form.steps.mapM Step.reload = .ok steps ∧ programOf program = .ok text ∧
      loaded = { form with program := text, steps := steps } := by
  simp only [reload, bind_eq_ok, pure_eq_ok] at h
  obtain ⟨steps, hsteps, text, htext, rfl⟩ := h
  exact ⟨steps, text, hsteps, htext, rfl⟩

theorem isNormal_of_reload {loaded : Form} (h : form.IsNormal)
    (hloaded : form.reload program = .ok loaded) : loaded.IsNormal := by
  obtain ⟨steps, text, hsteps, -, rfl⟩ := reload_eq_ok hloaded
  refine ⟨h.columns_pos, h.columns_le, ?_⟩
  intro t ht
  obtain ⟨s, hs, hst⟩ := exists_left_of_forall₂ (forall₂_of_mapM hsteps) ht
  exact Step.isNormal_of_reload (h.steps s hs) hst

/-- A document with steps is of the shape that forms are saved in. -/
theorem shape_document (hsteps : form.steps ≠ []) (program : Option Int) :
    Shape.ofRecord (form.document program) = .ok .structured := by
  obtain ⟨gotSteps, gotFields⟩ := form.get_document program
  cases hform : form.steps with
  | nil => exact absurd hform hsteps
  | cons s steps => simp [Shape.ofRecord, gotSteps, gotFields, stepRecords, hform]

/-- A form in normal form with distinct names comes back from its document. -/
theorem ofDocument_document (h : form.IsNormal) (hnodup : form.fieldNames.Nodup)
    (program : Option Int) :
    Loaded.value <$> ofDocument (.object (form.document program)) = form.reload program := by
  refine ofDocument_eq ?_ fun _ => isNormal_of_reload h
  cases hsteps : form.steps with
  | nil =>
      have hshape : Shape.ofRecord (form.document program) = .ok .flat := by
        simp [Shape.ofRecord, document, head, stepRecords, hsteps, Record.get, Record.get?_cons,
          Value.isTruthy]
      have hload : Flat.load (form.document program) form.columns = .ok ⟨[], []⟩ := by
        simp [Flat.load, document, head, fieldRecords, hsteps, Record.listOf, Record.get,
          Record.get?_cons, Flat.ordered, Flat.buckets, Flat.sortedBuckets, Flat.collectBuckets,
          mapFrom]
      rw [document, ofRecord_head h hshape, reload, hsteps]
      simp only [Shape.load]
      rw [← document, hload]
      rfl
  | cons s steps =>
      have hne : form.steps ≠ [] := by simp [hsteps]
      have hshape := shape_document hne program
      rw [document, ofRecord_head h hshape, reload]
      simp only [Shape.load]
      rw [← document, Structured.load_document h hnodup]
      cases form.steps.mapM Step.reload <;> rfl

end Form

end ConditionalForms
