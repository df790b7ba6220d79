import ConditionalForms.Proofs.Document.Buckets
import ConditionalForms.Proofs.Document.RoundTrip

/-!
# The three shapes of documents

The document of a form can be rewritten in the two older shapes: with the records of the fields
inside the steps, and without steps.  All three are read as the same form, except that a document
without steps keeps no more of them than the order of their fields.

**Definitions.**
* `nestedDocument`, `flatDocument`: the document in the two older shapes.
* `Form.flattened`: what a document without steps keeps of a form.
* `Form.FitsOrders`: no step has fields in the order numbers of the next one.

**Results.**
* `Nested.ofDocument_nestedDocument`: the nested shape gives back the saved form.
* `Form.ofDocument_flatDocument`: the flat shape gives back what it keeps of it.
* `Flat.buckets_eq`: order numbers give back the steps that have fields.
* `Form.load_shapes`: the three shapes agree.
-/

namespace ConditionalForms

/-- The records of the steps, with the next records of fields in the place of their references. -/
def inlineFields : List Value → List Value → List Value
  | [], _ => []
  | .object step :: steps, records =>
      let count := match Record.get step "fields" with
        | .list references => references.length
        | _ => 0
      .object (Record.set step "fields" (.list (records.take count))) ::
        inlineFields steps (records.drop count)
  | v :: steps, records => v :: inlineFields steps records

/-- The document with the records of the fields inside the steps. -/
def nestedDocument (doc : Record) : Record :=
  match doc.get "steps", doc.get "fields" with
  | .list steps, .list records =>
      (doc.set "steps" (.list (inlineFields steps records))).erase "fields"
  | _, _ => doc

/-- The document without steps. -/
def flatDocument (doc : Record) : Record := doc.erase "steps"

namespace Step

theorem length_fieldRecords (s : Step) (index : Nat) :
    (s.fieldRecords index).length = s.fields.length := by
  simp [fieldRecords]

theorem set_entry (s : Step) (index : Nat) (references records : List Record) :
    (s.entry index references).set "fields" (.list (records.map .object)) =
      s.entry index records := by
  simp [entry, Record.set, Key.same_text]

end Step

theorem inlineFields_eq : ∀ steps : List (Step × Nat),
    inlineFields
        (steps.map fun p => .object (p.1.entry p.2 (p.1.fields.map Field.reference)))
        (steps.flatMap fun p => (p.1.fieldRecords p.2).map .object) =
      steps.map fun p => .object (p.1.entry p.2 (p.1.fieldRecords p.2))
  | [] => rfl
  | (s, i) :: steps => by
      have hfields : Record.get (s.entry i (s.fields.map Field.reference)) "fields" =
          .list ((s.fields.map Field.reference).map .object) := by
        simp [Step.entry, Record.get, Record.get?_cons]
      have hlength : ((s.fields.map Field.reference).map Value.object).length =
          ((s.fieldRecords i).map Value.object).length := by
        simp [Step.length_fieldRecords]
      rw [List.map_cons, List.flatMap_cons, inlineFields, hfields]
      simp only [hlength, List.take_left, List.drop_left, Step.set_entry, inlineFields_eq steps,
        List.map_cons]

example : inlineFields
    [.object [("fields", .list [.null, .null])], .object [("fields", .list [.null])]]
    [.text "a", .text "b", .text "c"] =
    [.object [("fields", .list [.text "a", .text "b"])],
      .object [("fields", .list [.text "c"])]] := by rfl

namespace Nested

/-- The steps come back one by one. -/
theorem loadSteps_eq {formColumns : Int} {steps : List Step} {records : List Record}
    (h : List.Forall₂ (fun s r => ∃ index, r = s.entry index (s.fieldRecords index))
      steps records)
    (hsteps : ∀ s ∈ steps, s.IsNormal) :
    ∀ (i : Nat) (done : Loaded (List Step)),
      loadSteps formColumns i done (records.map .object) =
        (fun reloaded => ⟨done.value ++ reloaded, done.warnings⟩) <$> steps.mapM Step.reload := by
  induction h with
  | nil =>
      intro _ done
      simp [loadSteps]
      rfl
  | @cons s r steps records hr _ ih =>
      intro i done
      obtain ⟨index, rfl⟩ := hr
      have hs : s.IsNormal := hsteps s List.mem_cons_self
      have hentries : List.Forall₂ (fun f r => ∀ j,
          Field.load r s.columns (Name.placeholder (orderNumber i j)) =
            (fun g => ⟨g, []⟩) <$> f.reload s.columns) s.fields (s.fieldRecords index) := by
        refine forall₂_imp_of_mem (s.forall₂_fieldRecords index) hs.fields ?_
        rintro f _ hf ⟨order, stepKey, rfl⟩ j
        exact Field.load_entry hf hs.columns_le _
      rw [List.map_cons, loadSteps, Step.columnsOf_entry hs, ok_bind, Step.listOf_entry, ok_bind,
        loadRecords_eq hentries, List.mapM_cons, Step.reload]
      cases s.fields.mapM fun f => f.reload s.columns with
      | error e => rfl
      | ok fields =>
          simp only [map_ok, ok_bind, Step.ofRecord_entry hs]
          rw [ih fun t ht => hsteps t (List.mem_cons_of_mem _ ht)]
          cases steps.mapM Step.reload <;> simp

/-- The document of a form in the nested shape. -/
theorem nestedDocument_document (form : Form) (program : Option Int) :
    nestedDocument (form.document program) = form.head program ++
      [(("steps" : Key), .list ((form.steps.zipIdx.map fun p =>
        p.1.entry p.2 (p.1.fieldRecords p.2)).map .object))] := by
  have hsteps : (form.document program).get "steps" = .list (form.stepRecords.map .object) := by
    simp [Form.document, Form.head, Record.get, Record.get?_cons]
  have hfields : (form.document program).get "fields" = .list (form.fieldRecords.map .object) := by
    simp [Form.document, Form.head, Record.get, Record.get?_cons]
  have hinline := inlineFields_eq form.steps.zipIdx
  simp only [nestedDocument, hsteps, hfields, Form.stepRecords, Form.fieldRecords, List.map_map,
    List.map_flatMap, Function.comp_def, hinline]
  simp [Form.document, Form.head, Record.set, Record.erase, Key.same_text]

/-- The nested shape is read as the saved form is. -/
theorem ofDocument_nestedDocument {form : Form} (h : form.IsNormal) (hsteps : form.steps ≠ [])
    (program : Option Int) :
    Loaded.value <$> Form.ofDocument (.object (nestedDocument (form.document program))) =
      form.reload program := by
  refine Form.ofDocument_eq ?_ fun _ => Form.isNormal_of_reload h
  rw [nestedDocument_document]
  generalize hrest : [(("steps" : Key), Value.list _)] = rest
  have hlist : (form.head program ++ rest).listOf "steps" =
      .ok ((form.steps.zipIdx.map fun p => p.1.entry p.2 (p.1.fieldRecords p.2)).map .object) := by
    simp [← hrest, Form.head, Record.listOf, Record.get, Record.get?_cons]
  have hshape : Shape.ofRecord (form.head program ++ rest) = .ok .nested := by
    obtain ⟨s, steps, hs⟩ := List.exists_cons_of_ne_nil hsteps
    simp [← hrest, hs, Shape.ofRecord, Form.head, Record.get, Record.has, Record.get?_cons,
      Record.get?_nil]
  have hrecords := forall₂_zipIdx (fun i (s : Step) => s.entry i (s.fieldRecords i)) form.steps 0
  rw [Form.ofRecord_head h hshape, Form.reload]
  simp only [Shape.load, load, hlist, ok_bind, loadSteps_eq hrecords h.steps, List.nil_append]
  cases form.steps.mapM Step.reload <;> rfl

end Nested

namespace Step

/-- The records of the fields of the step at a position, with their order numbers. -/
def numberedRecords (s : Step) (index : Nat) : List (Int × Record) :=
  s.fields.zipIdx.map fun p =>
    ((orderNumber index p.2 : Nat), p.1.entry (orderNumber index p.2) s.key)

theorem map_numberedRecords (s : Step) (index : Nat) :
    (s.numberedRecords index).map Prod.snd = s.fieldRecords index := by
  simp [numberedRecords, fieldRecords]

theorem pairwise_numberedRecords (s : Step) (index : Nat) :
    (s.numberedRecords index).Pairwise fun x y => x.1 < y.1 := by
  have hpositions : (s.fields.zipIdx.map Prod.snd).Pairwise (· < ·) := by
    rw [List.zipIdx_map_snd]
    exact List.pairwise_lt_range'
  rw [List.pairwise_map] at hpositions
  rw [numberedRecords, List.pairwise_map]
  refine hpositions.imp ?_
  intro p q hpq
  simp only [orderNumber]
  omega

theorem exists_of_mem_numberedRecords {s : Step} {index : Nat} {x : Int × Record}
    (h : x ∈ s.numberedRecords index) :
    ∃ j < s.fields.length, x.1 = (orderNumber index j : Nat) ∧
      ∃ f : Field, x.2 = f.entry (orderNumber index j) s.key := by
  obtain ⟨⟨f, j⟩, hp, rfl⟩ := List.mem_map.mp h
  have hj : j < s.fields.length := by
    simpa using (List.mem_zipIdx hp).2.1
  exact ⟨j, hj, rfl, f, rfl⟩

end Step

namespace Flat

theorem orderOf_entry {n : Nat} (h : n ≤ 2 ^ 53) (f : Field) (stepKey : String) :
    orderOf (f.entry n stepKey) = .ok (n : Int) := by
  have horder : (f.entry n stepKey).get "order" = .int n := by
    simp [Record.get, Field.get?_entry, Record.get?_cons]
  have hexact : Integer.IsExact (n : Int) := Integer.isExact_of_natAbs_le (by simpa using h)
  simp [orderOf, horder, Value.wholeBound?_int hexact]

theorem ordered_eq : ∀ {xs : List (Int × Record)}, (∀ x ∈ xs, orderOf x.2 = .ok x.1) →
    ordered (xs.map fun x => .object x.2) = .ok xs
  | [], _ => rfl
  | x :: xs, h => by
      have ih : ordered (xs.map fun x => .object x.2) = .ok xs :=
        ordered_eq fun y hy => h y (List.mem_cons_of_mem _ hy)
      simp [ordered, h x List.mem_cons_self, ih]

theorem bucketOf_orderNumber {i j : Nat} (h : j < 99) : bucketOf (orderNumber i j : Nat) = i := by
  simp only [bucketOf, orderNumber, orderStride]
  omega

/-- The records of all fields, with their order numbers. -/
def numberedRecords (steps : List (Step × Nat)) : List (Int × Record) :=
  steps.flatMap fun p => p.1.numberedRecords p.2

/-- The records of the steps that have fields, with their order numbers, in groups. -/
def numberedGroups (steps : List (Step × Nat)) : List (Int × List (Int × Record)) :=
  (steps.filter fun p => !p.1.fields.isEmpty).map fun p => ((p.2 : Int), p.1.numberedRecords p.2)

/-- The records of the steps that have fields, in groups. -/
def stepGroups (steps : List (Step × Nat)) : List (Int × List Record) :=
  (steps.filter fun p => !p.1.fields.isEmpty).map fun p => ((p.2 : Int), p.1.fieldRecords p.2)

theorem map_numberedGroups (steps : List (Step × Nat)) :
    ((numberedGroups steps).map fun g => (g.1, g.2.map Prod.snd)) = stepGroups steps := by
  simp [numberedGroups, stepGroups, ← Step.map_numberedRecords]

theorem flatMap_numberedGroups (steps : List (Step × Nat)) :
    (numberedGroups steps).flatMap Prod.snd = numberedRecords steps := by
  induction steps with
  | nil => rfl
  | cons p steps ih =>
      rw [numberedRecords, List.flatMap_cons, ← numberedRecords, ← ih]
      cases hfields : p.1.fields with
      | nil => simp [numberedGroups, Step.numberedRecords, hfields]
      | cons f fields => simp [numberedGroups, hfields]

theorem lt_of_mem_numberedRecords {x : Int × Record} {steps : List Step} {start : Nat}
    (h : x ∈ numberedRecords (steps.zipIdx start)) : (start : Int) * orderStride < x.1 := by
  obtain ⟨⟨s, i⟩, hp, hx⟩ := List.mem_flatMap.mp h
  obtain ⟨j, -, horder, -⟩ := Step.exists_of_mem_numberedRecords hx
  have hi : start ≤ i := (List.mem_zipIdx hp).1
  rw [horder, orderNumber, orderStride]
  omega

/-- Order numbers increase along the fields of the form, if each step has at most a stride of
them. -/
theorem pairwise_numberedRecords : ∀ (steps : List Step) (start : Nat),
    (∀ s ∈ steps, s.fields.length ≤ orderStride) →
      (numberedRecords (steps.zipIdx start)).Pairwise fun x y => x.1 < y.1
  | [], _, _ => .nil
  | s :: steps, start, h => by
      have ih := pairwise_numberedRecords steps (start + 1) fun t ht =>
        h t (List.mem_cons_of_mem _ ht)
      rw [List.zipIdx_cons, numberedRecords, List.flatMap_cons, List.pairwise_append]
      refine ⟨s.pairwise_numberedRecords start, ih, ?_⟩
      intro x (hx : x ∈ s.numberedRecords start) y hy
      obtain ⟨j, hj, hxj, -⟩ := Step.exists_of_mem_numberedRecords hx
      have hcount := h s List.mem_cons_self
      have hlater := lt_of_mem_numberedRecords hy
      rw [hxj, orderNumber]
      simp only [orderStride] at hcount hlater ⊢
      omega

/-- Steps of at most 99 fields are the buckets of their fields. -/
theorem isBucketing_numberedGroups {steps : List Step} (h : ∀ s ∈ steps, s.fields.length ≤ 99) :
    IsBucketing (numberedRecords steps.zipIdx) (numberedGroups steps.zipIdx) := by
  have hpositions : steps.zipIdx.Pairwise fun p q => p.2 < q.2 := by
    rw [← List.pairwise_map, List.zipIdx_map_snd]
    exact List.pairwise_lt_range'
  refine ⟨⟨?_, ?_, ?_⟩, ?_⟩
  · rw [numberedGroups, List.pairwise_map]
    exact (hpositions.filter _).imp fun hpq => Int.ofNat_lt.mpr hpq
  · refine List.forall_mem_map.mpr fun p hp => ?_
    have hfields := (List.mem_filter.mp hp).2
    simpa [Step.numberedRecords] using hfields
  · refine List.forall_mem_map.mpr fun p hp x hx => ?_
    obtain ⟨j, hj, horder, -⟩ := Step.exists_of_mem_numberedRecords hx
    have hcount := h p.1 (List.fst_mem_of_mem_zipIdx (List.mem_filter.mp hp).1)
    rw [horder, bucketOf_orderNumber (by omega)]
  · rw [flatMap_numberedGroups]
    refine .of_sorted ((pairwise_numberedRecords steps 0 fun s hs => ?_).imp Int.le_of_lt)
    exact Nat.le_succ_of_le (h s hs)

/-- Order numbers give back the steps that have fields. -/
theorem buckets_eq {steps : List Step} (h : ∀ s ∈ steps, s.fields.length ≤ 99) :
    buckets (numberedRecords steps.zipIdx) = stepGroups steps.zipIdx := by
  rw [buckets, (isBucketing_sortedBuckets _).unique (isBucketing_numberedGroups h),
    map_numberedGroups]

/-- The step that is made of some fields. -/
def stepOf (formColumns : Int) (index : Nat) (fields : List Field) : Step :=
  { id := Step.defaultKey index, key := Step.defaultKey index, title := Step.defaultTitle index,
    description := "", fields := fields, perParticipant := true, columns := formColumns,
    logic := none }

end Flat

namespace Field

/-- The field in a grid that may be narrower. -/
def narrow (f : Field) (columns : Int) : Field := { f with span := min f.span columns }

/-- A field comes back in another grid as it does in its own, but for its span. -/
theorem reload_narrow {f : Field} {columns : Int} (h : f.IsNormal columns) (gridColumns : Int) :
    f.reload gridColumns = (narrow · gridColumns) <$> f.reload columns := by
  have hspan : min columns f.span = f.span := Int.min_eq_right h.span_le
  simp only [reload, hspan, map_bind, map_pure, narrow, Int.min_comm f.span gridColumns]

end Field

namespace Flat

/-- The steps that are made of the steps that have fields. -/
def stepsOf (formColumns : Int) (start : Nat) (steps : List Step) : List Step :=
  ((steps.filter fun s => !s.fields.isEmpty).zipIdx start).map fun p =>
    stepOf formColumns p.2 (p.1.fields.map (·.narrow formColumns))

/-- A group of records comes back as a step of its own. -/
theorem loadStep_eq {s : Step} (h : s.IsNormal) (formColumns : Int) (position index : Nat)
    (bucket : Int) :
    loadStep formColumns position bucket (s.fieldRecords index) =
      (fun fields => ⟨stepOf formColumns position (fields.map (·.narrow formColumns)), []⟩) <$>
        s.fields.mapM fun f => f.reload s.columns := by
  have hentries : List.Forall₂ (fun f r => ∀ i : Nat,
      Field.load r formColumns (Name.placeholder (bucket * (orderStride : Int) + (i : Int) + 1)) =
        (fun g => ⟨g.narrow formColumns, []⟩) <$> f.reload s.columns)
      s.fields (s.fieldRecords index) := by
    refine forall₂_imp_of_mem (s.forall₂_fieldRecords index) h.fields ?_
    rintro f _ hf ⟨order, stepKey, rfl⟩ i
    rw [Field.load_entry hf h.columns_le, Field.reload_narrow hf, Functor.map_map]
  rw [loadStep, mapFrom_eq_mapM hentries, mapM_fmap]
  cases s.fields.mapM fun f => f.reload s.columns with
  | error e => rfl
  | ok fields => simp [stepOf, List.map_map, Function.comp_def, List.flatMap_map]

theorem stepsOf_cons_of_empty {s : Step} (h : s.fields = []) (formColumns : Int) (start : Nat)
    (steps : List Step) :
    stepsOf formColumns start (s :: steps) = stepsOf formColumns start steps := by
  simp [stepsOf, h]

theorem stepsOf_cons {s : Step} (h : s.fields ≠ []) (formColumns : Int) (start : Nat)
    (steps : List Step) :
    stepsOf formColumns start (s :: steps) =
      stepOf formColumns start (s.fields.map (·.narrow formColumns)) ::
        stepsOf formColumns (start + 1) steps := by
  simp [stepsOf, h]

/-- The groups of the steps that have fields come back one by one. -/
theorem mapFrom_loadStep (formColumns : Int) : ∀ (steps : List Step) (start position : Nat),
    (∀ s ∈ steps, s.IsNormal) →
      mapFrom (fun i g => loadStep formColumns i g.1 g.2) position
          (stepGroups (steps.zipIdx start)) =
        (fun reloaded => (stepsOf formColumns position reloaded).map fun s => ⟨s, []⟩) <$>
          steps.mapM Step.reload
  | [], _, _, _ => rfl
  | s :: steps, start, position, h => by
      have ih (position : Nat) := mapFrom_loadStep formColumns steps (start + 1) position
        fun t ht => h t (List.mem_cons_of_mem _ ht)
      by_cases hfields : s.fields = []
      · have hreload : s.reload = .ok { s with id := s.key } := by
          rw [Step.reload, hfields]
          rfl
        have hgroups : stepGroups ((s :: steps).zipIdx start) =
            stepGroups (steps.zipIdx (start + 1)) := by
          simp [stepGroups, hfields]
        rw [hgroups, ih, List.mapM_cons, hreload, ok_bind]
        cases steps.mapM Step.reload with
        | error e => rfl
        | ok reloaded =>
            have hempty := stepsOf_cons_of_empty (s := { s with id := s.key }) hfields
              formColumns position reloaded
            simp [hempty]
      · have hgroups : stepGroups ((s :: steps).zipIdx start) =
            ((start : Int), s.fieldRecords start) :: stepGroups (steps.zipIdx (start + 1)) := by
          simp [stepGroups, hfields]
        rw [hgroups, mapFrom, loadStep_eq (h s List.mem_cons_self), ih, List.mapM_cons,
          Step.reload]
        cases hreload : s.fields.mapM fun f => f.reload s.columns with
        | error e => rfl
        | ok fields =>
            have hne : fields ≠ [] := by
              rintro rfl
              exact hfields (List.length_eq_zero_iff.mp (forall₂_of_mapM hreload).length_eq)
            cases steps.mapM Step.reload with
            | error e => rfl
            | ok reloaded =>
                have hcons := stepsOf_cons (s := { s with id := s.key, fields := fields }) hne
                  formColumns position reloaded
                simp [hcons]

/-- The document of a form in the flat shape. -/
theorem flatDocument_document (form : Form) (program : Option Int) :
    flatDocument (form.document program) = form.head program ++
      [(("fields" : Key), .list (form.fieldRecords.map .object))] := by
  simp [flatDocument, Form.document, Form.head, Record.erase]

end Flat

namespace Form

/-- What a document without steps keeps of a form: the steps that have fields, numbered, with all
their fields in the grid of the form. -/
def flattened (form : Form) : Form :=
  { form with steps := Flat.stepsOf form.columns 0 form.steps }

/-- Every step has at most 99 fields, and its order numbers are held by doubles. -/
def FitsOrders (form : Form) : Prop :=
  ∀ (i : Nat) (s : Step), form.steps[i]? = some s →
    s.fields.length ≤ 99 ∧ ∀ j < s.fields.length, orderNumber i j ≤ 2 ^ 53

theorem isNormal_flattened {form : Form} (h : form.IsNormal) : form.flattened.IsNormal := by
  refine ⟨h.columns_pos, h.columns_le, ?_⟩
  intro t ht
  obtain ⟨⟨s, i⟩, hs, rfl⟩ := List.mem_map.mp ht
  have hmem : s ∈ form.steps := List.mem_of_mem_filter (List.fst_mem_of_mem_zipIdx hs)
  refine {
    id_ne := by simp [Flat.stepOf, Step.defaultKey]
    key_ne := by simp [Flat.stepOf, Step.defaultKey]
    title_ne := by simp [Flat.stepOf, Step.defaultTitle]
    columns_pos := h.columns_pos
    columns_le := h.columns_le
    fields := ?_
    logic := nofun }
  intro g hg
  obtain ⟨f, hf, rfl⟩ := List.mem_map.mp hg
  have hfield := (h.steps s hmem).fields f hf
  have hspan := hfield.span_pos
  have hcolumns := h.columns_pos
  refine { hfield with span_pos := ?_, span_le := Int.min_le_right _ _ }
  show 1 ≤ min f.span form.columns
  omega

/-- The flat shape is read as what it keeps of the saved form. -/
theorem ofDocument_flatDocument {form : Form} (h : form.IsNormal) (hfits : form.FitsOrders)
    (program : Option Int) :
    Loaded.value <$> ofDocument (.object (flatDocument (form.document program))) =
      flattened <$> form.reload program := by
  have hcount : ∀ s ∈ form.steps, s.fields.length ≤ 99 := by
    intro s hs
    obtain ⟨i, hi⟩ := List.mem_iff_getElem?.mp hs
    exact (hfits i s hi).1
  have horders : ∀ x ∈ Flat.numberedRecords form.steps.zipIdx, Flat.orderOf x.2 = .ok x.1 := by
    intro x hx
    obtain ⟨⟨s, i⟩, hp, hxs⟩ := List.mem_flatMap.mp hx
    obtain ⟨j, hj, horder, f, hf⟩ := Step.exists_of_mem_numberedRecords hxs
    have hs : form.steps[i]? = some s := List.mem_zipIdx_iff_getElem?.mp hp
    rw [hf, horder, Flat.orderOf_entry ((hfits i s hs).2 j hj)]
  have hrecords : form.fieldRecords.map .object =
      (Flat.numberedRecords form.steps.zipIdx).map fun x => Value.object x.2 := by
    simp [fieldRecords, Flat.numberedRecords, ← Step.map_numberedRecords, List.map_flatMap,
      Function.comp_def]
  refine ofDocument_eq ?_ ?_
  · rw [Flat.flatDocument_document]
    generalize hrest : [(("fields" : Key), Value.list _)] = rest
    have hlist : (form.head program ++ rest).listOf "fields" =
        .ok (form.fieldRecords.map .object) := by
      simp [← hrest, head, Record.listOf, Record.get, Record.get?_cons]
    have hshape : Shape.ofRecord (form.head program ++ rest) = .ok .flat := by
      simp [← hrest, Shape.ofRecord, head, Record.get, Record.get?_cons, Record.get?_nil,
        Value.isTruthy]
    rw [ofRecord_head h hshape, reload]
    simp only [Shape.load, Flat.load, hlist, ok_bind, hrecords, Flat.ordered_eq horders,
      Flat.buckets_eq hcount, Flat.mapFrom_loadStep form.columns form.steps 0 0 h.steps]
    cases form.steps.mapM Step.reload with
    | error e => rfl
    | ok steps => cases programOf program with
      | error e => rfl
      | ok text => simp [flattened, Function.comp_def]
  · intro f hf
    obtain ⟨loaded, hloaded, rfl⟩ := map_eq_ok.mp hf
    exact isNormal_flattened (isNormal_of_reload h hloaded)

/-- The numbers of fields of the steps. -/
def fieldCounts (form : Form) : List Nat := form.steps.map fun s => s.fields.length

theorem exists_step_of_fieldCounts {form : Form} {i n : Nat} (h : form.fieldCounts[i]? = some n) :
    ∃ s, form.steps[i]? = some s ∧ s.fields.length = n := by
  rw [fieldCounts, List.getElem?_map] at h
  exact Option.map_eq_some_iff.mp h

theorem fieldCounts_of_normalize {form normal : Form} (h : form.normalize = .ok normal) :
    normal.fieldCounts = form.fieldCounts := by
  obtain ⟨steps, columns, hsteps, -, rfl⟩ := normalize_eq_ok h
  refine (forall₂_map_eq ((forall₂_of_mapFrom hsteps).imp ?_)).symm
  rintro s t ⟨i, hst⟩
  obtain ⟨columns, fields, logic, -, hfields, -, rfl⟩ := Step.normalize_eq_ok hst
  exact (forall₂_of_mapFrom hfields).length_eq

theorem fieldCounts_of_reload {form loaded : Form} {program : Option Int}
    (h : form.reload program = .ok loaded) : loaded.fieldCounts = form.fieldCounts := by
  obtain ⟨steps, text, hsteps, -, rfl⟩ := reload_eq_ok h
  refine (forall₂_map_eq ((forall₂_of_mapM hsteps).imp ?_)).symm
  intro s t hst
  obtain ⟨fields, hfields, rfl⟩ := Step.reload_eq_ok hst
  exact (forall₂_of_mapM hfields).length_eq

theorem FitsOrders.of_normalize {form normal : Form} (h : form.FitsOrders)
    (hnormal : form.normalize = .ok normal) : normal.FitsOrders := by
  intro i t ht
  have hcount : form.fieldCounts[i]? = some t.fields.length := by
    rw [← fieldCounts_of_normalize hnormal, fieldCounts, List.getElem?_map, ht]
    rfl
  obtain ⟨s, hs, hlength⟩ := exists_step_of_fieldCounts hcount
  rw [← hlength]
  exact h i s hs

/-- The three shapes of the document of a form are read as the same form, but for what the flat
shape does not keep: it gives one step for every step that has fields.  One of them fails to be read
exactly if all of them do. -/
theorem load_shapes {form normal : Form} {doc : Record} (hdoc : form.toDocument = .ok doc)
    (hnormal : form.normalize = .ok normal) (hsteps : form.steps ≠ [])
    (hnames : normal.fieldNames.Nodup) (hfits : form.FitsOrders) :
    Loaded.value <$> ofDocument (.object (nestedDocument doc)) =
        Loaded.value <$> ofDocument (.object doc) ∧
      Loaded.value <$> ofDocument (.object (flatDocument doc)) =
        flattened <$> Loaded.value <$> ofDocument (.object doc) ∧
      ∀ loaded, ofDocument (.object doc) = .ok loaded →
        loaded.value.fieldCounts = form.fieldCounts := by
  have hn : normal.IsNormal := isNormal_of_normalize hnormal
  obtain ⟨program, -, rfl⟩ := toDocument_eq_ok hdoc hnormal
  have hreload := ofDocument_document hn hnames program
  have hne : normal.steps ≠ [] := by
    intro e
    have hcounts := fieldCounts_of_normalize hnormal
    rw [fieldCounts, e, List.map_nil] at hcounts
    exact hsteps (List.map_eq_nil_iff.mp hcounts.symm)
  refine ⟨?_, ?_, ?_⟩
  · rw [Nested.ofDocument_nestedDocument hn hne, hreload]
  · rw [ofDocument_flatDocument hn (hfits.of_normalize hnormal), hreload]
  · intro loaded hloaded
    rw [hloaded, map_ok] at hreload
    rw [fieldCounts_of_reload hreload.symm, fieldCounts_of_normalize hnormal]

theorem fitsOrders_travel : travel.FitsOrders := by
  intro i s hs
  match i, hs with
  | 0, hs =>
      obtain rfl := Option.some.inj hs
      refine ⟨by decide, fun j hj => ?_⟩
      have : j < 2 := hj
      simp only [orderNumber]
      omega
  | 1, hs =>
      obtain rfl := Option.some.inj hs
      exact ⟨by decide, fun j hj => absurd hj (Nat.not_lt_zero j)⟩

/-- The flat shape of the document about transport has only the first of its two steps. -/
theorem load_shapes_travel :
    (∃ loaded, ofDocument (.object (travel.document (some 7))) = .ok loaded) ∧
      Loaded.value <$> ofDocument (.object (flatDocument (travel.document (some 7)))) =
        flattened <$> Loaded.value <$> ofDocument (.object (travel.document (some 7))) := by
  have hnames : travel.fieldNames.Nodup := by decide
  have hloaded := ofDocument_document isNormal_travel hnames (some 7)
  rw [reload_eq holdsNumbers_travel programNumber?_travel, map_eq_ok] at hloaded
  obtain ⟨loaded, hload, -⟩ := hloaded
  exact ⟨⟨loaded, hload⟩, (load_shapes toDocument_travel isNormal_travel.normalize_eq
    (List.cons_ne_nil _ _) hnames fitsOrders_travel).2.1⟩

end Form

end ConditionalForms
