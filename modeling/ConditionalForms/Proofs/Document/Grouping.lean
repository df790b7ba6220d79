import ConditionalForms.Proofs.Document.Buckets
import ConditionalForms.Proofs.Document.Filling

/-!
# The fields of a document without steps

Documents may have fields only.  All of them are loaded, in the order of their numbers, and fields
with one number stay in the order of the document.  Steps are made of them: a step for every bucket
of a hundred numbers that has any.

**Definitions.**
* `Record.orderKey`: the number that a record is sorted by.
* `Form.IsGroupedFrom`: a form that has its steps from the numbers of records.

**Results.**
* `Flat.isMadeFrom_of_loadStep`: what is loaded from one bucket.
* `Form.isGroupedFrom_of_isCut`: the steps of buckets hold the records in order.
* `Form.isGroupedFrom_of_ofDocument`: what a document without steps is loaded as.
-/

namespace ConditionalForms

/-- The integer part, toward zero, of the number that a value converts to.  It is zero for truth
values, for values and texts that are no number, and for numbers that are not finite. -/
def Value.wholePart : Value → Int
  | .bool _ => 0
  | v => match v.double? with
    | .ok (some x) => x.truncate?.getD 0
    | _ => 0

/-- The number that a record is sorted by. -/
def Record.orderKey (r : Record) : Int := (r.get "order").wholePart

/-- The form has all its fields from records, in their order.  Two fields stand in one step exactly
if their numbers have the same hundreds, no step is empty, and the steps are numbered. -/
structure Form.IsGroupedFrom (form : Form) (rs : List Record) : Prop where
  fields : List.Forall₂ (fun p r => p.2.2.IsMadeFrom r p.2.1.columns) form.placedFields rs
  together : ∀ x ∈ form.placedFields.zip rs, ∀ y ∈ form.placedFields.zip rs,
    (x.1.1 = y.1.1 ↔ x.2.orderKey / 100 = y.2.orderKey / 100)
  nonempty : ∀ s ∈ form.steps, s.fields ≠ []
  numbered : ∀ (i : Nat) (s : Step), form.steps[i]? = some s →
    s.key = "step-" ++ toString (i + 1) ∧ s.title = "Step " ++ toString (i + 1)

/-- The integer part of the number that counts as one, or zero, is the integer part of the value. -/
theorem Value.wholeBound?_getD {v : Value} {n? : Option Int} (h : v.wholeBound? = .ok n?) :
    n?.getD 0 = v.wholePart := by
  by_cases hbool : ∃ b, v = .bool b
  · obtain ⟨b, rfl⟩ := hbool
    obtain rfl := Except.ok.inj h
    rfl
  · rw [wholeBound?_eq (not_exists.mp hbool), map_eq_ok] at h
    obtain ⟨x?, hx, rfl⟩ := h
    cases v with
    | bool b => exact absurd ⟨b, rfl⟩ hbool
    | _ => cases x? <;> simp [wholePart, hx]

/-- The step at a position is made of the records of one bucket. -/
structure Step.IsMadeFrom (s : Step) (index : Nat) (rs : List Record) : Prop where
  key : s.key = "step-" ++ toString (index + 1)
  title : s.title = "Step " ++ toString (index + 1)
  fields : List.Forall₂ (fun f r => f.IsMadeFrom r s.columns) s.fields rs

namespace Flat

/-- What is loaded from one bucket, and brought into normal form. -/
theorem isMadeFrom_of_loadStep {columns bucket : Int} {index number : Nat} {rs : List Record}
    {x : Loaded Step} {s : Step} (hload : loadStep columns index bucket rs = .ok x)
    (hloaded : x.value.IsLoaded) (hs : Step.normalize number x.value = .ok s) :
    s.IsMadeFrom index rs := by
  simp only [loadStep, bind_eq_ok, pure_eq_ok] at hload
  obtain ⟨fields, hfields, rfl⟩ := hload
  obtain ⟨hkey, hcolumns, hnormal⟩ := hloaded.normalize_eq_ok hs
  have htitle : s.title = Step.defaultTitle index := by
    have hne : Step.defaultTitle index ≠ "" := by simp [Step.defaultTitle]
    obtain ⟨_, _, _, -, -, -, rfl⟩ := Step.normalize_eq_ok hs
    show orElseText (Step.defaultTitle index) (Step.defaultTitle number) = _
    exact orElseText_of_ne hne
  have hread : List.Forall₂ (fun r f => Field.IsReadFrom f r columns) rs
      (fields.map Loaded.value) := by
    rw [List.forall₂_map_right_iff]
    refine (forall₂_of_mapFrom hfields).imp fun r y hy => ?_
    obtain ⟨i, hy⟩ := hy
    exact (Field.isReadFrom_of_load hy).1
  refine ⟨hkey, htitle, ?_⟩
  rw [hcolumns]
  refine forall₂_trans (forall₂_of_mapFrom hnormal).flip hread.flip fun f raw r hf hraw => ?_
  obtain ⟨i, hf⟩ := hf
  exact Field.IsReadFrom.isMadeFrom hraw hloaded.columns_pos hloaded.columns_le hf

/-- The records of some buckets, each with the position of its bucket. -/
def placedRecords (groups : List (Int × List (Int × Record))) : List (Nat × Int × Record) :=
  groups.zipIdx.flatMap fun p => p.1.2.map fun x => (p.2, x)

section Placed

variable {groups : List (Int × List (Int × Record))} {u v : Nat × Int × Record}

theorem map_placedRecords (groups : List (Int × List (Int × Record))) :
    (placedRecords groups).map Prod.snd = groups.flatMap Prod.snd := by
  calc (placedRecords groups).map Prod.snd
      = groups.zipIdx.flatMap fun p => p.1.2 := by
        simp [placedRecords, List.map_flatMap, Function.comp_def]
    _ = (groups.zipIdx.map Prod.fst).flatMap Prod.snd := by rw [List.flatMap_map]
    _ = groups.flatMap Prod.snd := by rw [List.zipIdx_map_fst]

theorem exists_of_mem_placedRecords (h : u ∈ placedRecords groups) :
    ∃ g, groups[u.1]? = some g ∧ u.2 ∈ g.2 := by
  obtain ⟨⟨g, i⟩, hp, hu⟩ := List.mem_flatMap.mp h
  obtain ⟨x, hx, rfl⟩ := List.mem_map.mp hu
  exact ⟨g, List.mem_zipIdx_iff_getElem?.mp hp, hx⟩

/-- Different buckets have different positions. -/
theorem IsCut.position_eq_iff (h : IsCut groups) (hu : u ∈ placedRecords groups)
    (hv : v ∈ placedRecords groups) : u.1 = v.1 ↔ bucketOf u.2.1 = bucketOf v.2.1 := by
  obtain ⟨g, hg, hug⟩ := exists_of_mem_placedRecords hu
  obtain ⟨g', hg', hvg⟩ := exists_of_mem_placedRecords hv
  rw [h.bucket g (List.mem_of_getElem? hg) u.2 hug,
    h.bucket g' (List.mem_of_getElem? hg') v.2 hvg]
  constructor
  · intro heq
    rw [heq, hg'] at hg
    rw [Option.some.inj hg]
  · intro heq
    have hkeys : (groups.map Prod.fst).Nodup := by
      have hascending := List.pairwise_map.mpr h.ascending
      exact hascending.imp fun hlt => Int.ne_of_lt hlt
    obtain ⟨hu_lt, hu_key⟩ := List.getElem?_eq_some_iff.mp hg
    obtain ⟨hv_lt, hv_key⟩ := List.getElem?_eq_some_iff.mp hg'
    have hinj := @List.Nodup.getElem_inj_iff _ _ hkeys u.1 (by simpa using hu_lt) v.1
      (by simpa using hv_lt)
    rw [← hinj, List.getElem_map, List.getElem_map, hu_key, hv_key, heq]

end Placed

theorem ordered_eq_map {vs : List Value} {xs : List (Int × Record)} (h : ordered vs = .ok xs) :
    xs = (Structured.objects vs).map fun r => (r.orderKey, r) := by
  induction vs generalizing xs with
  | nil =>
      obtain rfl := Except.ok.inj h
      rfl
  | cons v vs ih => cases v with
    | object r =>
        simp only [ordered, orderOf, bind_eq_ok, pure_eq_ok] at h
        obtain ⟨n, ⟨n?, hn, rfl⟩, rest, hrest, rfl⟩ := h
        rw [ih hrest, Value.wholeBound?_getD hn]
        rfl
    | _ =>
        have hrest : ordered vs = .ok xs := h
        exact ih hrest

end Flat

namespace Form

open Flat

variable {r : Record} {rs : List Record} {form : Form} {loaded : Loaded Form}
  {groups : List (Int × List (Int × Record))}

/-- The fields of the steps that are made of buckets are made of the records, bucket by bucket. -/
theorem forall₂_placedFields
    (h : List.Forall₂ (fun p s => Step.IsMadeFrom s p.2 (p.1.2.map Prod.snd)) groups.zipIdx
      form.steps) :
    List.Forall₂ (fun p u => p.2.2.IsMadeFrom u.2.2 p.2.1.columns ∧ p.1 = u.1)
      form.placedFields (placedRecords groups) := by
  rw [placedFields, placedSteps, List.flatMap_map]
  refine List.rel_flatMap (forall₂_zipIdx_zipIdx h).flip ?_
  rintro ⟨s, i⟩ ⟨g, j⟩ ⟨hij, hs⟩
  obtain rfl : j = i := hij
  refine List.forall₂_map_left_iff.mpr (List.forall₂_map_right_iff.mpr ?_)
  exact (List.forall₂_map_right_iff.mp hs.fields).imp fun f x hf => ⟨hf, rfl⟩

/-- A field that is paired with a record stands at the position of the bucket of this record. -/
theorem exists_placedRecord (hkeys : ∀ g ∈ groups, ∀ x ∈ g.2, x.1 = x.2.orderKey)
    (hplaced : List.Forall₂ (fun p u => p.2.2.IsMadeFrom u.2.2 p.2.1.columns ∧ p.1 = u.1)
      form.placedFields (placedRecords groups)) {x : (Nat × Step × Field) × Record}
    (hx : x ∈ form.placedFields.zip ((placedRecords groups).map fun u => u.2.2)) :
    ∃ u ∈ placedRecords groups, u.1 = x.1.1 ∧ bucketOf u.2.1 = x.2.orderKey / 100 := by
  obtain ⟨p, r⟩ := x
  have hmembers := forall₂_imp_of_mem hplaced.flip (fun u (hu : u ∈ placedRecords groups) => hu)
    fun u p hu hp => And.intro hu hp
  have hsources : List.Forall₂ (fun p r => ∃ u ∈ placedRecords groups, u.1 = p.1 ∧ u.2.2 = r)
      form.placedFields ((placedRecords groups).map fun u => u.2.2) := by
    rw [List.forall₂_map_right_iff]
    exact hmembers.flip.imp fun p u hu => ⟨u, hu.1, hu.2.2.symm, rfl⟩
  obtain ⟨u, hu, hup, rfl⟩ := List.forall₂_zip hsources hx
  obtain ⟨g, hg, hug⟩ := exists_of_mem_placedRecords hu
  refine ⟨u, hu, hup, ?_⟩
  rw [hkeys g (List.mem_of_getElem? hg) u.2 hug]
  rfl

/-- The steps of buckets hold the records in order. -/
theorem isGroupedFrom_of_isCut (hcut : IsCut groups)
    (hkeys : ∀ g ∈ groups, ∀ x ∈ g.2, x.1 = x.2.orderKey)
    (h : List.Forall₂ (fun p s => Step.IsMadeFrom s p.2 (p.1.2.map Prod.snd)) groups.zipIdx
      form.steps) : form.IsGroupedFrom ((groups.flatMap Prod.snd).map Prod.snd) := by
  have hplaced := forall₂_placedFields h
  have hrecords : (placedRecords groups).map (fun u => u.2.2) =
      (groups.flatMap Prod.snd).map Prod.snd := by
    rw [← map_placedRecords, List.map_map]
    rfl
  rw [← hrecords]
  refine ⟨?_, ?_, ?_, ?_⟩
  · exact List.forall₂_map_right_iff.mpr (hplaced.imp fun _ _ hp => hp.1)
  · intro x hx y hy
    obtain ⟨u, hu, hux, hbx⟩ := exists_placedRecord hkeys hplaced hx
    obtain ⟨v, hv, hvy, hby⟩ := exists_placedRecord hkeys hplaced hy
    rw [← hux, ← hvy, ← hbx, ← hby]
    exact hcut.position_eq_iff hu hv
  · intro s hs hnone
    obtain ⟨p, hp, hmade⟩ := exists_left_of_forall₂ h hs
    have hfields := hmade.fields
    rw [hnone, List.forall₂_nil_left_iff, List.map_eq_nil_iff] at hfields
    exact hcut.nonempty p.1 (List.fst_mem_of_mem_zipIdx hp) hfields
  · intro i s hs
    have hmem : (s, i) ∈ form.steps.zipIdx := List.mem_zipIdx_iff_getElem?.mpr hs
    obtain ⟨p, hp, hpi, hmade⟩ := exists_left_of_forall₂ (forall₂_zipIdx_zipIdx h) hmem
    obtain rfl : p.2 = i := hpi
    exact ⟨hmade.key, hmade.title⟩

/-- A document without steps is loaded as a form that has a field for every object among its fields,
stably sorted by their numbers, with a step for every hundred numbers. -/
theorem isGroupedFrom_of_ofDocument (hshape : Shape.ofRecord r = .ok .flat)
    (hload : ofDocument (.object r) = .ok loaded) :
    ∃ vs sorted, r.listOf "fields" = .ok vs ∧
      IsStableSort Record.orderKey (Structured.objects vs) sorted ∧
      loaded.value.IsGroupedFrom sorted := by
  simp only [ofDocument, bind_eq_ok, pure_eq_ok] at hload
  obtain ⟨raw, hraw, form, hnormal, rfl⟩ := hload
  have hloaded := (contract_ofRecord r).of_ok hraw
  simp only [ofRecord, hshape, ok_bind, Shape.load, Flat.load, bind_eq_ok, pure_eq_ok] at hraw
  obtain ⟨columns, -, raws, ⟨vs, hvs, xs, hxs, loads, hloads, rfl⟩, name, -, description, -,
    program, -, rfl⟩ := hraw
  obtain ⟨steps, _, hsteps, -, rfl⟩ := normalize_eq_ok hnormal
  obtain rfl := ordered_eq_map hxs
  have hbucketing := isBucketing_sortedBuckets
    ((Structured.objects vs).map fun r => (r.orderKey, r))
  generalize hgroups : sortedBuckets _ = groups at hbucketing
  have hkeys : ∀ x ∈ groups.flatMap Prod.snd, x.1 = x.2.orderKey := by
    intro x hx
    obtain ⟨r, -, rfl⟩ := List.mem_map.mp (hbucketing.sort.perm.mem_iff.mp hx)
    rfl
  have hmade : List.Forall₂ (fun p s => Step.IsMadeFrom s p.2 (p.1.2.map Prod.snd))
      groups.zipIdx steps := by
    have hloads := forall₂_zipIdx_of_mapFrom hloads
    rw [buckets, hgroups, List.zipIdx_map, List.forall₂_map_left_iff] at hloads
    have hnormal := List.forall₂_map_left_iff.mp (forall₂_of_mapFrom hsteps)
    have hnormal := forall₂_imp_of_mem hnormal
      (fun x hx => hloaded.steps x.value (List.mem_map_of_mem hx)) fun x s hx hs => And.intro hx hs
    refine forall₂_trans hloads hnormal fun p x s hx hs => ?_
    obtain ⟨hin, number, hs⟩ := hs
    exact isMadeFrom_of_loadStep hx hin hs
  refine ⟨vs, _, hvs, ?_, isGroupedFrom_of_isCut hbucketing.toIsCut ?_ hmade⟩
  · have hsort := (hbucketing.sort.congr hkeys).map (f := Prod.snd)
    rwa [List.map_map, Function.comp_def, List.map_id'] at hsort
  · intro g hg x hx
    exact hkeys x (List.mem_flatMap.mpr ⟨g, hg, hx⟩)

/-- A record with a label and an order. -/
def pileEntry (label : String) (order : Value) : Record :=
  [("label", .text label), ("order", order)]

/-- Fields with numbers of three hundreds, out of order: two of them have one number, and one has a
number that does not count. -/
def pileFields : List Value :=
  [.object (pileEntry "Late" (.int 250)), .null, .object (pileEntry "First" (.text "7.9")),
    .object (pileEntry "Second" (.int 7)), .object (pileEntry "Zero" (.bool true)),
    .object (pileEntry "Before" (.int (-1)))]

/-- A document of these fields. -/
def pile : Record := [("title", .text "Pile"), ("fields", .list pileFields)]

theorem ordered_pileFields : ordered pileFields = .ok
    [(250, pileEntry "Late" (.int 250)), (7, pileEntry "First" (.text "7.9")),
      (7, pileEntry "Second" (.int 7)), (0, pileEntry "Zero" (.bool true)),
      (-1, pileEntry "Before" (.int (-1)))] := rfl

theorem sortedBuckets_pile :
    sortedBuckets [(250, pileEntry "Late" (.int 250)), (7, pileEntry "First" (.text "7.9")),
        (7, pileEntry "Second" (.int 7)), (0, pileEntry "Zero" (.bool true)),
        (-1, pileEntry "Before" (.int (-1)))] =
      [(-1, [(-1, pileEntry "Before" (.int (-1)))]),
        (0, [(0, pileEntry "Zero" (.bool true)), (7, pileEntry "First" (.text "7.9")),
          (7, pileEntry "Second" (.int 7))]),
        (2, [(250, pileEntry "Late" (.int 250))])] := by
  simp [sortedBuckets, collectBuckets, addToBucket, bucketOf, orderStride, List.mergeSort,
    List.MergeSort.Internal.splitInTwo]

/-- The labels of the fields in the steps of a form. -/
def stepLabels (form : Form) : List (String × List String) :=
  form.steps.map fun s => (s.title, s.fields.map Field.label)

theorem exists_pile : ∃ loaded, ofDocument (.object pile) = .ok loaded ∧
    loaded.value.stepLabels =
      [("Step 1", ["Before"]), ("Step 2", ["Zero", "First", "Second"]), ("Step 3", ["Late"])] := by
  have hcheck : ((ofDocument (.object pile)).toOption.any fun loaded => decide
      (loaded.value.stepLabels =
        [("Step 1", ["Before"]), ("Step 2", ["Zero", "First", "Second"]),
          ("Step 3", ["Late"])])) = true := by
    simp only [ofDocument, ofRecord, show columnsOf pile = .ok 4 from rfl,
      show Shape.ofRecord pile = .ok .flat from rfl, ok_bind, Shape.load, Flat.load,
      show pile.listOf "fields" = .ok pileFields from rfl, ordered_pileFields, buckets,
      sortedBuckets_pile]
    decide +kernel
  cases hload : ofDocument (.object pile) with
  | error e => simp [hload, Except.toOption] at hcheck
  | ok loaded =>
      simp only [hload, Except.toOption, Option.any_some, decide_eq_true_eq] at hcheck
      exact ⟨loaded, rfl, hcheck⟩

theorem isGroupedFrom_pile :
    Shape.ofRecord pile = .ok .flat ∧ ∃ loaded sorted, ofDocument (.object pile) = .ok loaded ∧
      loaded.value.stepLabels =
        [("Step 1", ["Before"]), ("Step 2", ["Zero", "First", "Second"]), ("Step 3", ["Late"])] ∧
      IsStableSort Record.orderKey (Structured.objects pileFields) sorted ∧
      loaded.value.IsGroupedFrom sorted := by
  obtain ⟨loaded, hload, hsteps⟩ := exists_pile
  obtain ⟨vs, sorted, hvs, hsort, hgrouped⟩ := isGroupedFrom_of_ofDocument rfl hload
  obtain rfl : pileFields = vs := Except.ok.inj hvs
  exact ⟨rfl, loaded, sorted, hload, hsteps, hsort, hgrouped⟩

end Form

end ConditionalForms
