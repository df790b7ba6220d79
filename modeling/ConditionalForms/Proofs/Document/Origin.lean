import ConditionalForms.Proofs.Document.Placement
import ConditionalForms.Proofs.Value.Record
import Mathlib.Data.List.Find
import Mathlib.Data.List.Nodup

/-!
# Where fields come from

The entries of a common list and the references of the steps say by themselves which fields a
structured document has, and where.  A step holds a field for each of its references, in their
order, and behind these one for each entry that waits for it, in the order of the common list.  An
entry waits for the step that it belongs to, unless some step refers to it.

**Definitions.**
* `Record.declaredName`, `Record.IsNamed`: the name of an entry.
* `Structured.Names`, `Structured.Referenced`: the references to an entry.
* `Structured.Awaits`, `Structured.IsHomeless`: the entries that no step refers to.
* `Structured.Origin`: an entry, a reference, or both.
* `Structured.origins`: the origins of the fields, step by step.

**Results.**
* `Structured.names_iff`: a reference names the entry of its own name.
* `Structured.Origin.textOf_record`, `Structured.Origin.get_span_record`: the name and the span of
  an origin.
* `Structured.countP_origins_of_not_awaits`, `Structured.countP_origins_of_awaits`: how often an
  entry is an origin.
* `Structured.not_names_of_alone`: the other origins are references that name no entry.
-/

namespace ConditionalForms

namespace Record

/-- The name that an entry of a common list declares. -/
def declaredName (e : Record) : String :=
  match e.get "field_name" with
  | .text name => name
  | _ => ""

/-- The entry declares a name: a text that is not blank, and without blanks at its ends. -/
structure IsNamed (e : Record) : Prop where
  declared : e.get "field_name" = .text e.declaredName
  ne : e.declaredName ≠ ""
  trimmed : Text.trim e.declaredName = e.declaredName

variable {e reference : Record} {name : String}

theorem IsNamed.of_text (h : e.get "field_name" = .text name) (hne : name ≠ "")
    (htrim : Text.trim name = name) : e.IsNamed := by
  have hname : e.declaredName = name := by
    rw [declaredName, h]
  exact ⟨by rw [hname, h], by rwa [hname], by rwa [hname]⟩

theorem IsNamed.textOf (h : e.IsNamed) : e.textOf "field_name" = .ok e.declaredName := by
  have htruthy : (Value.text e.declaredName).isTruthy = true := by
    simp [Value.isTruthy, h.ne]
  rw [Record.textOf, h.declared]
  exact if_pos htruthy

theorem IsNamed.eq_of_textOf (h : e.IsNamed) (hname : e.textOf "field_name" = .ok name) :
    e.declaredName = name :=
  Except.ok.inj (h.textOf.symm.trans hname)

/-- An entry with the span that a reference to it gives, if it gives one. -/
def spannedBy (e reference : Record) : Record :=
  match reference.get "column_span" with
  | .null => e
  | span => e.set "column_span" span

theorem spannedBy_self (r : Record) : r.spannedBy r = r := by
  unfold spannedBy
  split
  · rfl
  · rename_i hspan
    refine set_eq_self ?_
    rw [get] at hspan ⊢
    cases h : r.get? "column_span" with
    | none => simp [h] at hspan
    | some v => rfl

theorem get_spannedBy_of_ne (h : name ≠ "column_span") :
    (e.spannedBy reference).get name = e.get name := by
  unfold spannedBy
  split
  · rfl
  · rw [get, get?_set, if_neg h.symm, ← get]

theorem get_spannedBy (h : reference.get "column_span" ≠ .null) :
    (e.spannedBy reference).get "column_span" = reference.get "column_span" := by
  unfold spannedBy
  split
  · rename_i hnull
    exact absurd hnull h
  · rw [get, get?_set, if_pos rfl, Option.getD_some]

end Record

namespace Structured

/-- The objects among some values. -/
def objects (vs : List Value) : List Record :=
  vs.filterMap fun v => match v with
    | .object r => some r
    | _ => none

/-- The references of a step record: the objects in the list of its fields. -/
def referencesIn (step : Record) : List Record :=
  match step.get "fields" with
  | .list vs => objects vs
  | _ => []

/-- The references of all steps. -/
def references (steps : List Record) : List Record := steps.flatMap referencesIn

/-- A reference names an entry: its own field name is no false value, and as text it is the name of
the entry. -/
def Names (reference e : Record) : Prop :=
  (reference.get "field_name").isTruthy = true ∧
    (reference.get "field_name").plainText = .ok e.declaredName

instance (reference e : Record) : Decidable (Names reference e) :=
  inferInstanceAs (Decidable (_ ∧ _))

/-- Some step refers to an entry. -/
def Referenced (steps : List Record) (e : Record) : Prop :=
  ∃ reference ∈ references steps, Names reference e

theorem referenced_cons {step : Record} {steps : List Record} {e : Record} :
    Referenced (step :: steps) e ↔
      (∃ reference ∈ referencesIn step, Names reference e) ∨ Referenced steps e := by
  simp only [Referenced, references, List.flatMap_cons, List.mem_append, or_and_right, exists_or]

/-- An entry waits for the step at a position: no step refers to it, and it belongs to that one. -/
def Awaits (steps : List Record) (keys : List String) (i : Nat) (e : Record) : Prop :=
  ¬ Referenced steps e ∧ IsHome keys e i

/-- No step refers to an entry, and it belongs to none. -/
def IsHomeless (steps : List Record) (keys : List String) (e : Record) : Prop :=
  ¬ Referenced steps e ∧ ∀ i, ¬ IsHome keys e i

/-- What a field comes from: an entry through a reference to it, an entry by itself, or a reference
that names no entry. -/
inductive Origin where
  | referred (reference e : Record)
  | listed (e : Record)
  | alone (reference : Record)

namespace Origin

/-- The record that a field is read from. -/
def record : Origin → Record
  | .referred reference e => e.spannedBy reference
  | .listed e => e
  | .alone reference => reference

/-- The entry that a field comes from. -/
def entry? : Origin → Option Record
  | .referred _ e => some e
  | .listed e => some e
  | .alone _ => none

/-- The reference that a field comes from. -/
def reference? : Origin → Option Record
  | .referred reference _ => some reference
  | .listed _ => none
  | .alone reference => some reference

/-- The field comes from an entry of the same name. -/
def isOf (e : Record) (o : Origin) : Bool :=
  o.entry?.any fun other => other.declaredName = e.declaredName

end Origin

/-- The origin of the field of a reference. -/
def originOf (entries : List Record) (reference : Record) : Origin :=
  match entries.find? fun e => Names reference e with
  | some e => .referred reference e
  | none => .alone reference

/-- The origins of the fields of a step: those of its references, and then the entries that wait for
it. -/
noncomputable def originsAt (entries steps : List Record) (keys : List String) (i : Nat)
    (step : Record) : List Origin :=
  (referencesIn step).map (originOf entries) ++
    (those (Awaits steps keys i) entries).map .listed

/-- The origins of the fields, step by step. -/
noncomputable def origins (entries steps : List Record) (keys : List String) :
    List (List Origin) :=
  steps.zipIdx.map fun p => originsAt entries steps keys p.2 p.1

variable {entries steps : List Record} {keys : List String} {i : Nat} {step reference e : Record}
  {o : Origin}

theorem names_iff {name : String} (h : reference.textOf "field_name" = .ok name)
    (he : e.IsNamed) : Names reference e ↔ e.declaredName = name := by
  rw [Names, Record.textOf] at *
  split at h
  · rename_i htruthy
    rw [h, Except.ok.injEq, eq_comm (a := name)]
    exact and_iff_right htruthy
  · rename_i hfalse
    obtain rfl := Except.ok.inj h
    exact iff_of_false (fun hnames => hfalse hnames.1) he.ne

namespace Origin

theorem textOf_record (h : o.entry? = some e) (he : e.IsNamed) :
    o.record.textOf "field_name" = .ok e.declaredName := by
  cases o with
  | referred reference other =>
      obtain rfl := Option.some.inj h
      have hget : (other.spannedBy reference).get "field_name" = other.get "field_name" :=
        Record.get_spannedBy_of_ne (by decide)
      rw [← he.textOf, record, Record.textOf, Record.textOf, hget]
  | listed other =>
      obtain rfl := Option.some.inj h
      exact he.textOf
  | alone reference => cases h

theorem get_span_record (h : o.reference? = some reference)
    (hspan : reference.get "column_span" ≠ .null) :
    o.record.get "column_span" = reference.get "column_span" := by
  cases o with
  | referred other e =>
      obtain rfl := Option.some.inj h
      exact Record.get_spannedBy hspan
  | listed e => cases h
  | alone other =>
      obtain rfl := Option.some.inj h
      rfl

end Origin

theorem getElem?_origins {os : List Origin} (h : (origins entries steps keys)[i]? = some os) :
    ∃ step, steps[i]? = some step ∧ os = originsAt entries steps keys i step := by
  rw [origins, List.getElem?_map, List.getElem?_zipIdx, Option.map_map, Option.map_eq_some_iff] at h
  obtain ⟨step, hstep, rfl⟩ := h
  exact ⟨step, hstep, by simp⟩

theorem mem_origins (h : o ∈ (origins entries steps keys).flatten) :
    (∃ reference, o = originOf entries reference) ∨ ∃ e ∈ entries, o = .listed e := by
  obtain ⟨os, hos, h⟩ := List.mem_flatten.mp h
  obtain ⟨i, hi⟩ := List.mem_iff_getElem?.mp hos
  obtain ⟨step, -, rfl⟩ := getElem?_origins hi
  rcases List.mem_append.mp h with h | h
  · obtain ⟨reference, -, rfl⟩ := List.mem_map.mp h
    exact Or.inl ⟨reference, rfl⟩
  · obtain ⟨e, he, rfl⟩ := List.mem_map.mp h
    exact Or.inr ⟨e, (mem_those.mp he).1, rfl⟩

theorem mem_entries_of_mem_origins (ho : o ∈ (origins entries steps keys).flatten)
    (he : o.entry? = some e) : e ∈ entries := by
  rcases mem_origins ho with ⟨reference, rfl⟩ | ⟨f, hf, rfl⟩
  · unfold originOf at he
    split at he
    · rename_i f hf
      obtain rfl := Option.some.inj he
      exact List.mem_of_find?_eq_some hf
    · cases he
  · obtain rfl := Option.some.inj he
    exact hf

theorem not_names_of_alone (h : .alone reference ∈ (origins entries steps keys).flatten) :
    ∀ e ∈ entries, ¬ Names reference e := by
  rcases mem_origins h with ⟨other, horigin⟩ | ⟨f, -, hlisted⟩
  · unfold originOf at horigin
    split at horigin
    · cases horigin
    · rename_i hnone
      obtain rfl := Origin.alone.inj horigin
      simpa using hnone
  · cases hlisted

section Counting

variable (hdistinct : (entries.map Record.declaredName).Nodup) (he : e ∈ entries)

theorem countP_names_eq_zero {others : List Record} (h : ¬ Referenced steps e)
    (hothers : others ⊆ references steps) :
    others.countP (fun reference => Names reference e) = 0 :=
  List.countP_eq_zero.mpr fun reference hmem hnames =>
    h ⟨reference, hothers hmem, of_decide_eq_true hnames⟩

theorem referencesIn_subset (h : step ∈ steps) : referencesIn step ⊆ references steps :=
  fun _ hreference => List.mem_flatMap.mpr ⟨step, h, hreference⟩

include he in
theorem isOf_originOf (reference : Record) :
    (originOf entries reference).isOf e = decide (Names reference e) := by
  unfold originOf
  cases hfind : entries.find? fun e => Names reference e with
  | some f =>
      have hnames : Names reference f := by simpa using List.find?_some hfind
      refine decide_eq_decide.mpr ?_
      rw [Names, hnames.2, Except.ok.injEq]
      exact (and_iff_right hnames.1).symm
  | none => exact (decide_eq_false (by simpa using List.find?_eq_none.mp hfind e he)).symm

theorem countP_listed (others : List Record) (e : Record) :
    (others.map .listed).countP (Origin.isOf e) =
      (others.map Record.declaredName).count e.declaredName := by
  rw [List.count, List.countP_map, List.countP_map]
  rfl

include hdistinct he

theorem countP_originsAt_of_awaits (h : Awaits steps keys i e) (hstep : step ∈ steps) :
    (originsAt entries steps keys i step).countP (Origin.isOf e) = 1 := by
  have hreferences := countP_names_eq_zero h.1 (referencesIn_subset hstep)
  have hlisted : ((those (Awaits steps keys i) entries).map Record.declaredName).count
      e.declaredName = 1 := by
    refine List.count_eq_one_of_mem ?_ (List.mem_map_of_mem (mem_those.mpr ⟨he, h⟩))
    exact hdistinct.sublist (List.filter_sublist.map _)
  rw [originsAt, List.countP_append, List.countP_map, countP_listed, hlisted, Function.comp_def]
  simp only [isOf_originOf he, hreferences]

theorem countP_originsAt_of_not_awaits (h : ¬ Awaits steps keys i e) :
    (originsAt entries steps keys i step).countP (Origin.isOf e) =
      (referencesIn step).countP fun reference => Names reference e := by
  have hlisted : ((those (Awaits steps keys i) entries).map Record.declaredName).count
      e.declaredName = 0 := by
    refine List.count_eq_zero_of_not_mem fun hmem => ?_
    obtain ⟨f, hf, hname⟩ := List.mem_map.mp hmem
    obtain ⟨hf, hawaits⟩ := mem_those.mp hf
    obtain rfl := List.inj_on_of_nodup_map hdistinct hf he hname
    exact h hawaits
  rw [originsAt, List.countP_append, List.countP_map, countP_listed, hlisted, Function.comp_def]
  simp only [isOf_originOf he, Nat.add_zero]

/-- An entry that waits for no step is an origin as often as a step refers to it. -/
theorem countP_origins_of_not_awaits (h : ∀ i, ¬ Awaits steps keys i e) :
    (origins entries steps keys).flatten.countP (Origin.isOf e) =
      (references steps).countP fun reference => Names reference e := by
  have hstep : ∀ p : Record × Nat,
      (originsAt entries steps keys p.2 p.1).countP (Origin.isOf e) =
        (referencesIn p.1).countP fun reference => Names reference e :=
    fun p => countP_originsAt_of_not_awaits hdistinct he (h p.2)
  have hsteps : references steps = (steps.zipIdx.map Prod.fst).flatMap referencesIn := by
    rw [List.zipIdx_map_fst, references]
  rw [hsteps, List.countP_flatten, List.countP_flatMap, origins, List.map_map, List.map_map,
    Function.comp_def]
  simp only [hstep]
  rfl

/-- An entry that waits for a step is an origin once. -/
theorem countP_origins_of_awaits {loaded : List Step} (hlength : loaded.length = steps.length)
    (h : Awaits steps (loaded.map Step.key) i e) :
    (origins entries steps (loaded.map Step.key)).flatten.countP (Origin.isOf e) = 1 := by
  have hi : i < steps.length := by
    have hinside := lt_length_of_isHome h.2
    rwa [List.length_map, hlength] at hinside
  have hat : (origins entries steps (loaded.map Step.key))[i]? =
      some (originsAt entries steps (loaded.map Step.key) i steps[i]) := by
    simp [origins, hi]
  rw [countP_flatten_of_unique hat fun j os hj hos => ?_]
  · exact countP_originsAt_of_awaits hdistinct he h (List.getElem_mem hi)
  · obtain ⟨other, hother, rfl⟩ := getElem?_origins hos
    have hnot : ¬ Awaits steps (loaded.map Step.key) j e :=
      fun hawaits => hj (isHome_unique hawaits.2 h.2)
    rw [countP_originsAt_of_not_awaits hdistinct he hnot]
    exact countP_names_eq_zero h.1 (referencesIn_subset (List.mem_of_getElem? hother))

end Counting

end Structured

end ConditionalForms
