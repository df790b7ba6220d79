import ConditionalForms.Proofs.Document.Nameless
import ConditionalForms.Proofs.Document.Origin

/-!
# Filling steps with fields

A structured document whose entries have distinct names is loaded from the origins of its fields:
none of them is lost, none is loaded twice, and all stand in their places.  The first pass over the
steps gives each of them the fields of its references.  The second one over the entries adds those
that are not placed yet, and since their names are distinct, each entry is dealt with as if it were
the only one.

**Definitions.**
* `Structured.IsListing`: the steps and entries of a document.
* `Structured.Dealing`: what the second pass does.
* `Field.IsReadFrom`, `Step.IsReadFrom`: fields as they are read from their origins.
* `Field.IsMadeFrom`, `Field.IsLoadedFrom`: the same in normal form, with what the records give.
* `Loaded.IsPlacedFrom`: a form with all its fields in their places.

**Results.**
* `Structured.exists_of_loadSteps`: what the first pass gives.
* `Structured.dealing_of_placeRecord`, `Structured.dealing_of_placeRest`: what the second one gives,
  for one entry and for all of them.
* `Structured.isReadFrom_of_load`: both passes together.
* `Form.isPlacedFrom_of_isListing`: every field of a loaded form is in its place.
* `Form.not_forall_loaded_at_text`: a false value is not a name, whatever its text is.
-/

namespace ConditionalForms

namespace Structured

/-- A structured document with its steps and entries: these are objects, and the names of the
entries are distinct. -/
structure IsListing (r : Record) (steps entries : List Record) : Prop where
  steps_eq : r.get "steps" = .list (steps.map .object)
  steps_ne : steps ≠ []
  entries_eq : r.get "fields" = .list (entries.map .object)
  named : ∀ e ∈ entries, e.IsNamed
  distinct : (entries.map Record.declaredName).Nodup

/-- The warning about an entry that belongs to no step. -/
def homelessText (e : Record) : String :=
  "Field " ++ Text.quote e.declaredName ++ " belongs to no step; skipping it"

/-- The warning is about a field that belongs to no step. -/
def IsHomelessText (warning : String) : Prop :=
  ∃ front, warning = front ++ " belongs to no step; skipping it"

theorem isHomelessText_homelessText (e : Record) : IsHomelessText (homelessText e) := ⟨_, rfl⟩

theorem not_isHomelessText (front : String) :
    ¬ IsHomelessText (front ++ "; loading as text") := by
  rintro ⟨other, heq⟩
  have hchar := congrArg (fun s => s.toList.reverse[1]?) heq
  simp at hchar

end Structured

/-- The field is what a record is read as in a step of some columns. -/
def Field.IsReadFrom (f : Field) (r : Record) (columns : Int) : Prop :=
  ∃ n : Int, Field.ofRecord r columns (Name.placeholder n) = .ok f

theorem Field.isReadFrom_of_load {r : Record} {columns n : Int} {x : Loaded Field}
    (h : Field.load r columns (Name.placeholder n) = .ok x) :
    x.value.IsReadFrom r columns ∧ ∀ w ∈ x.warnings, ¬ Structured.IsHomelessText w := by
  simp only [load, recordWarnings, bind_eq_ok, pure_eq_ok] at h
  obtain ⟨warnings, ⟨label, -, hwarnings⟩, f, hf, rfl⟩ := h
  refine ⟨⟨n, hf⟩, ?_⟩
  split at hwarnings
  · obtain rfl := pure_eq_ok.mp hwarnings
    simp
  · simp only [bind_eq_ok, pure_eq_ok] at hwarnings
    obtain ⟨kind, -, rfl⟩ := hwarnings
    exact List.forall_mem_singleton.mpr (Structured.not_isHomelessText _)

/-- The fields of the step are what the records of some origins are read as. -/
def Step.IsReadFrom (s : Step) (os : List Structured.Origin) : Prop :=
  List.Forall₂ (fun f o => f.IsReadFrom o.record s.columns) s.fields os

namespace Structured

variable {entries steps : List Record} {p q : Progress} {e : Record}

theorem namedRecords_of_named (h : ∀ e ∈ entries, e.IsNamed) :
    namedRecords (entries.map .object) = .ok (entries.map fun e => (e.declaredName, e)) := by
  induction entries with
  | nil => rfl
  | cons e entries ih =>
      obtain ⟨he, hentries⟩ := List.forall_mem_cons.mp h
      rw [List.map_cons, namedRecords, he.declared, ih hentries]
      simp [Value.isTruthy, Value.plainText, he.ne]

/-- A reference is loaded from its origin. -/
theorem referent_eq_record {reference : Record} {name : String} (h : ∀ e ∈ entries, e.IsNamed)
    (hname : reference.textOf "field_name" = .ok name) :
    referent (entries.map fun e => (e.declaredName, e)) name reference =
      (originOf entries reference).record := by
  have hfind : (entries.find? fun e => e.declaredName = name) =
      entries.find? fun e => Names reference e :=
    List.find?_congr fun e he => decide_eq_decide.mpr (names_iff hname (h e he)).symm
  unfold referent originOf
  rw [List.find?_map, Function.comp_def, hfind]
  cases entries.find? fun e => Names reference e with
  | some e => rfl
  | none => exact Record.spannedBy_self reference

/-- What a pass over the objects among some values gives, and its warnings. -/
theorem forall₂_of_loadRecords {α : Type} {load : Nat → Record → Except Fault (Loaded α)}
    {R : Record → α → Prop} {P : String → Prop}
    (hload : ∀ i r x, load i r = .ok x → R r x.value ∧ ∀ w ∈ x.warnings, P w) {vs : List Value}
    {start : Nat} {xs : Loaded (List α)} (h : loadRecords load start vs = .ok xs) :
    List.Forall₂ R (objects vs) xs.value ∧ ∀ w ∈ xs.warnings, P w := by
  induction vs generalizing start xs with
  | nil =>
      obtain rfl := Except.ok.inj h
      exact ⟨.nil, by simp⟩
  | cons v vs ih => cases v with
    | object r =>
        simp only [loadRecords, bind_eq_ok, pure_eq_ok] at h
        obtain ⟨x, hx, rest, hrest, rfl⟩ := h
        obtain ⟨hvalue, hwarnings⟩ := hload start r x hx
        obtain ⟨hvalues, hothers⟩ := ih hrest
        exact ⟨.cons hvalue hvalues, List.forall_mem_append.mpr ⟨hwarnings, hothers⟩⟩
    | _ =>
        have hrest : loadRecords load (start + 1) vs = .ok xs := h
        exact ih hrest

/-- A reference is read as a name and a field. -/
def IsReadAs (entries : List Record) (columns : Int) (reference : Record) (x : String × Field) :
    Prop :=
  reference.textOf "field_name" = .ok x.1 ∧
    x.2.IsReadFrom (originOf entries reference).record columns

theorem isReadAs_of_loadReference (h : ∀ e ∈ entries, e.IsNamed) (columns : Int) (i j : Nat)
    (reference : Record) (x : Loaded (String × Field))
    (hx : loadReference (entries.map fun e => (e.declaredName, e)) columns i j reference = .ok x) :
    IsReadAs entries columns reference x.value ∧ ∀ w ∈ x.warnings, ¬ IsHomelessText w := by
  simp only [loadReference, bind_eq_ok, pure_eq_ok] at hx
  obtain ⟨name, hname, y, hy, rfl⟩ := hx
  rw [referent_eq_record h hname] at hy
  obtain ⟨hread, hwarnings⟩ := Field.isReadFrom_of_load hy
  exact ⟨⟨hname, hread⟩, hwarnings⟩

theorem declaredName_mem_names_iff {columns : Int} {others : List Record}
    {xs : List (String × Field)} (h : List.Forall₂ (IsReadAs entries columns) others xs)
    (he : e.IsNamed) :
    e.declaredName ∈ xs.map Prod.fst ↔ ∃ reference ∈ others, Names reference e := by
  constructor
  · intro hmem
    obtain ⟨x, hx, hname⟩ := List.mem_map.mp hmem
    obtain ⟨reference, hreference, htext, -⟩ := exists_left_of_forall₂ h hx
    exact ⟨reference, hreference, (names_iff htext he).mpr hname.symm⟩
  · rintro ⟨reference, hreference, hnames⟩
    obtain ⟨x, hx, htext, -⟩ := exists_right_of_forall₂ h hreference
    exact List.mem_map.mpr ⟨x, hx, ((names_iff htext he).mp hnames).symm⟩

theorem referencesIn_eq {step : Record} {vs : List Value} (h : step.listOf "fields" = .ok vs) :
    referencesIn step = objects vs := by
  unfold Record.listOf at h
  unfold referencesIn
  split at h
  · obtain rfl := Except.ok.inj h
    rename_i hnull
    rw [hnull]
    rfl
  · rename_i items hitems
    obtain rfl := Except.ok.inj h
    rw [hitems]
  · cases h

theorem fields_and_columns_of_ofRecord {r : Record} {index : Nat} {fields : List Field}
    {columns : Int} {s : Step} (h : Step.ofRecord r index fields columns = .ok s) :
    s.fields = fields ∧ s.columns = columns := by
  unfold Step.ofRecord at h
  dsimp only at h
  split at h
  all_goals
    simp only [bind_eq_ok, pure_eq_ok] at h
    obtain ⟨key, -, id, -, title, -, description, -, logic, -, rfl⟩ := h
    exact ⟨rfl, rfl⟩

/-- What loading some steps adds: the steps, with the fields of their references, and the names of
these. -/
theorem exists_of_loadSteps {formColumns : Int} (h : ∀ e ∈ entries, e.IsNamed) {i : Nat}
    (hq : loadSteps (entries.map fun e => (e.declaredName, e)) formColumns i p
      (steps.map .object) = .ok q) :
    ∃ new names given, q = ⟨p.steps ++ new, p.placed ++ names, p.warnings ++ given⟩ ∧
      List.Forall₂ (fun step s => s.IsReadFrom ((referencesIn step).map (originOf entries)))
        steps new ∧
      (∀ e ∈ entries, e.declaredName ∈ names ↔ Referenced steps e) ∧
      ∀ w ∈ given, ¬ IsHomelessText w := by
  induction steps generalizing i p with
  | nil =>
      obtain rfl := Except.ok.inj hq
      exact ⟨[], [], [], by simp, .nil, by simp [Referenced, references], by simp⟩
  | cons step steps ih =>
      simp only [List.map_cons, loadSteps, bind_eq_ok] at hq
      obtain ⟨columns, -, references, hreferences, fields, hfields, s, hs, hq⟩ := hq
      obtain ⟨new, names, given, rfl, hnew, hnames, hgiven⟩ := ih hq
      obtain ⟨hread, hwarnings⟩ :=
        forall₂_of_loadRecords (isReadAs_of_loadReference h columns i) hfields
      obtain ⟨hs_fields, hs_columns⟩ := fields_and_columns_of_ofRecord hs
      rw [← referencesIn_eq hreferences] at hread
      refine ⟨s :: new, fields.value.map Prod.fst ++ names, fields.warnings ++ given, by simp,
        .cons ?_ hnew, fun e he => ?_, List.forall_mem_append.mpr ⟨hwarnings, hgiven⟩⟩
      · rw [Step.IsReadFrom, hs_fields, hs_columns, List.forall₂_map_left_iff,
          List.forall₂_map_right_iff]
        exact hread.flip.imp fun x reference hx => hx.2
      · rw [List.mem_append, declaredName_mem_names_iff hread (h e he), hnames e he,
          referenced_cons]

/-- The entry is not placed yet, and belongs to the step at a position. -/
def Progress.IsNewAt (p : Progress) (i : Nat) (e : Record) : Prop :=
  e.declaredName ∉ p.placed ∧ IsHome (p.steps.map Step.key) e i

/-- The entry is not placed yet, and belongs to no step. -/
def Progress.IsNewHomeless (p : Progress) (e : Record) : Prop :=
  e.declaredName ∉ p.placed ∧ ∀ i, ¬ IsHome (p.steps.map Step.key) e i

/-- What dealing with some entries does: every step gets a field for each new entry that belongs to
it, and there is a warning about each new entry that belongs to none. -/
structure Dealing (p : Progress) (entries : List Record) (q : Progress) : Prop where
  keys : q.steps.map Step.key = p.steps.map Step.key
  fields : ∀ i s, p.steps[i]? = some s → ∃ more,
    q.steps[i]? = some { s with fields := s.fields ++ more } ∧
      List.Forall₂ (fun f e => f.IsReadFrom e s.columns) more (those (p.IsNewAt i) entries)
  placed : ∀ name, name ∉ entries.map Record.declaredName → (name ∈ q.placed ↔ name ∈ p.placed)
  warnings : ∃ given, q.warnings = p.warnings ++ given ∧
    those IsHomelessText given = (those p.IsNewHomeless entries).map homelessText

theorem homelessWarning_eq (he : e.IsNamed) :
    homelessWarning e e.declaredName = .ok (homelessText e) := by
  rw [homelessWarning, if_neg he.ne]
  rfl

theorem dealing_of_placeRecord (he : e.IsNamed) (h : placeRecord p e = .ok q) :
    Dealing p [e] q := by
  have hkeys := keys_eq_of_growsTo (growsTo_of_placeRecord h)
  cases placing_of_placeRecord h with
  | skipped named known =>
      obtain rfl := he.eq_of_textOf named
      refine ⟨hkeys, fun i s hs => ⟨[], by simpa using hs, ?_⟩, fun _ _ => Iff.rfl, [], by simp, ?_⟩
      · rw [those_singleton_of_neg fun hnew : p.IsNewAt i e => hnew.1 known]
        exact .nil
      · rw [those_singleton_of_neg fun hnew : p.IsNewHomeless e => hnew.1 known]
        rfl
  | warned named new homeless given =>
      obtain rfl := he.eq_of_textOf named
      rw [homelessWarning_eq he] at given
      obtain rfl := Except.ok.inj given
      have hhomeless := not_isHome_of_homeOf? homeless
      refine ⟨hkeys, fun i s hs => ⟨[], by simpa using hs, ?_⟩, fun _ _ => Iff.rfl, _, rfl, ?_⟩
      · rw [those_singleton_of_neg fun hnew : p.IsNewAt i e => hhomeless i hnew.2]
        exact .nil
      · rw [those_singleton_of_pos (P := p.IsNewHomeless) ⟨new, hhomeless⟩,
          those_singleton_of_pos (isHomelessText_homelessText e)]
        rfl
  | @placed name i s x named new home found loaded =>
      obtain rfl := he.eq_of_textOf named
      have hhome := homeOf?_eq_some_iff.mp home
      obtain ⟨hread, hwarnings⟩ := Field.isReadFrom_of_load loaded
      refine ⟨hkeys, fun j t ht => ?_, ?_, x.warnings, rfl, ?_⟩
      · by_cases hij : i = j
        · subst hij
          obtain rfl := Option.some.inj (found.symm.trans ht)
          refine ⟨[x.value], by simp [found], ?_⟩
          rw [those_singleton_of_pos (P := p.IsNewAt i) ⟨new, hhome⟩]
          exact .cons hread .nil
        · refine ⟨[], by simp [hij, ht], ?_⟩
          rw [those_singleton_of_neg fun hnew : p.IsNewAt j e => hij (isHome_unique hhome hnew.2)]
          exact .nil
      · intro name hname
        simp only [List.map_cons, List.map_nil, List.mem_singleton] at hname
        simp [hname]
      · rw [those_eq_nil hwarnings,
          those_singleton_of_neg fun hnew : p.IsNewHomeless e => hnew.2 i hhome]
        rfl

theorem Dealing.cons {last : Progress} (hfirst : Dealing p [e] q) (hrest : Dealing q entries last)
    (he : e.declaredName ∉ entries.map Record.declaredName) : Dealing p (e :: entries) last := by
  -- The other entries are as new after the first one as they were before.
  have hnew : ∀ f ∈ entries, (f.declaredName ∉ q.placed ↔ f.declaredName ∉ p.placed) := by
    intro f hf
    refine not_congr (hfirst.placed _ ?_)
    rintro hmem
    rw [List.map_singleton, List.mem_singleton] at hmem
    exact he (hmem ▸ List.mem_map_of_mem hf)
  have hnewAt : ∀ i, those (q.IsNewAt i) entries = those (p.IsNewAt i) entries := by
    intro i
    refine those_congr fun f hf => ?_
    rw [Progress.IsNewAt, Progress.IsNewAt, hfirst.keys, hnew f hf]
  have hnewHomeless : those q.IsNewHomeless entries = those p.IsNewHomeless entries := by
    refine those_congr fun f hf => ?_
    rw [Progress.IsNewHomeless, Progress.IsNewHomeless, hfirst.keys, hnew f hf]
  obtain ⟨given, hgiven, hgiven_those⟩ := hfirst.warnings
  obtain ⟨others, hothers, hothers_those⟩ := hrest.warnings
  refine ⟨hrest.keys.trans hfirst.keys, fun i s hs => ?_, fun name hname => ?_,
    given ++ others, ?_, ?_⟩
  · obtain ⟨more, hmore, hread⟩ := hfirst.fields i s hs
    obtain ⟨yetMore, hyetMore, hothers_read⟩ := hrest.fields i _ hmore
    refine ⟨more ++ yetMore, by rw [hyetMore, List.append_assoc], ?_⟩
    rw [← List.singleton_append, those_append, ← hnewAt]
    exact List.rel_append hread hothers_read
  · rw [List.map_cons, List.mem_cons, not_or] at hname
    rw [hrest.placed name hname.2, hfirst.placed name (by simpa using hname.1)]
  · rw [hothers, hgiven, List.append_assoc]
  · rw [those_append, hgiven_those, hothers_those, hnewHomeless, ← List.map_append, ← those_append,
      List.singleton_append]

theorem dealing_of_placeRest (h : ∀ e ∈ entries, e.IsNamed)
    (hdistinct : (entries.map Record.declaredName).Nodup)
    (hq : placeRest p (entries.map .object) = .ok q) : Dealing p entries q := by
  induction entries generalizing p with
  | nil =>
      obtain rfl := Except.ok.inj hq
      exact ⟨rfl, fun i s hs => ⟨[], by simpa using hs, .nil⟩, fun _ _ => Iff.rfl, [], by simp, rfl⟩
  | cons e entries ih =>
      obtain ⟨he, hentries⟩ := List.forall_mem_cons.mp h
      obtain ⟨hnew, hdistinct⟩ := List.nodup_cons.mp hdistinct
      simp only [List.map_cons, placeRest, bind_eq_ok] at hq
      obtain ⟨next, hnext, hq⟩ := hq
      exact (dealing_of_placeRecord he hnext).cons (ih hentries hdistinct hq) hnew

/-- A structured document is loaded from the origins of its fields. -/
theorem isReadFrom_of_load {formColumns : Int} {x : Loaded (List Step)}
    (h : IsListing r steps entries) (hx : load r formColumns = .ok x) :
    List.Forall₂ Step.IsReadFrom x.value (origins entries steps (x.value.map Step.key)) ∧
      those IsHomelessText x.warnings =
        (those (IsHomeless steps (x.value.map Step.key)) entries).map homelessText := by
  have hentries : r.listOf "fields" = .ok (entries.map .object) := by
    rw [Record.listOf, h.entries_eq]
  have hlist : r.listOf "steps" = .ok (steps.map .object) := by
    rw [Record.listOf, h.steps_eq]
  simp only [load, hentries, hlist, namedRecords_of_named h.named, ok_bind, bind_eq_ok,
    pure_eq_ok] at hx
  obtain ⟨p, hp, done, hdone, rfl⟩ := hx
  obtain ⟨new, names, given, hadded, hnew, hnames, hgiven⟩ := exists_of_loadSteps h.named hp
  simp only [List.nil_append] at hadded
  subst hadded
  have hdealing := dealing_of_placeRest h.named h.distinct hdone
  have hkeys : new.map Step.key = done.steps.map Step.key := hdealing.keys.symm
  have hawaits : ∀ i, ∀ e ∈ entries, (Progress.IsNewAt ⟨new, names, given⟩ i e ↔
      Awaits steps (done.steps.map Step.key) i e) := by
    intro i e he
    rw [← hkeys]
    exact and_congr_left fun _ => not_congr (hnames e he)
  have hhomeless : ∀ e ∈ entries,
      (Progress.IsNewHomeless ⟨new, names, given⟩ e ↔
        IsHomeless steps (done.steps.map Step.key) e) := by
    intro e he
    rw [← hkeys]
    exact and_congr_left fun _ => not_congr (hnames e he)
  constructor
  · refine forall₂_of_getElem? ?_ fun i t os ht hos => ?_
    · have hlength := congrArg List.length hkeys
      rw [List.length_map, List.length_map] at hlength
      rw [origins, List.length_map, List.length_zipIdx, hnew.length_eq, hlength]
    · obtain ⟨step, hstep, rfl⟩ := getElem?_origins hos
      obtain ⟨s, hs, hread⟩ := exists_getElem?_of_forall₂ hnew hstep
      obtain ⟨more, hmore, hmore_read⟩ := hdealing.fields i s hs
      obtain rfl := Option.some.inj (hmore.symm.trans ht)
      rw [those_congr (hawaits i)] at hmore_read
      exact List.rel_append hread (List.forall₂_map_right_iff.mpr hmore_read)
  · obtain ⟨others, hothers, hothers_those⟩ := hdealing.warnings
    rw [hothers, those_append, those_eq_nil hgiven, hothers_those,
      those_congr hhomeless, List.nil_append]

end Structured

/-- The field is what a record is loaded as in a step of some columns, and has what the record
gives. -/
structure Field.IsMadeFrom (f : Field) (r : Record) (columns : Int) : Prop where
  loaded : ∃ raw number, Field.IsReadFrom raw r columns ∧ raw.normalize columns number = .ok f
  taken : ∃ n, f.IsTakenFrom r columns n

theorem Field.IsReadFrom.isMadeFrom {raw f : Field} {r : Record} {columns : Int} {number : Nat}
    (hread : raw.IsReadFrom r columns) (hpos : 1 ≤ columns) (hle : columns ≤ Grid.maxColumns)
    (hf : raw.normalize columns number = .ok f) : f.IsMadeFrom r columns := by
  obtain ⟨n, hrecord⟩ := hread
  exact ⟨⟨raw, number, ⟨n, hrecord⟩, hf⟩, n, isTakenFrom_of_ofRecord hpos hle hrecord hf⟩

/-- A field in a step of some columns is loaded from its origin: it has the name of the entry and
the span of the reference, where there are such. -/
structure Field.IsLoadedFrom (f : Field) (o : Structured.Origin) (columns : Int) : Prop extends
    f.IsMadeFrom o.record columns where
  named : ∀ e, o.entry? = some e → f.name = e.declaredName
  spanned : ∀ reference, o.reference? = some reference → reference.get "column_span" ≠ .null →
    Grid.span (reference.get "column_span") columns = .ok f.span

/-- The fields of the step are loaded from some origins. -/
def Step.IsLoadedFrom (s : Step) (os : List Structured.Origin) : Prop :=
  List.Forall₂ (fun f o => f.IsLoadedFrom o s.columns) s.fields os

open Structured

namespace Field

variable {raw f : Field} {o : Origin} {columns : Int} {number : Nat}

theorem IsReadFrom.isLoadedFrom (hread : raw.IsReadFrom o.record columns)
    (hf : raw.normalize columns number = .ok f) (hpos : 1 ≤ columns)
    (hle : columns ≤ Grid.maxColumns) (hnamed : ∀ e, o.entry? = some e → e.IsNamed) :
    f.IsLoadedFrom o columns := by
  have hmade := hread.isMadeFrom hpos hle hf
  obtain ⟨n, htaken⟩ := hmade.taken
  refine ⟨hmade, fun e he => ?_, fun reference href hne => ?_⟩
  · have hentry := hnamed e he
    obtain ⟨given, hgiven, hname⟩ := htaken.name
    obtain rfl := Except.ok.inj (hgiven.symm.trans (Origin.textOf_record he hentry))
    rw [hname, hentry.trimmed, orElseText_of_ne hentry.ne]
  · have hspan := Origin.get_span_record href hne
    rw [← htaken.span, Record.firstOf_of_ne (by rwa [hspan]), hspan]

end Field

theorem Step.IsReadFrom.isLoadedFrom {s t : Step} {os : List Origin} {index : Nat}
    (hread : s.IsReadFrom os) (hs : s.IsLoaded) (ht : s.normalize index = .ok t)
    (hnamed : ∀ o ∈ os, ∀ e, o.entry? = some e → e.IsNamed) : t.IsLoadedFrom os := by
  obtain ⟨-, hcolumns, hfields⟩ := hs.normalize_eq_ok ht
  have horigins := forall₂_imp_of_mem (List.Forall₂.flip hread) hnamed
    fun o raw ho hraw => And.intro ho hraw
  rw [Step.IsLoadedFrom, hcolumns]
  refine forall₂_trans (forall₂_of_mapFrom hfields).flip horigins.flip fun f raw o hf ho => ?_
  obtain ⟨i, hf⟩ := hf
  exact Field.IsReadFrom.isLoadedFrom ho.2 hf hs.columns_pos hs.columns_le ho.1

theorem Form.IsLoaded.isLoadedFrom {form normal : Form} {oss : List (List Origin)}
    (hform : form.IsLoaded) (hnormal : form.normalize = .ok normal)
    (hread : List.Forall₂ Step.IsReadFrom form.steps oss)
    (hnamed : ∀ os ∈ oss, ∀ o ∈ os, ∀ e, o.entry? = some e → e.IsNamed) :
    List.Forall₂ Step.IsLoadedFrom normal.steps oss := by
  obtain ⟨steps, columns, hsteps, -, rfl⟩ := normalize_eq_ok hnormal
  have hloaded := forall₂_imp_of_mem hread hform.steps fun s os hs hos => And.intro hs hos
  have hall := forall₂_imp_of_mem hloaded.flip hnamed fun os s hos hs => And.intro hos hs
  refine forall₂_trans (forall₂_of_mapFrom hsteps).flip hall.flip fun t s os ht hs => ?_
  obtain ⟨index, ht⟩ := ht
  exact hs.2.2.isLoadedFrom hs.2.1 ht hs.1

/-- A form is loaded with every field in its place, from the entries and steps of a document whose
steps have some keys. -/
structure Loaded.IsPlacedFrom (loaded : Loaded Form) (entries steps : List Record)
    (keys : List String) : Prop where
  /-- The fields of every step stand beside their origins. -/
  fields : List.Forall₂ Step.IsLoadedFrom loaded.value.steps (origins entries steps keys)
  /-- An entry comes once for each reference to it, and once if it waits for a step. -/
  referenced : ∀ e ∈ entries, Referenced steps e →
    (origins entries steps keys).flatten.countP (Origin.isOf e) =
      (references steps).countP fun reference => Names reference e
  awaiting : ∀ e ∈ entries, (∃ i, Awaits steps keys i e) →
    (origins entries steps keys).flatten.countP (Origin.isOf e) = 1
  /-- No other entry comes, but there is one warning about each of them. -/
  homeless : ∀ e ∈ entries, IsHomeless steps keys e →
    (origins entries steps keys).flatten.countP (Origin.isOf e) = 0
  warnings : those IsHomelessText loaded.warnings =
    (those (IsHomeless steps keys) entries).map homelessText
  /-- All other fields come from references that name no entry. -/
  alone : ∀ reference, .alone reference ∈ (origins entries steps keys).flatten →
    ∀ e ∈ entries, ¬ Names reference e

namespace Form

variable {r : Record} {steps entries : List Record} {loaded : Loaded Form}

/-- Every named entry of a structured document is loaded exactly where it belongs. -/
theorem isPlacedFrom_of_isListing (h : IsListing r steps entries)
    (hload : ofDocument (.object r) = .ok loaded) :
    loaded.IsPlacedFrom entries steps (loaded.value.steps.map Step.key) := by
  have hsteps_ne : steps.map Value.object ≠ [] := by
    simpa using h.steps_ne
  obtain ⟨form, hform, hnormal, hstructured, -⟩ :=
    exists_steps_of_ofDocument h.steps_eq hsteps_ne h.entries_eq hload
  obtain ⟨hread, hwarnings⟩ := isReadFrom_of_load h hstructured
  have hkeys := hform.keys_eq_of_normalize hnormal
  rw [← hkeys] at hread hwarnings
  have hfields := hform.isLoadedFrom hnormal hread fun os hos o ho e he =>
    h.named e (mem_entries_of_mem_origins (List.mem_flatten.mpr ⟨os, hos, ho⟩) he)
  have hlength : loaded.value.steps.length = steps.length := by
    rw [hfields.length_eq, origins, List.length_map, List.length_zipIdx]
  refine ⟨hfields, fun e he hreferenced => ?_, fun e he hawaits => ?_, fun e he hhomeless => ?_,
    hwarnings, fun reference => not_names_of_alone⟩
  · exact countP_origins_of_not_awaits h.distinct he fun i hi => hi.1 hreferenced
  · obtain ⟨i, hi⟩ := hawaits
    exact countP_origins_of_awaits h.distinct he hlength hi
  · rw [countP_origins_of_not_awaits h.distinct he fun i hi => hhomeless.2 i hi.2]
    exact countP_names_eq_zero hhomeless.1 (List.Subset.refl _)

/-- The steps of a document: the first one refers to two fields, one of which has no entry. -/
def outingSteps : List Record :=
  [[("key", .text "s1"), ("title", .text "Details"), ("fields", .list
      [.object [("field_name", .text "age"), ("column_span", .int 2)], .null,
        .object [("field_name", .text "school")]])],
    [("key", .text "s2"), ("title", .text "Travel")]]

/-- Its entries: one that is referred to, one with a step key, one with an order number of a step,
and one with an order number of none. -/
def outingEntries : List Record :=
  [[("field_name", .text "notes"), ("step_key", .text "s1")],
    [("field_name", .text "bus"), ("order", .int 150)],
    [("field_name", .text "age"), ("field_type", .text "number")],
    [("field_name", .text "ghost"), ("order", .int 900)]]

/-- The document with these steps and entries. -/
def outing : Record :=
  [("title", .text "Outing"), ("program", .int 7),
    ("steps", .list (outingSteps.map .object)), ("fields", .list (outingEntries.map .object))]

theorem isListing_outing : IsListing outing outingSteps outingEntries where
  steps_eq := rfl
  steps_ne := by simp [outingSteps]
  entries_eq := rfl
  named := by
    simp only [outingEntries, List.forall_mem_cons, List.not_mem_nil, false_implies, implies_true,
      and_true]
    exact ⟨.of_text rfl (by decide) (by decide), .of_text rfl (by decide) (by decide),
      .of_text rfl (by decide) (by decide), .of_text rfl (by decide) (by decide)⟩
  distinct := by decide

theorem isPlacedFrom_outing : ∃ loaded, ofDocument (.object outing) = .ok loaded ∧
    loaded.IsPlacedFrom outingEntries outingSteps ["s1", "s2"] ∧
    loaded.value.steps.map Step.names = [["age", "school", "notes"], ["bus"]] ∧
    loaded.warnings = ["Field 'ghost' belongs to no step; skipping it"] := by
  have hloaded : (match ofDocument (.object outing) with
      | .ok loaded => some (loaded.value.steps.map Step.key, loaded.value.steps.map Step.names,
          loaded.warnings)
      | .error _ => none) = some (["s1", "s2"], [["age", "school", "notes"], ["bus"]],
        ["Field 'ghost' belongs to no step; skipping it"]) := by
    decide +kernel
  cases hload : ofDocument (.object outing) with
  | ok loaded =>
      rw [hload] at hloaded
      simp only [Option.some.injEq, Prod.mk.injEq] at hloaded
      obtain ⟨hkeys, hnames, hwarnings⟩ := hloaded
      have hplaced := isPlacedFrom_of_isListing isListing_outing hload
      rw [hkeys] at hplaced
      exact ⟨loaded, rfl, hplaced, hnames, hwarnings⟩
  | error e => simp [hload] at hloaded

/-- A document whose only step refers to a field by the number zero, with an entry of that name. -/
def zeroReference : Record := [("field_name", .int 0)]

def zeroStep : Record :=
  [("key", .text "s1"), ("title", .text "Details"), ("fields", .list [.object zeroReference])]

def zeroEntry : Record :=
  [("field_name", .text "0"), ("label", .text "Age"), ("field_type", .text "number")]

def zeroTrip : Record :=
  [("title", .text "Trip"), ("program", .int 7), ("steps", .list [.object zeroStep]),
    ("fields", .list [.object zeroEntry])]

theorem isListing_zeroTrip : IsListing zeroTrip [zeroStep] [zeroEntry] where
  steps_eq := rfl
  steps_ne := by simp
  entries_eq := rfl
  named := List.forall_mem_singleton.mpr (.of_text rfl (by decide) (by decide))
  distinct := by simp

/-- An entry need not be loaded in the place of a reference whose field name, as text, is its name:
a false value is no name. -/
theorem not_forall_loaded_at_text :
    ¬ ∀ (r : Record) (steps entries : List Record) (loaded : Loaded Form),
      IsListing r steps entries → ofDocument (.object r) = .ok loaded →
      ∀ (i j : Nat) (step reference e : Record), steps[i]? = some step →
        (referencesIn step)[j]? = some reference → e ∈ entries →
        (reference.get "field_name").plainText = .ok e.declaredName →
        ∃ s f, loaded.value.steps[i]? = some s ∧ s.fields[j]? = some f ∧
          f.IsLoadedFrom (.referred reference e) s.columns := by
  intro hall
  have hnames : (match ofDocument (.object zeroTrip) with
      | .ok loaded => some (loaded.value.steps.map Step.names)
      | .error _ => none) = some [["field"]] := by
    decide +kernel
  cases hload : ofDocument (.object zeroTrip) with
  | ok loaded =>
      rw [hload, Option.some.injEq] at hnames
      obtain ⟨s, f, hs, hf, hfield⟩ := hall zeroTrip [zeroStep] [zeroEntry] loaded
        isListing_zeroTrip hload 0 0 zeroStep zeroReference zeroEntry rfl rfl
        (List.mem_singleton_self _) rfl
      have hname : f.name = "0" := hfield.named zeroEntry rfl
      have hs_names : s.names = ["field"] := by
        have hfirst := congrArg (fun names : List (List String) => names[0]?) hnames
        simpa [hs] using hfirst
      have hf_name : f.name = "field" := by
        have hfirst := congrArg (fun names : List String => names[0]?) hs_names
        simpa [Step.names, hf] using hfirst
      rw [hname] at hf_name
      exact absurd hf_name (by decide)
  | error e => simp [hload] at hnames

end Form

end ConditionalForms
