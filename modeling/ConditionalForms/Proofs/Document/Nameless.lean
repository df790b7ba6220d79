import ConditionalForms.Proofs.Document.Loaded
import ConditionalForms.Proofs.Document.Members
import ConditionalForms.Proofs.Document.Placement
import ConditionalForms.Proofs.Form.FreeName

/-!
# Records without a name

In the common list of a structured document, records without a name all count as one: once a step
refers to a nameless field, or one of them is placed, the others are passed over.  The first one is
dealt with as any other record is; it becomes a field of the step that it belongs to, named by its
label or its place, or there is a warning about it.

**Definitions.**
* `Record.IsNameless`: a record has no name of its own.
* `Structured.Shadowed`: something nameless is placed before a record.
* `Structured.Passage`: how the last pass over a common list comes to a record, and goes on.
* `Field.ComesFrom`: a field that a nameless record is loaded as.

**Results.**
* `Structured.empty_mem_placed_of_loadSteps`, `Structured.empty_mem_placed_of_placeRest`: when a
  nameless record counts as placed.
* `Structured.Passage.load_without`, `Structured.Passage.exists_field`,
  `Structured.Passage.exists_warning`: the three ways in which a nameless record is dealt with.
* `Form.fate_of_nameless`: what becomes of a nameless record.
* `Form.not_forall_nameless_loaded_or_warned`: it may be lost without a warning.
-/

namespace ConditionalForms

/-- The record has no name of its own. -/
def Record.IsNameless (r : Record) : Prop := (r.get "field_name").isTruthy = false

theorem Record.textOf_eq_empty_iff {r : Record} :
    r.textOf "field_name" = .ok "" ↔ r.IsNameless := by
  rw [textOf, IsNameless]
  constructor
  · intro h
    split at h
    · rw [Value.eq_empty_of_plainText h]
      rfl
    · rename_i hfalse
      exact Bool.eq_false_iff.mpr hfalse
  · intro h
    rw [if_neg (Bool.eq_false_iff.mp h)]

theorem Record.IsNameless.eq_of_textOf {r : Record} {name : String} (h : r.IsNameless)
    (named : r.textOf "field_name" = .ok name) : name = "" :=
  Except.ok.inj (named.symm.trans (textOf_eq_empty_iff.mpr h))

namespace Structured

/-- Some object among the values has a property. -/
def SomeObject (P : Record → Prop) (vs : List Value) : Prop := ∃ r, .object r ∈ vs ∧ P r

theorem someObject_cons {P : Record → Prop} {r : Record} {vs : List Value} :
    SomeObject P (.object r :: vs) ↔ P r ∨ SomeObject P vs := by
  constructor
  · rintro ⟨s, hs, hP⟩
    rcases List.mem_cons.mp hs with heq | hs
    · obtain rfl := Value.object.inj heq
      exact Or.inl hP
    · exact Or.inr ⟨s, hs, hP⟩
  · rintro (hP | ⟨s, hs, hP⟩)
    · exact ⟨r, List.mem_cons_self, hP⟩
    · exact ⟨s, List.mem_cons_of_mem _ hs, hP⟩

theorem someObject_cons_of_ne {P : Record → Prop} {v : Value} {vs : List Value}
    (hv : ∀ r, v ≠ .object r) : SomeObject P (v :: vs) ↔ SomeObject P vs := by
  refine exists_congr fun s => and_congr_left fun _ => ?_
  rw [List.mem_cons, or_iff_right (hv s).symm]

/-- The fields of a step refer to one without a name. -/
def RefersNameless (s : Record) : Prop :=
  ∃ references, s.listOf "fields" = .ok references ∧ SomeObject Record.IsNameless references

/-- A record has no name and belongs to a step. -/
def PlacesNameless (keys : List String) (r : Record) : Prop :=
  r.IsNameless ∧ ∃ i, IsHome keys r i

variable {named : List (String × Record)} {r : Record} {p q : Progress}

theorem empty_mem_names_iff {columns : Int} {i : Nat} :
    ∀ {vs : List Value} {start : Nat} {xs : Loaded (List (String × Field))},
      loadRecords (loadReference named columns i) start vs = .ok xs →
      ("" ∈ xs.value.map Prod.fst ↔ SomeObject Record.IsNameless vs)
  | [], start, xs, h => by
      obtain rfl := Except.ok.inj h
      simp [SomeObject]
  | v :: vs, start, xs, h => by
      cases v with
      | object r =>
          simp only [loadRecords, loadReference, bind_eq_ok, pure_eq_ok] at h
          obtain ⟨_, ⟨name, hname, x, -, rfl⟩, rest, hrest, rfl⟩ := h
          have hempty : "" = name ↔ Record.IsNameless r := by
            rw [← Record.textOf_eq_empty_iff, hname, Except.ok.injEq, eq_comm]
          rw [List.map_cons, List.mem_cons, empty_mem_names_iff hrest, someObject_cons, hempty]
      | _ =>
          have hrest : loadRecords (loadReference named columns i) (start + 1) vs = .ok xs := h
          rw [empty_mem_names_iff hrest, someObject_cons_of_ne (by simp)]

/-- After the steps are loaded, what is nameless counts as placed if some step refers to it. -/
theorem empty_mem_placed_of_loadSteps {formColumns : Int} :
    ∀ {vs : List Value} {i : Nat} {p q : Progress}, loadSteps named formColumns i p vs = .ok q →
      ("" ∈ q.placed ↔ "" ∈ p.placed ∨ SomeObject RefersNameless vs)
  | [], i, p, q, h => by
      obtain rfl := Except.ok.inj h
      simp [SomeObject]
  | v :: vs, i, p, q, h => by
      cases v with
      | object r =>
          simp only [loadSteps, bind_eq_ok] at h
          obtain ⟨columns, -, references, hreferences, fields, hfields, step, -, h⟩ := h
          have hrefers : RefersNameless r ↔ SomeObject Record.IsNameless references := by
            constructor
            · rintro ⟨others, hothers, hsome⟩
              obtain rfl := Except.ok.inj (hothers.symm.trans hreferences)
              exact hsome
            · exact fun hsome => ⟨references, hreferences, hsome⟩
          rw [empty_mem_placed_of_loadSteps h, List.mem_append, empty_mem_names_iff hfields,
            someObject_cons, hrefers, or_assoc]
      | _ =>
          have hrest : loadSteps named formColumns (i + 1) p vs = .ok q := h
          rw [empty_mem_placed_of_loadSteps hrest, someObject_cons_of_ne (by simp)]

theorem empty_mem_placed_of_placeRecord (h : placeRecord p r = .ok q) :
    "" ∈ q.placed ↔
      "" ∈ p.placed ∨ PlacesNameless (p.steps.map Step.key) r := by
  cases placing_of_placeRecord h with
  | skipped named known =>
      refine ⟨Or.inl, ?_⟩
      rintro (hplaced | ⟨hnameless, -⟩)
      · exact hplaced
      · rwa [hnameless.eq_of_textOf named] at known
  | warned named new homeless given =>
      refine ⟨Or.inl, ?_⟩
      rintro (hplaced | ⟨-, i, hhome⟩)
      · exact hplaced
      · exact absurd hhome (not_isHome_of_homeOf? homeless i)
  | @placed name i step x named new home found loaded =>
      have hhome := homeOf?_eq_some_iff.mp home
      show "" ∈ p.placed ++ [name] ↔ _
      rw [List.mem_append, List.mem_singleton, PlacesNameless, ← Record.textOf_eq_empty_iff, named]
      refine or_congr_right ⟨?_, ?_⟩
      · rintro rfl
        exact ⟨rfl, i, hhome⟩
      · rintro ⟨heq, -⟩
        exact (Except.ok.inj heq).symm

/-- After more records are dealt with, what is nameless counts as placed if one of these has no name
and belongs to a step. -/
theorem empty_mem_placed_of_placeRest : ∀ {vs : List Value} {p q : Progress},
    placeRest p vs = .ok q →
      ("" ∈ q.placed ↔ "" ∈ p.placed ∨ SomeObject (PlacesNameless (p.steps.map Step.key)) vs)
  | [], p, q, h => by
      obtain rfl := Except.ok.inj h
      simp [SomeObject]
  | v :: vs, p, q, h => by
      cases v with
      | object r =>
          simp only [placeRest, bind_eq_ok] at h
          obtain ⟨next, hnext, h⟩ := h
          rw [empty_mem_placed_of_placeRest h, empty_mem_placed_of_placeRecord hnext,
            keys_eq_of_growsTo (growsTo_of_placeRecord hnext), someObject_cons, or_assoc]
      | _ =>
          have hrest : placeRest p vs = .ok q := h
          rw [empty_mem_placed_of_placeRest hrest, someObject_cons_of_ne (by simp)]

/-- Something nameless is placed before the record after some others: a step refers to it, or one of
the others belongs to a step. -/
def Shadowed (keys : List String) (steps front : List Value) : Prop :=
  SomeObject RefersNameless steps ∨ SomeObject (PlacesNameless keys) front

/-- A nameless record is not among the named ones. -/
theorem namedRecords_without {entry : Record} (h : entry.IsNameless) (front back : List Value) :
    namedRecords (front ++ .object entry :: back) = namedRecords (front ++ back) := by
  induction front with
  | nil =>
      rw [List.nil_append, List.nil_append, namedRecords]
      exact if_neg (Bool.eq_false_iff.mp h)
  | cons v front ih => cases v with
    | object r => rw [List.cons_append, List.cons_append, namedRecords, namedRecords, ih]
    | _ => exact ih

/-- The document with other fields in its common list. -/
def withFields (r : Record) (vs : List Value) : Record := r.set "fields" (.list vs)

theorem get?_withFields {name : String} (hname : name ≠ "fields") (r : Record) (vs : List Value) :
    (withFields r vs).get? name = r.get? name := by
  rw [withFields, Record.get?_set, if_neg hname.symm]

theorem get_withFields (r : Record) (vs : List Value) :
    (withFields r vs).get "fields" = .list vs := by
  rw [Record.get, withFields, Record.get?_set, if_pos rfl, Option.getD_some]

/-- How the last pass over the common list of a document comes to a record, and goes on. -/
structure Passage (r : Record) (formColumns : Int) (steps front : List Value) (entry : Record)
    (back : List Value) (before next done : Progress) : Prop where
  placed : placeRecord before entry = .ok next
  rest : placeRest next back = .ok done
  keys_eq : before.steps.map Step.key = done.steps.map Step.key
  shadowed_iff : "" ∈ before.placed ↔ Shadowed (done.steps.map Step.key) steps front
  without : ∀ other, placeRest before back = .ok other →
    load (withFields r (front ++ back)) formColumns = .ok ⟨other.steps, other.warnings⟩

variable {entry : Record} {front back steps : List Value} {formColumns : Int}
  {before next done : Progress}

theorem exists_passage {x : Loaded (List Step)} (hnameless : entry.IsNameless)
    (hsteps : r.get "steps" = .list steps)
    (hfields : r.get "fields" = .list (front ++ .object entry :: back))
    (h : load r formColumns = .ok x) :
    ∃ before next done, x = ⟨done.steps, done.warnings⟩ ∧
      Passage r formColumns steps front entry back before next done := by
  have hentries : r.listOf "fields" = .ok (front ++ .object entry :: back) := by
    rw [Record.listOf, hfields]
  have hlist : r.listOf "steps" = .ok steps := by
    rw [Record.listOf, hsteps]
  simp only [load, hentries, hlist, ok_bind, bind_eq_ok, pure_eq_ok] at h
  obtain ⟨named, hnamed, p, hp, done, hdone, rfl⟩ := h
  rw [placeRest_append, bind_eq_ok] at hdone
  obtain ⟨before, hbefore, hdone⟩ := hdone
  rw [placeRest, bind_eq_ok] at hdone
  obtain ⟨next, hnext, hrest⟩ := hdone
  have hkeys : before.steps.map Step.key = done.steps.map Step.key := by
    rw [keys_eq_of_growsTo (growsTo_of_placeRest hrest),
      keys_eq_of_growsTo (growsTo_of_placeRecord hnext)]
  have hshadowed : "" ∈ before.placed ↔ Shadowed (done.steps.map Step.key) steps front := by
    rw [empty_mem_placed_of_placeRest hbefore, empty_mem_placed_of_loadSteps hp, ← hkeys,
      keys_eq_of_growsTo (growsTo_of_placeRest hbefore), Shadowed]
    simp
  refine ⟨before, next, done, rfl, hnext, hrest, hkeys, hshadowed, fun other hother => ?_⟩
  have hlist' : (withFields r (front ++ back)).listOf "steps" = .ok steps := by
    rw [Record.listOf, Record.get, get?_withFields (by decide), ← Record.get, hsteps]
  have hentries' : (withFields r (front ++ back)).listOf "fields" = .ok (front ++ back) := by
    rw [Record.listOf, get_withFields]
  have hplaced : placeRest p (front ++ back) = .ok other := by
    rw [placeRest_append, hbefore, ok_bind, hother]
  rw [namedRecords_without hnameless] at hnamed
  simp only [load, hentries', hlist', hnamed, hp, hplaced, ok_bind]
  rfl

/-- Once something nameless is placed, a nameless record is passed over. -/
theorem eq_of_placing (hnameless : r.IsNameless) (h : Placing p r q) (hempty : "" ∈ p.placed) :
    q = p := by
  cases h with
  | skipped => rfl
  | warned named new | placed named new =>
      obtain rfl := hnameless.eq_of_textOf named
      exact absurd hempty new

/-- The first nameless record that belongs to a step becomes a field at its end. -/
theorem exists_field_of_placing (hnameless : r.IsNameless) (h : Placing p r q)
    (hempty : "" ∉ p.placed) {i : Nat} (hhome : homeOf? p.steps r = .ok (some i)) :
    ∃ step field, p.steps[i]? = some step ∧
      Field.ofRecord r step.columns (Name.placeholder (step.fields.length + 1)) = .ok field ∧
      q.steps[i]? = some { step with fields := step.fields ++ [field] } := by
  cases h with
  | skipped named known =>
      obtain rfl := hnameless.eq_of_textOf named
      exact absurd known hempty
  | warned named new homeless => simp [hhome] at homeless
  | @placed name j step x named new home found loaded =>
      obtain rfl : i = j := by simpa [hhome] using home
      simp only [Field.load, bind_eq_ok, pure_eq_ok] at loaded
      obtain ⟨warnings, -, field, hfield, rfl⟩ := loaded
      exact ⟨step, field, found, hfield, by simp [found]⟩

/-- There is a warning about a nameless record that belongs to no step. -/
theorem exists_warning_of_placing (hnameless : r.IsNameless) (h : Placing p r q)
    (hempty : "" ∉ p.placed) (hhomeless : ∀ i, homeOf? p.steps r ≠ .ok (some i)) :
    ∃ warning, homelessWarning r "" = .ok warning ∧
      q = { p with warnings := p.warnings ++ [warning] } := by
  cases h with
  | skipped named known =>
      obtain rfl := hnameless.eq_of_textOf named
      exact absurd known hempty
  | @warned name warning named new homeless given =>
      obtain rfl := hnameless.eq_of_textOf named
      exact ⟨warning, given, rfl⟩
  | placed named new home => exact absurd home (hhomeless _)

namespace Passage

/-- A shadowed record is passed over. -/
theorem load_without (c : Passage r formColumns steps front entry back before next done)
    (hnameless : entry.IsNameless) (hshadowed : Shadowed (done.steps.map Step.key) steps front) :
    load (withFields r (front ++ back)) formColumns = .ok ⟨done.steps, done.warnings⟩ := by
  have hempty := c.shadowed_iff.mpr hshadowed
  have hnext := eq_of_placing hnameless (placing_of_placeRecord c.placed) hempty
  refine c.without done ?_
  rw [← hnext]
  exact c.rest

/-- A record that is not shadowed becomes a field of the step that it belongs to. -/
theorem exists_field (c : Passage r formColumns steps front entry back before next done)
    (hnameless : entry.IsNameless)
    (hshadowed : ¬ Shadowed (done.steps.map Step.key) steps front) {i : Nat}
    (hhome : IsHome (done.steps.map Step.key) entry i) :
    ∃ step field, ∃ n : Nat, done.steps[i]? = some step ∧ step.fields[n]? = some field ∧
      Field.ofRecord entry step.columns (Name.placeholder (n + 1)) = .ok field := by
  rw [← c.keys_eq, ← homeOf?_eq_some_iff] at hhome
  obtain ⟨step, field, -, hfield, hgrown⟩ := exists_field_of_placing hnameless
    (placing_of_placeRecord c.placed) (mt c.shadowed_iff.mp hshadowed) hhome
  obtain ⟨_, hdone, more, rfl⟩ := exists_getElem?_of_forall₂ (growsTo_of_placeRest c.rest) hgrown
  exact ⟨_, field, step.fields.length, hdone, by simp, hfield⟩

/-- There is a warning about a record that is not shadowed and belongs to no step, and nothing else
comes of it. -/
theorem exists_warning (c : Passage r formColumns steps front entry back before next done)
    (hnameless : entry.IsNameless)
    (hshadowed : ¬ Shadowed (done.steps.map Step.key) steps front)
    (hhomeless : ∀ i, ¬ IsHome (done.steps.map Step.key) entry i) :
    ∃ earlier warning later, homelessWarning entry "" = .ok warning ∧
      done.warnings = earlier ++ warning :: later ∧
      load (withFields r (front ++ back)) formColumns = .ok ⟨done.steps, earlier ++ later⟩ := by
  have hhome : ∀ i, homeOf? before.steps entry ≠ .ok (some i) := by
    intro i h
    rw [homeOf?_eq_some_iff, c.keys_eq] at h
    exact hhomeless i h
  obtain ⟨warning, hwarning, rfl⟩ := exists_warning_of_placing hnameless
    (placing_of_placeRecord c.placed) (mt c.shadowed_iff.mp hshadowed) hhome
  -- The records that come later are dealt with as if there had been no warnings before.
  obtain ⟨placedSteps, placed, earlier⟩ := before
  have hafter : ∀ warnings, placeRest ⟨placedSteps, placed, warnings⟩ back =
      (·.after warnings) <$> placeRest ⟨placedSteps, placed, []⟩ back := by
    intro warnings
    rw [← placeRest_after, Progress.after, List.append_nil]
  have hrest := c.rest
  rw [hafter] at hrest
  obtain ⟨last, hlast, rfl⟩ := map_eq_ok.mp hrest
  have hother : placeRest ⟨placedSteps, placed, earlier⟩ back = .ok (last.after earlier) := by
    rw [hafter, hlast, map_ok]
  refine ⟨earlier, warning, last.warnings, hwarning, ?_, c.without _ hother⟩
  simp [Progress.after]

end Passage

end Structured

/-- The field is what a record without a name is loaded as, at a position in a step of some columns:
it has the name that its label gives, or one from its position. -/
structure Field.ComesFrom (f : Field) (entry : Record) (columns : Int) (position : Nat) : Prop where
  loaded : ∃ raw number, Field.ofRecord entry columns (Name.placeholder (position + 1)) = .ok raw ∧
    raw.normalize columns number = .ok f
  labelled : Field.labelOf entry = .ok f.label
  named : f.name = orElseText (Name.slug f.label) (Name.placeholder (position + 1))

/-- A field that is taken from a record without a name gets that of its label, or a numbered one. -/
theorem Field.IsTakenFrom.name_of_isNameless {f : Field} {r : Record} {columns n : Int}
    (h : f.IsTakenFrom r columns n) (hnameless : r.IsNameless) :
    f.name = orElseText (Name.slug f.label) (Name.placeholder n) := by
  obtain ⟨given, hgiven, hname⟩ := h.name
  obtain rfl := hnameless.eq_of_textOf hgiven
  rw [hname]
  exact if_pos (by decide)

theorem Field.comesFrom_of_normalize {entry : Record} (hnameless : entry.IsNameless)
    {columns : Int} {position number : Nat} {raw f : Field} (hpos : 1 ≤ columns)
    (hle : columns ≤ Grid.maxColumns)
    (hraw : ofRecord entry columns (Name.placeholder (position + 1)) = .ok raw)
    (hf : raw.normalize columns number = .ok f) : f.ComesFrom entry columns position := by
  have htaken := isTakenFrom_of_ofRecord hpos hle hraw hf
  exact ⟨⟨raw, number, hraw, hf⟩, htaken.label, htaken.name_of_isNameless hnameless⟩

namespace Form

open Structured

variable {r entry : Record} {front back steps fields : List Value} {loaded : Loaded Form}

/-- What a structured document is loaded as depends on its common list only through its steps. -/
theorem exists_steps_of_ofDocument (hsteps : r.get "steps" = .list steps) (hne : steps ≠ [])
    (hfields : r.get "fields" = .list fields) (h : ofDocument (.object r) = .ok loaded) :
    ∃ form : Form, form.IsLoaded ∧ form.normalize = .ok loaded.value ∧
      Structured.load r form.columns = .ok ⟨form.steps, loaded.warnings⟩ ∧
      ∀ others warnings,
        Structured.load (withFields r others) form.columns = .ok ⟨form.steps, warnings⟩ →
          ofDocument (.object (withFields r others)) = .ok ⟨loaded.value, warnings⟩ := by
  obtain ⟨first, rest, rfl⟩ := List.exists_cons_of_ne_nil hne
  have hshape : ∀ {s : Record} {vs : List Value}, s.get "steps" = .list (first :: rest) →
      s.get "fields" = .list vs → Shape.ofRecord s = .ok .structured := by
    intro s vs hsteps hfields
    rw [Shape.ofRecord, hsteps, hfields]
  simp only [ofDocument, bind_eq_ok, pure_eq_ok] at h
  obtain ⟨unordered, hform, normal, hnormal, rfl⟩ := h
  have hloaded := (contract_ofRecord r).of_ok hform
  simp only [ofRecord, hshape hsteps hfields, ok_bind, bind_eq_ok, pure_eq_ok] at hform
  obtain ⟨columns, hcolumns, ⟨steps, given⟩, hload, name, hname, description, hdescription, program,
    hprogram, rfl⟩ := hform
  refine ⟨_, hloaded, hnormal, hload, fun others warnings hother => ?_⟩
  have halike : Record.AlikeBut ["steps", "fields"] (withFields r others) r := by
    intro member hmember
    exact get?_withFields (by rintro rfl; simp at hmember) r others
  have hother_shape : Shape.ofRecord (withFields r others) = .ok .structured := by
    refine hshape ?_ (get_withFields r others)
    rw [Record.get, get?_withFields (by decide), ← Record.get, hsteps]
  have hother_columns : columnsOf (withFields r others) = .ok columns := by
    rw [← hcolumns]
    simp (disch := decide) only [columnsOf, halike.get_eq]
  have hother_form : ofRecord (withFields r others) =
      .ok ⟨⟨name, description, program, columns, steps⟩, warnings⟩ := by
    simp (disch := decide) only [ofRecord, hother_columns, hother_shape, Shape.load, hother,
      programText, halike.get_eq, halike.firstOf_eq, hname, hdescription, ok_bind]
    rw [programText] at hprogram
    rw [hprogram]
    rfl
  rw [ofDocument, hother_form, ok_bind, hnormal]
  rfl

/-- What becomes of a nameless record in the common list of a structured document.  After something
nameless is placed, it is passed over: without it the same form is loaded, with the same warnings.
Otherwise it becomes a field of the step that it belongs to, and if it belongs to none, there is a
warning about it and nothing else. -/
theorem fate_of_nameless (hsteps : r.get "steps" = .list steps) (hne : steps ≠ [])
    (hfields : r.get "fields" = .list (front ++ .object entry :: back))
    (hnameless : entry.IsNameless) (h : ofDocument (.object r) = .ok loaded) {keys : List String}
    (hkeys : loaded.value.steps.map Step.key = keys) :
    (Shadowed keys steps front →
      ofDocument (.object (withFields r (front ++ back))) = .ok loaded) ∧
    (¬ Shadowed keys steps front → ∀ i, IsHome keys entry i →
      ∃ step f, ∃ n : Nat, loaded.value.steps[i]? = some step ∧ step.fields[n]? = some f ∧
        f.ComesFrom entry step.columns n) ∧
    (¬ Shadowed keys steps front → (∀ i, ¬ IsHome keys entry i) →
      ∃ earlier warning later, homelessWarning entry "" = .ok warning ∧
        loaded.warnings = earlier ++ warning :: later ∧
        ofDocument (.object (withFields r (front ++ back))) =
          .ok ⟨loaded.value, earlier ++ later⟩) := by
  obtain ⟨form, hloaded, hnormal, hload, hwithout⟩ :=
    exists_steps_of_ofDocument hsteps hne hfields h
  obtain ⟨before, next, done, hdone, passage⟩ := exists_passage hnameless hsteps hfields hload
  obtain ⟨hdone_steps, hdone_warnings⟩ := Loaded.mk.inj hdone
  rw [hloaded.keys_eq_of_normalize hnormal, hdone_steps] at hkeys
  subst hkeys
  refine ⟨fun hshadowed => ?_, fun hshadowed i hhome => ?_, fun hshadowed hhomeless => ?_⟩
  · refine hwithout _ _ ?_
    rw [passage.load_without hnameless hshadowed, hdone]
  · obtain ⟨s, raw, n, hs, hraw, hentry⟩ := passage.exists_field hnameless hshadowed hhome
    rw [← hdone_steps] at hs
    obtain ⟨step, f, number, hstep, hf, hcolumns, hnormalized⟩ :=
      hloaded.exists_field_of_normalize hnormal hs hraw
    refine ⟨step, f, n, hstep, hf, ?_⟩
    have hstep_loaded := hloaded.steps s (List.mem_of_getElem? hs)
    rw [hcolumns]
    exact Field.comesFrom_of_normalize hnameless hstep_loaded.columns_pos hstep_loaded.columns_le
      hentry hnormalized
  · obtain ⟨earlier, warning, later, hwarning, hwarnings, hother⟩ :=
      passage.exists_warning hnameless hshadowed hhomeless
    refine ⟨earlier, warning, later, hwarning, hdone_warnings.trans hwarnings, hwithout _ _ ?_⟩
    rw [hother, hdone_steps]

/-- A field without a name. -/
def schoolEntry : Record :=
  [("label", .text "School"), ("field_type", .text "text"), ("step_key", .text "s1")]

/-- Another one, for the same step. -/
def ageEntry : Record :=
  [("label", .text "Age"), ("field_type", .text "number"), ("step_key", .text "s1")]

/-- A document with two nameless fields for its only step. -/
def namelessTrip : Record :=
  [("title", .text "Trip"), ("program", .int 7),
    ("steps", .list [.object
      [("key", .text "s1"), ("title", .text "Details"), ("fields", .list [])]]),
    ("fields", .list [.object schoolEntry, .object ageEntry])]

/-- Only the first of the two fields is loaded, and there is no warning about the second. -/
theorem exists_namelessTrip : ∃ loaded, ofDocument (.object namelessTrip) = .ok loaded ∧
    loaded.value.steps.map Step.key = ["s1"] ∧ loaded.value.fields.map Field.label = ["School"] ∧
    loaded.warnings = [] := by
  have hloaded : (match ofDocument (.object namelessTrip) with
      | .ok loaded => some (loaded.value.steps.map Step.key,
          loaded.value.fields.map Field.label, loaded.warnings)
      | .error _ => none) = some (["s1"], ["School"], []) := by
    decide +kernel
  cases hload : ofDocument (.object namelessTrip) with
  | ok loaded => simpa [hload] using hloaded
  | error e => simp [hload] at hloaded

theorem isHome_s1 {entry : Record} (h : entry.get "step_key" = .text "s1") :
    IsHome ["s1"] entry 0 :=
  .byKey h rfl (by simp)

/-- The first field comes to be loaded, and the second is lost. -/
theorem fate_of_namelessTrip : ∃ loaded, ofDocument (.object namelessTrip) = .ok loaded ∧
    (∃ step f, ∃ n : Nat, loaded.value.steps[0]? = some step ∧ step.fields[n]? = some f ∧
      f.ComesFrom schoolEntry step.columns n) ∧
    ofDocument (.object (withFields namelessTrip [.object schoolEntry])) = .ok loaded := by
  obtain ⟨loaded, hload, hkeys, -, -⟩ := exists_namelessTrip
  have hrefers : ¬ SomeObject RefersNameless [.object
      [("key", .text "s1"), ("title", .text "Details"), ("fields", .list [])]] := by
    rintro ⟨s, hs, references, hreferences, t, ht, -⟩
    obtain rfl := Value.object.inj (List.mem_singleton.mp hs)
    obtain rfl : [] = references := Except.ok.inj hreferences
    exact absurd ht List.not_mem_nil
  have hschool : schoolEntry.IsNameless := rfl
  have hage : ageEntry.IsNameless := rfl
  have hfields : namelessTrip.get "fields" =
      .list ([] ++ .object schoolEntry :: [.object ageEntry]) := rfl
  have hfields' : namelessTrip.get "fields" =
      .list ([.object schoolEntry] ++ .object ageEntry :: []) := rfl
  refine ⟨loaded, hload, ?_, ?_⟩
  · refine (fate_of_nameless rfl (by simp) hfields hschool hload hkeys).2.1 ?_ 0 (isHome_s1 rfl)
    rintro (h | ⟨s, hs, -⟩)
    · exact hrefers h
    · exact absurd hs List.not_mem_nil
  · refine (fate_of_nameless rfl (by simp) hfields' hage hload hkeys).1 ?_
    exact Or.inr ⟨schoolEntry, List.mem_singleton_self _, rfl, 0, isHome_s1 rfl⟩

/-- A nameless field that belongs to a step may be neither loaded nor warned about. -/
theorem not_forall_nameless_loaded_or_warned :
    ¬ ∀ (r entry : Record) (front back : List Value) (loaded : Loaded Form) (i : Nat),
      Shape.ofRecord r = .ok .structured → ofDocument (.object r) = .ok loaded →
      r.get "fields" = .list (front ++ .object entry :: back) → entry.IsNameless →
      IsHome (loaded.value.steps.map Step.key) entry i →
      (∃ f ∈ loaded.value.fields, Field.labelOf entry = .ok f.label) ∨
        ∃ warning ∈ loaded.warnings, homelessWarning entry "" = .ok warning := by
  intro hall
  obtain ⟨loaded, hload, hkeys, hlabels, hwarnings⟩ := exists_namelessTrip
  have hhome : IsHome (loaded.value.steps.map Step.key) ageEntry 0 := by
    rw [hkeys]
    exact isHome_s1 rfl
  rcases hall namelessTrip ageEntry [.object schoolEntry] [] loaded 0 rfl hload rfl rfl hhome with
    ⟨f, hf, hlabel⟩ | ⟨warning, hmem, -⟩
  · have hschool : f.label = "School" := by
      have hmem := List.mem_map_of_mem (f := Field.label) hf
      rwa [hlabels, List.mem_singleton] at hmem
    rw [hschool] at hlabel
    exact absurd hlabel (by decide)
  · rw [hwarnings] at hmem
    exact absurd hmem List.not_mem_nil

end Form

end ConditionalForms
