import ConditionalForms.Proofs.Agreement
import ConditionalForms.Proofs.Value.Record

/-!
# Loading does not depend on the order of members

The members of records are looked up by name, so that documents which differ only in the order of
the members of their records are loaded as the same form, with the same warnings.  Only the shape in
which forms are saved is treated here.

**Definitions.**
* `Record.Alike`: the same values under all names.
* `Record.AlikeBut`: the same values under all names but some.
* `Structured.AlikeSteps`, `Structured.AlikeNamed`: the same for steps with their fields, and for
  records with their names.

**Results.**
* `Field.load_congr`: a field is loaded from its values.
* `Structured.load_congr`: so are the steps of a structured document.
* `Form.ofRecord_congr`: and the form.
-/

namespace ConditionalForms

namespace Record

/-- The records have the same values under all names. -/
def Alike (r s : Record) : Prop := ∀ name, r.get? name = s.get? name

/-- The records have the same values under all names but the hidden ones. -/
def AlikeBut (hidden : List String) (r s : Record) : Prop :=
  ∀ name, name ∉ hidden → r.get? name = s.get? name

variable {r s : Record}

theorem Alike.get_eq (h : r.Alike s) (name : String) : r.get name = s.get name := by
  rw [get, get, h name]

theorem Alike.set (h : r.Alike s) (name : String) (v : Value) :
    Alike (r.set name v) (s.set name v) := by
  intro other
  rw [get?_set, get?_set, h other]

theorem Alike.firstOf_eq (h : r.Alike s) (names : List String) (default : Value) :
    r.firstOf names default = s.firstOf names default := by
  induction names with
  | nil => rfl
  | cons name rest ih => rw [firstOf, firstOf, h.get_eq, ih]

theorem Alike.textOf_eq (h : r.Alike s) (name : String) : r.textOf name = s.textOf name := by
  rw [textOf, textOf, h.get_eq]

theorem AlikeBut.get_eq {hidden : List String} (h : AlikeBut hidden r s) {name : String}
    (hname : name ∉ hidden) : r.get name = s.get name := by
  rw [get, get, h name hname]

theorem AlikeBut.firstOf_eq {hidden : List String} (h : AlikeBut hidden r s) {names : List String}
    (hnames : ∀ name ∈ names, name ∉ hidden) (default : Value) :
    r.firstOf names default = s.firstOf names default := by
  induction names with
  | nil => rfl
  | cons name rest ih =>
      obtain ⟨hname, hrest⟩ := List.forall_mem_cons.mp hnames
      rw [firstOf, firstOf, h.get_eq hname, ih hrest]

end Record

open Record (Alike AlikeBut)

/-- A field is loaded from the values of its record. -/
theorem Field.load_congr {r s : Record} (h : r.Alike s) : Field.load r = Field.load s := by
  funext columns fallback
  simp only [load, recordWarnings, ofRecord, labelOf, kindOf?, kindValue, nameOf, h.firstOf_eq,
    h.textOf_eq, h.get_eq]

namespace Step

variable {r s : Record}

theorem columnsOf_congr (h : AlikeBut ["fields"] r s) : columnsOf r = columnsOf s := by
  funext columns
  simp (disch := decide) only [columnsOf, h.get_eq, h.firstOf_eq]

theorem ofRecord_congr (h : AlikeBut ["fields"] r s) : Step.ofRecord r = Step.ofRecord s := by
  funext index fields columns
  simp (disch := decide) only [ofRecord, h.firstOf_eq]

end Step

/-- Records that are loaded alike one by one are loaded alike. -/
theorem loadRecords_congr {α : Type} {load other : Nat → Record → Except Fault (Loaded α)}
    (hload : ∀ i r s, r.Alike s → load i r = other i s) {rs ss : List Record}
    (h : List.Forall₂ Alike rs ss) (start : Nat) :
    loadRecords load start (rs.map .object) = loadRecords other start (ss.map .object) := by
  induction h generalizing start with
  | nil => rfl
  | @cons r s rs ss hrs _ ih =>
      rw [List.map_cons, List.map_cons, loadRecords, loadRecords, hload start r s hrs, ih]

namespace Structured

/-- Both records have lists of alike records as their fields, and they are alike otherwise. -/
structure AlikeSteps (r s : Record) : Prop where
  but : AlikeBut ["fields"] r s
  fields : ∃ rs ss : List Record, r.listOf "fields" = .ok (rs.map .object) ∧
    s.listOf "fields" = .ok (ss.map .object) ∧ List.Forall₂ Alike rs ss

/-- The same names with records that are alike. -/
def AlikeNamed : List (String × Record) → List (String × Record) → Prop :=
  List.Forall₂ fun p q => p.1 = q.1 ∧ p.2.Alike q.2

variable {rs ss : List Record} {named others : List (String × Record)}

theorem namedRecords_agree (h : List.Forall₂ Alike rs ss) :
    Agree AlikeNamed (namedRecords (rs.map .object)) (namedRecords (ss.map .object)) := by
  induction h with
  | nil => exact .ok .nil
  | @cons r s rs ss hrs _ ih =>
      rw [List.map_cons, List.map_cons, namedRecords, namedRecords]
      simp only [hrs.get_eq]
      refine Agree.ite ?_ ih
      refine Agree.bind_same fun name => ih.bind fun named others hall => ?_
      exact .ok (.cons ⟨rfl, hrs⟩ hall)

theorem find?_alike (h : AlikeNamed named others) (name : String) :
    Option.Rel (fun p q => p.2.Alike q.2) (named.find? fun p => p.1 = name)
      (others.find? fun p => p.1 = name) := by
  induction h with
  | nil => exact .none
  | @cons p q named others hpq _ ih =>
      rw [List.find?_cons, List.find?_cons, hpq.1]
      split
      · exact .some hpq.2
      · exact ih

theorem referent_alike (hnamed : AlikeNamed named others) {r s : Record} (h : r.Alike s)
    (name : String) : (referent named name r).Alike (referent others name s) := by
  have hfind := find?_alike hnamed name
  unfold referent
  rw [h.get_eq]
  generalize (named.find? fun p => p.1 = name) = p at hfind ⊢
  generalize (others.find? fun p => p.1 = name) = q at hfind ⊢
  cases hfind with
  | none =>
      dsimp only
      split
      · exact h
      · exact h.set _ _
  | some hpq =>
      dsimp only
      split
      · exact hpq
      · exact hpq.set _ _

theorem loadReference_congr (hnamed : AlikeNamed named others) (columns : Int) (i j : Nat)
    (r s : Record) (h : r.Alike s) :
    loadReference named columns i j r = loadReference others columns i j s := by
  simp only [loadReference, h.textOf_eq, Field.load_congr (referent_alike hnamed h _)]

theorem loadSteps_congr (hnamed : AlikeNamed named others) (formColumns : Int)
    (h : List.Forall₂ AlikeSteps rs ss) (i : Nat) (p : Progress) :
    loadSteps named formColumns i p (rs.map .object) =
      loadSteps others formColumns i p (ss.map .object) := by
  induction h generalizing i p with
  | nil => rfl
  | @cons r s rs ss hrs _ ih =>
      obtain ⟨references, sorted, hr, hs, hfields⟩ := hrs.fields
      simp only [List.map_cons, loadSteps, Step.columnsOf_congr hrs.but,
        Step.ofRecord_congr hrs.but, hr, hs, ok_bind, ih,
        loadRecords_congr (loadReference_congr hnamed _ i) hfields]

theorem placeRest_congr (h : List.Forall₂ Alike rs ss) (p : Progress) :
    placeRest p (rs.map .object) = placeRest p (ss.map .object) := by
  induction h generalizing p with
  | nil => rfl
  | @cons r s rs ss hrs _ ih =>
      have hrecord : placeRecord p r = placeRecord p s := by
        simp only [placeRecord, homeOf?, homelessWarning, hrs.textOf_eq, hrs.get_eq,
          Field.load_congr hrs]
      simp only [List.map_cons, placeRest, hrecord, ih]

/-- Structured documents with alike steps and fields are loaded as the same steps. -/
theorem load_congr {r s : Record} {fields others : List Record}
    (hr : r.listOf "steps" = .ok (rs.map .object)) (hs : s.listOf "steps" = .ok (ss.map .object))
    (hsteps : List.Forall₂ AlikeSteps rs ss)
    (hrf : r.listOf "fields" = .ok (fields.map .object))
    (hsf : s.listOf "fields" = .ok (others.map .object))
    (hfields : List.Forall₂ Alike fields others) (formColumns : Int) :
    load r formColumns = load s formColumns := by
  rw [load, load, hr, hs, hrf, hsf]
  simp only [ok_bind]
  refine Agree.eq ((namedRecords_agree hfields).bind fun named others hnamed => Agree.of_eq ?_)
  simp only [loadSteps_congr hnamed formColumns hsteps, placeRest_congr hfields]

end Structured

/-- Documents of one shape are loaded alike when their steps are. -/
theorem Form.ofRecord_congr {r s : Record} (shape : Shape) (h : AlikeBut ["steps", "fields"] r s)
    (hr : Shape.ofRecord r = .ok shape) (hs : Shape.ofRecord s = .ok shape)
    (hload : ∀ columns, shape.load r columns = shape.load s columns) :
    Form.ofRecord r = Form.ofRecord s := by
  simp (disch := decide) only [Form.ofRecord, Form.columnsOf, programText, h.get_eq, h.firstOf_eq,
    hr, hs, hload, ok_bind]

end ConditionalForms
