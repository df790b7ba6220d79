import ConditionalForms.Example
import ConditionalForms.Proofs.Document.Reload
import ConditionalForms.Proofs.Number.Numeral

/-!
# Saving and reading a form

A form whose names are distinct and whose numbers are held by doubles is read back from its document
with all that its document can say: everything but the identifiers, the constraints that the kind of
a field does not support and the spelling of the program number.

**Definitions.**
* `Field.HoldsNumbers`: whole numbers up to `2 ^ 53` and finite bounds only.
* `Field.kept`: a field as it comes back.
* `Field.IsRestoredBy`, `Step.IsRestoredBy`, `Form.IsRestoredBy`: what coming back keeps.

**Results.**
* `Field.reload_eq`: a field that holds its numbers comes back.
* `Form.isRestoredBy_of_toDocument`: every saved form is read back.
-/

namespace ConditionalForms

/-- The bound is a whole number up to `2 ^ 53` or a finite double. -/
def Bound.IsHeld : Bound → Prop
  | .int n => n.natAbs ≤ 2 ^ 53
  | .float x => x.isFinite = true

theorem Bound.IsHeld.isExact {b : Bound} (h : b.IsHeld) : b.IsExact := by
  cases b with
  | int n => exact Integer.isExact_of_natAbs_le h
  | float x => exact h

namespace Field

/-- The numbers of the field are whole ones up to `2 ^ 53`, and its bounds may be finite doubles. -/
structure HoldsNumbers (f : Field) : Prop where
  maxLength : ∀ n ∈ f.maxLength, n.natAbs ≤ 2 ^ 53
  minValue : ∀ b ∈ f.minValue, b.IsHeld
  maxValue : ∀ b ∈ f.maxValue, b.IsHeld
  maxFileSize : ∀ n ∈ f.maxFileSize, n.natAbs ≤ 2 ^ 53

/-- The field as it comes back in a grid of some columns: constraints that its kind does not support
are gone, and bounds are in the kind they are read in. -/
def kept (f : Field) (columns : Int) : Field :=
  { f with
    id := f.name
    options := if f.kind.hasOptions then f.options else []
    maxLength := if f.kind.hasMaxLength then f.maxLength else none
    minValue := if f.kind.hasBounds then f.minValue.map Bound.canonical else none
    maxValue := if f.kind.hasBounds then f.maxValue.map Bound.canonical else none
    fileTypes := if f.kind.hasFileLimits then f.fileTypes.filter (· ≠ "") else []
    maxFileSize := if f.kind.hasFileLimits then f.maxFileSize else none
    span := min columns f.span }

/-- A number that a field may not have is missing. -/
theorem wholeBound?_ite {n : Option Int} {c : Bool} (h : ∀ k ∈ n, Integer.IsExact k) :
    (if c then Value.ofInt? n else .null).wholeBound? = .ok (if c then n else none) := by
  cases c with
  | false => rfl
  | true => cases n with
    | none => rfl
    | some k => exact Value.wholeBound?_int (h k rfl)

/-- A bound that a field may not have is missing. -/
theorem bound?_ite {b : Option Bound} {c : Bool} (h : ∀ x ∈ b, x.IsExact) :
    (if c then boundOrNull b else .null).bound? =
      .ok (if c then b.map Bound.canonical else none) := by
  cases c with
  | false => rfl
  | true => cases b with
    | none => rfl
    | some x => exact Bound.bound?_toValue (h x rfl)

theorem reload_eq {f : Field} (h : f.HoldsNumbers) (columns : Int) :
    f.reload columns = .ok (f.kept columns) := by
  rw [reload, wholeBound?_ite fun n hn => Integer.isExact_of_natAbs_le (h.maxLength n hn),
    bound?_ite fun b hb => (h.minValue b hb).isExact,
    bound?_ite fun b hb => (h.maxValue b hb).isExact,
    wholeBound?_ite fun n hn => Integer.isExact_of_natAbs_le (h.maxFileSize n hn)]
  rfl

theorem HoldsNumbers.of_normalize {f g : Field} {columns : Int} {number : Nat}
    (h : f.HoldsNumbers) (hg : f.normalize columns number = .ok g) : g.HoldsNumbers := by
  obtain ⟨span, logic, -, -, rfl⟩ := normalize_eq_ok hg
  exact ⟨h.maxLength, h.minValue, h.maxValue, h.maxFileSize⟩

/-- The second field has everything that a document says about the first one. -/
structure IsRestoredBy (f g : Field) : Prop where
  id : g.id = f.name
  name : g.name = f.name
  label : g.label = f.label
  kind : g.kind = f.kind
  required : g.required = f.required
  helpText : g.helpText = f.helpText
  span : g.span = f.span
  logic : g.logic = f.logic
  options : g.options = if f.kind.hasOptions then f.options else []
  maxLength : g.maxLength = if f.kind.hasMaxLength then f.maxLength else none
  minValue : Option.Rel Bound.SameNumber (if f.kind.hasBounds then f.minValue else none) g.minValue
  maxValue : Option.Rel Bound.SameNumber (if f.kind.hasBounds then f.maxValue else none) g.maxValue
  fileTypes : g.fileTypes = if f.kind.hasFileLimits then f.fileTypes else []
  maxFileSize : g.maxFileSize = if f.kind.hasFileLimits then f.maxFileSize else none

theorem sameNumber_ite {b : Option Bound} {c : Bool} (h : ∀ x ∈ b, x.IsHeld) :
    Option.Rel Bound.SameNumber (if c then b else none)
      (if c then b.map Bound.canonical else none) := by
  cases c with
  | false => exact .none
  | true => cases b with
    | none => exact .none
    | some x => exact .some (Bound.sameNumber_canonical (h x rfl).isExact)

theorem isRestoredBy_kept {f : Field} {columns : Int} (hf : f.IsNormal columns)
    (hnumbers : f.HoldsNumbers) (htypes : "" ∉ f.fileTypes) :
    f.IsRestoredBy (f.kept columns) where
  id := rfl
  name := rfl
  label := rfl
  kind := rfl
  required := rfl
  helpText := rfl
  span := Int.min_eq_right hf.span_le
  logic := rfl
  options := rfl
  maxLength := rfl
  minValue := sameNumber_ite hnumbers.minValue
  maxValue := sameNumber_ite hnumbers.maxValue
  fileTypes := by rw [kept, filter_ne_empty htypes]
  maxFileSize := rfl

end Field

namespace Step

/-- The step as it comes back. -/
def kept (s : Step) : Step :=
  { s with id := s.key, fields := s.fields.map fun f => f.kept s.columns }

theorem reload_eq {s : Step} (h : ∀ f ∈ s.fields, f.HoldsNumbers) : s.reload = .ok s.kept := by
  rw [reload, mapM_eq_map fun f hf => Field.reload_eq (h f hf) s.columns]
  rfl

/-- The second step has everything that a document says about the first one. -/
structure IsRestoredBy (s t : Step) : Prop where
  id : t.id = s.key
  key : t.key = s.key
  title : t.title = s.title
  description : t.description = s.description
  perParticipant : t.perParticipant = s.perParticipant
  columns : t.columns = s.columns
  logic : t.logic = s.logic
  fields : List.Forall₂ Field.IsRestoredBy s.fields t.fields

theorem isRestoredBy_kept {s : Step} (h : s.IsNormal)
    (hfields : ∀ f ∈ s.fields, f.HoldsNumbers ∧ "" ∉ f.fileTypes) : s.IsRestoredBy s.kept where
  id := rfl
  key := rfl
  title := rfl
  description := rfl
  perParticipant := rfl
  columns := rfl
  logic := rfl
  fields := by
    rw [kept, List.forall₂_map_right_iff, List.forall₂_same]
    intro f hf
    obtain ⟨hnumbers, htypes⟩ := hfields f hf
    exact Field.isRestoredBy_kept (h.fields f hf) hnumbers htypes

end Step

namespace Form

/-- The second form has everything that a document says about the first one; its program is the
number of the program of the first one. -/
structure IsRestoredBy (form loaded : Form) : Prop where
  name : loaded.name = form.name
  description : loaded.description = form.description
  columns : loaded.columns = form.columns
  program : ∃ number, programNumber? (.text form.program) = .ok number ∧
    loaded.program = (number.map Integer.decimalText).getD ""
  steps : List.Forall₂ Step.IsRestoredBy form.steps loaded.steps

variable {form normal : Form} {doc : Record}

/-- The document of a form is the one of its normal form. -/
theorem toDocument_eq_ok (hdoc : form.toDocument = .ok doc)
    (hnormal : form.normalize = .ok normal) :
    ∃ program, programNumber? (.text normal.program) = .ok program ∧
      doc = normal.document program := by
  simp only [toDocument, hnormal, ok_bind] at hdoc
  rw [documentOfNormal_eq (isNormal_of_normalize hnormal), map_eq_ok] at hdoc
  obtain ⟨program, hprogram, rfl⟩ := hdoc
  exact ⟨program, hprogram, rfl⟩

/-- A form in normal form is saved as it is. -/
theorem IsNormal.toDocument_eq {program : Option Int} (h : form.IsNormal)
    (hprogram : programNumber? (.text form.program) = .ok program) :
    form.toDocument = .ok (form.document program) := by
  rw [toDocument, h.normalize_eq, ok_bind, documentOfNormal_eq h, hprogram]
  rfl

theorem programNumber?_text (text : String) :
    programNumber? (.text text) = if Text.isNumeral (Text.trim text) then
      some <$> Integer.readNumeral (Text.trim text) else .ok none := by
  by_cases hempty : text = ""
  · subst hempty
    rfl
  · simp [programNumber?, Value.isTruthy, hempty, Value.plainText]
    rfl

/-- A program number was read from a numeral, so that it can be written. -/
theorem programOf_of_programNumber? {text : String} {number : Option Int}
    (h : programNumber? (.text text) = .ok number) :
    programOf number = .ok ((number.map Integer.decimalText).getD "") := by
  rw [programNumber?_text] at h
  split at h
  · obtain ⟨n, hn, rfl⟩ := map_eq_ok.mp h
    exact Integer.write_of_readNumeral hn
  · rw [Except.ok.injEq] at h
    subst h
    rfl

/-- A program number is read back from its text. -/
theorem programNumber?_of_programOf {text : String} {number : Option Int}
    (h : programNumber? (.text text) = .ok number) :
    programNumber? (.text ((number.map Integer.decimalText).getD "")) = .ok number := by
  rw [programNumber?_text] at h
  split at h
  · obtain ⟨n, hn, rfl⟩ := map_eq_ok.mp h
    obtain ⟨k, rfl⟩ := Integer.exists_natCast_of_readNumeral hn
    have htrim : Text.trim (Integer.decimalText k) = Integer.decimalText k :=
      Text.trim_eq_self fun c hc =>
        Name.isBlank_of_isSlugChar (Name.isSlugChar_of_mem_decimalText hc)
    rw [Option.map_some, Option.getD_some, programNumber?_text, htrim,
      if_pos (Integer.isNumeral_decimalText k),
      Integer.readNumeral_of_write (Integer.write_of_readNumeral hn)]
    rfl
  · rw [Except.ok.injEq] at h
    subst h
    rfl

/-- A form in normal form that holds its numbers comes back. -/
theorem reload_eq {program : Option Int} (hnumbers : ∀ f ∈ form.fields, f.HoldsNumbers)
    (hprogram : programNumber? (.text form.program) = .ok program) :
    form.reload program = .ok { form with
      program := (program.map Integer.decimalText).getD ""
      steps := form.steps.map Step.kept } := by
  have hsteps : form.steps.mapM Step.reload = .ok (form.steps.map Step.kept) := by
    refine mapM_eq_map fun s hs => Step.reload_eq fun f hf => ?_
    exact hnumbers f (mem_fields hs hf)
  rw [reload, hsteps, ok_bind, programOf_of_programNumber? hprogram]
  rfl

/-- Every form that can be saved is read back from its document with all that its normal form holds,
as long as the names of its fields are distinct, its numbers are held by doubles and no file type is
empty. -/
theorem isRestoredBy_of_toDocument (hdoc : form.toDocument = .ok doc)
    (hnormal : form.normalize = .ok normal) (hnames : normal.fieldNames.Nodup)
    (hnumbers : ∀ f ∈ form.fields, f.HoldsNumbers)
    (htypes : ∀ f ∈ form.fields, "" ∉ f.fileTypes) :
    ∃ loaded, ofDocument (.object doc) = .ok loaded ∧ normal.IsRestoredBy loaded.value := by
  have hn : normal.IsNormal := isNormal_of_normalize hnormal
  obtain ⟨program, hprogram, rfl⟩ := toDocument_eq_ok hdoc hnormal
  have hfields : ∀ g ∈ normal.fields, g.HoldsNumbers ∧ "" ∉ g.fileTypes := by
    intro g hg
    obtain ⟨f, hf, columns, number, hfg⟩ := exists_field_of_normalize hnormal hg
    refine ⟨(hnumbers f hf).of_normalize hfg, ?_⟩
    obtain ⟨span, logic, -, -, rfl⟩ := Field.normalize_eq_ok hfg
    exact htypes f hf
  have hloaded := ofDocument_document hn hnames program
  rw [reload_eq (fun f hf => (hfields f hf).1) hprogram, map_eq_ok] at hloaded
  obtain ⟨loaded, hload, hvalue⟩ := hloaded
  refine ⟨loaded, hload, ?_⟩
  rw [hvalue]
  refine ⟨rfl, rfl, rfl, ⟨program, hprogram, rfl⟩, ?_⟩
  rw [List.forall₂_map_right_iff, List.forall₂_same]
  intro s hs
  refine Step.isRestoredBy_kept (hn.steps s hs) fun f hf => ?_
  exact hfields f (mem_fields hs hf)

/-- A form about transport, whose second step has no fields yet.  Its program has leading zeros, its
first field a limit that selections do not have, and its second field a bound that is whole. -/
def travel : Form :=
  { name := "Travel", description := "How the children come", program := "007", columns := 2
    steps :=
      [{ Example.transportStep 2 with
          fields :=
            [{ Field.plain "f-pickup" "pickup-point" "Pickup point" with
                kind := .select, options := ["North gate", "Station"], required := true,
                maxLength := some 15, span := 2 },
             { Field.plain "f-seats" "seats" "Seats needed" with
                kind := .number, minValue := some (.float Double.one), maxValue := some (.int 6),
                span := 1 }] },
       { Example.consentStep with fields := [] }] }

theorem normalize_travel : travel.normalize = .ok travel := rfl

theorem isNormal_travel : travel.IsNormal := isNormal_of_normalize normalize_travel

theorem holdsNumbers_travel : ∀ f ∈ travel.fields, f.HoldsNumbers := by
  intro f hf
  rcases List.mem_cons.mp hf with rfl | hf
  · refine ⟨?_, nofun, nofun, nofun⟩
    rintro _ ⟨⟩
    show Int.natAbs 15 ≤ 2 ^ 53
    omega
  · obtain rfl := List.mem_singleton.mp hf
    refine ⟨nofun, ?_, ?_, nofun⟩
    · rintro _ ⟨⟩
      rfl
    · rintro _ ⟨⟩
      show Int.natAbs 6 ≤ 2 ^ 53
      omega

theorem programNumber?_travel : programNumber? (.text travel.program) = .ok (some 7) := rfl

theorem toDocument_travel : travel.toDocument = .ok (travel.document (some 7)) :=
  isNormal_travel.toDocument_eq programNumber?_travel

theorem isRestoredBy_travel :
    travel.toDocument = .ok (travel.document (some 7)) ∧
      ∃ loaded, ofDocument (.object (travel.document (some 7))) = .ok loaded ∧
        travel.IsRestoredBy loaded.value :=
  ⟨toDocument_travel, isRestoredBy_of_toDocument toDocument_travel isNormal_travel.normalize_eq
    (by decide) holdsNumbers_travel (by decide)⟩

end Form

end ConditionalForms
