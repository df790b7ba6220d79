import ConditionalForms.Proofs.Contract
import ConditionalForms.Proofs.Document.RoundTrip

/-!
# What comes back of the constraints

The constraints of a field are saved as they are.  Numbers among them are read through doubles and
come back rounded, or keep the document from being read when they are beyond the doubles; empty file
types are not read.  So the constraints of a form survive exactly if their numbers are exact and no
file type is empty.

**Definitions.**
* `Field.HasWholeNumbers`: the bounds of a field are integers.
* `Field.Saves`: a number that a document holds among the constraints of a field.
* `Field.ComesBackAs`: a field and what comes back of its constraints.
* `Field.SameConstraints`: two fields that agree on the constraints that the first one supports.
* `Field.IsExactlySaved`: nothing of the constraints of a field is rounded or left out.

**Results.**
* `Value.contract_bound?`, `Field.contract_reload`, `Form.contract_reload`: what comes back, or why
  nothing does.
* `Field.ComesBackAs.same_iff`: which fields come back with the same constraints.
* `Form.constraints_of_toDocument`: what becomes of the constraints of a saved form.
-/

namespace ConditionalForms

open Integer (IsExact RoundsTo toDouble)

/-- The number of the second bound is what the number of the first one is rounded to. -/
inductive Bound.RoundsTo : Bound → Bound → Prop
  | int {n m : Int} (h : Integer.RoundsTo n m) : Bound.RoundsTo (.int n) (.int m)

/-- A limit that is rounded stays the same exactly if it is exact. -/
theorem limit_eq_iff {n m : Option Int} (h : Option.Rel RoundsTo n m) :
    m = n ↔ ∀ k, n = some k → IsExact k := by
  cases h with
  | none => simp
  | some hk => simpa using hk.eq_iff_isExact

/-- A bound that is rounded stays the same exactly if it is exact. -/
theorem bound_eq_iff {a b : Option Bound} (h : Option.Rel Bound.RoundsTo a b) :
    b = a ↔ ∀ k, a = some (.int k) → IsExact k := by
  cases h with
  | none => simp
  | some hk => cases hk with
    | int hk => simpa using hk.eq_iff_isExact

namespace Value

/-- A whole constraint is read as the value of the nearest double, or it is beyond the doubles. -/
theorem contract_bound? (n : Int) :
    Contract (fun e => toDouble n = .error e) (fun b => ∃ m, RoundsTo n m ∧ b = some (.int m))
      (Value.int n).bound? := by
  rcases Integer.roundsTo_or_beyond n with ⟨m, hm⟩ | hbeyond
  · rw [bound?_of_roundsTo hm]
    exact ⟨m, hm, rfl⟩
  · rw [bound?_of_beyond hbeyond]
    exact hbeyond

theorem contract_wholeBound? (n : Int) :
    Contract (fun e => toDouble n = .error e) (fun k => ∃ m, RoundsTo n m ∧ k = some m)
      (Value.int n).wholeBound? := by
  refine (contract_bound? n).bind ?_
  rintro _ ⟨m, hm, rfl⟩
  exact .pure ⟨m, hm, rfl⟩

end Value

/-- Reading back a limit that a field may have. -/
theorem contract_limit (c : Bool) (n : Option Int) :
    Contract (fun e => c = true ∧ ∃ k, n = some k ∧ toDouble k = .error e)
      (fun m => c = true → Option.Rel RoundsTo n m)
      (if c then Value.ofInt? n else .null).wholeBound? := by
  cases c with
  | false => exact nofun
  | true => cases n with
    | none => exact fun _ => .none
    | some k =>
        refine ((Value.contract_wholeBound? k).mono fun e he => ⟨rfl, k, rfl, he⟩).imp ?_
        rintro _ ⟨m, hm, rfl⟩ -
        exact .some hm

/-- Reading back a bound that a field may have. -/
theorem contract_bound (c : Bool) {b : Option Bound} (hb : ∀ x, b ≠ some (.float x)) :
    Contract (fun e => c = true ∧ ∃ k, b = some (.int k) ∧ toDouble k = .error e)
      (fun d => c = true → Option.Rel Bound.RoundsTo b d)
      (if c then boundOrNull b else .null).bound? := by
  cases c with
  | false => exact nofun
  | true => cases b with
    | none => exact fun _ => .none
    | some x => cases x with
      | float x => exact absurd rfl (hb x)
      | int k =>
          refine ((Value.contract_bound? k).mono fun e he => ⟨rfl, k, rfl, he⟩).imp ?_
          rintro _ ⟨m, hm, rfl⟩ -
          exact .some (.int hm)

namespace Field

variable {f g : Field}

/-- The bounds of the field are missing or integers, of any size. -/
structure HasWholeNumbers (f : Field) : Prop where
  minValue : ∀ x, f.minValue ≠ some (.float x)
  maxValue : ∀ x, f.maxValue ≠ some (.float x)

/-- The number is a constraint of the field that its kind supports. -/
inductive Saves (f : Field) (n : Int) : Prop
  | maxLength (supported : f.kind.hasMaxLength = true) (h : f.maxLength = some n)
  | minValue (supported : f.kind.hasBounds = true) (h : f.minValue = some (.int n))
  | maxValue (supported : f.kind.hasBounds = true) (h : f.maxValue = some (.int n))
  | maxFileSize (supported : f.kind.hasFileLimits = true) (h : f.maxFileSize = some n)

/-- A constraint of the field is a number that is not read. -/
def Overflows (f : Field) (e : Fault) : Prop := ∃ n, f.Saves n ∧ toDouble n = .error e

/-- The second field is the first one with its constraints as they come back, as far as its kind
supports them: numbers are rounded and empty file types are left out. -/
structure ComesBackAs (f g : Field) : Prop where
  name : g.name = f.name
  kind : g.kind = f.kind
  options : f.kind.hasOptions = true → g.options = f.options
  maxLength : f.kind.hasMaxLength = true → Option.Rel RoundsTo f.maxLength g.maxLength
  minValue : f.kind.hasBounds = true → Option.Rel Bound.RoundsTo f.minValue g.minValue
  maxValue : f.kind.hasBounds = true → Option.Rel Bound.RoundsTo f.maxValue g.maxValue
  fileTypes : f.kind.hasFileLimits = true → g.fileTypes = f.fileTypes.filter (· ≠ "")
  maxFileSize : f.kind.hasFileLimits = true → Option.Rel RoundsTo f.maxFileSize g.maxFileSize

/-- The second field has the constraints of the first one that its kind supports. -/
structure SameConstraints (f g : Field) : Prop where
  options : f.kind.hasOptions = true → g.options = f.options
  maxLength : f.kind.hasMaxLength = true → g.maxLength = f.maxLength
  minValue : f.kind.hasBounds = true → g.minValue = f.minValue
  maxValue : f.kind.hasBounds = true → g.maxValue = f.maxValue
  fileTypes : f.kind.hasFileLimits = true → g.fileTypes = f.fileTypes
  maxFileSize : f.kind.hasFileLimits = true → g.maxFileSize = f.maxFileSize

/-- The numbers that are saved are exact, and so are the file types. -/
structure IsExactlySaved (f : Field) : Prop where
  numbers : ∀ n, f.Saves n → IsExact n
  fileTypes : f.kind.hasFileLimits = true → "" ∉ f.fileTypes

theorem contract_reload (h : f.HasWholeNumbers) (columns : Int) :
    Contract f.Overflows f.ComesBackAs (f.reload columns) := by
  have hlength := contract_limit f.kind.hasMaxLength f.maxLength
  have hmin := contract_bound f.kind.hasBounds h.minValue
  have hmax := contract_bound f.kind.hasBounds h.maxValue
  have hsize := contract_limit f.kind.hasFileLimits f.maxFileSize
  rw [reload]
  refine (hlength.mono ?_).bind fun maxLength hlength => ?_
  · rintro e ⟨supported, n, hn, he⟩
    exact ⟨n, .maxLength supported hn, he⟩
  refine (hmin.mono ?_).bind fun minValue hmin => ?_
  · rintro e ⟨supported, n, hn, he⟩
    exact ⟨n, .minValue supported hn, he⟩
  refine (hmax.mono ?_).bind fun maxValue hmax => ?_
  · rintro e ⟨supported, n, hn, he⟩
    exact ⟨n, .maxValue supported hn, he⟩
  refine (hsize.mono ?_).bind fun maxFileSize hsize => ?_
  · rintro e ⟨supported, n, hn, he⟩
    exact ⟨n, .maxFileSize supported hn, he⟩
  exact .pure {
    name := rfl
    kind := rfl
    options := fun supported => if_pos supported
    maxLength := hlength
    minValue := hmin
    maxValue := hmax
    fileTypes := fun supported => if_pos supported
    maxFileSize := hsize }

/-- All numbers of a field that comes back are in range. -/
theorem ComesBackAs.exists_roundsTo {n : Int} (h : f.ComesBackAs g) (hn : f.Saves n) :
    ∃ m, RoundsTo n m := by
  have hlimit : ∀ {v w : Option Int}, Option.Rel RoundsTo v w → v = some n → ∃ m, RoundsTo n m := by
    rintro _ _ (⟨hm⟩ | _) ⟨⟩
    exact ⟨_, hm⟩
  have hbound : ∀ {v w : Option Bound}, Option.Rel Bound.RoundsTo v w → v = some (.int n) →
      ∃ m, RoundsTo n m := by
    rintro _ _ (⟨⟨hm⟩⟩ | _) ⟨⟩
    exact ⟨_, hm⟩
  cases hn with
  | maxLength supported hv => exact hlimit (h.maxLength supported) hv
  | minValue supported hv => exact hbound (h.minValue supported) hv
  | maxValue supported hv => exact hbound (h.maxValue supported) hv
  | maxFileSize supported hv => exact hlimit (h.maxFileSize supported) hv

theorem ComesBackAs.isExactlySaved (h : f.ComesBackAs g) (hsame : f.SameConstraints g) :
    f.IsExactlySaved where
  numbers n hn := by
    cases hn with
    | maxLength supported hv =>
        exact (limit_eq_iff (h.maxLength supported)).mp (hsame.maxLength supported) n hv
    | minValue supported hv =>
        exact (bound_eq_iff (h.minValue supported)).mp (hsame.minValue supported) n hv
    | maxValue supported hv =>
        exact (bound_eq_iff (h.maxValue supported)).mp (hsame.maxValue supported) n hv
    | maxFileSize supported hv =>
        exact (limit_eq_iff (h.maxFileSize supported)).mp (hsame.maxFileSize supported) n hv
  fileTypes supported := by
    rw [← hsame.fileTypes supported, h.fileTypes supported]
    simp

theorem ComesBackAs.sameConstraints (h : f.ComesBackAs g) (hexact : f.IsExactlySaved) :
    f.SameConstraints g where
  options := h.options
  maxLength supported := (limit_eq_iff (h.maxLength supported)).mpr fun n hn =>
    hexact.numbers n (.maxLength supported hn)
  minValue supported := (bound_eq_iff (h.minValue supported)).mpr fun n hn =>
    hexact.numbers n (.minValue supported hn)
  maxValue supported := (bound_eq_iff (h.maxValue supported)).mpr fun n hn =>
    hexact.numbers n (.maxValue supported hn)
  fileTypes supported :=
    (h.fileTypes supported).trans (filter_ne_empty (hexact.fileTypes supported))
  maxFileSize supported := (limit_eq_iff (h.maxFileSize supported)).mpr fun n hn =>
    hexact.numbers n (.maxFileSize supported hn)

/-- A field comes back with the same constraints exactly if they are exactly saved. -/
theorem ComesBackAs.same_iff (h : f.ComesBackAs g) : f.SameConstraints g ↔ f.IsExactlySaved :=
  ⟨h.isExactlySaved, h.sameConstraints⟩

end Field

theorem Step.contract_reload {s : Step} (h : ∀ f ∈ s.fields, f.HasWholeNumbers) :
    Contract (fun e => ∃ f ∈ s.fields, f.Overflows e)
      (fun t => List.Forall₂ Field.ComesBackAs s.fields t.fields) s.reload := by
  have hfields := contract_forall₂_mapM fun f hf => Field.contract_reload (h f hf) s.columns
  exact hfields.bind fun fields hfields => .pure hfields

namespace Form

variable {form normal : Form} {doc : Record}

theorem contract_reload {program : Option Int} (h : ∀ f ∈ form.fields, f.HasWholeNumbers)
    (hprogram : programNumber? (.text form.program) = .ok program) :
    Contract (fun e => ∃ f ∈ form.fields, f.Overflows e)
      (fun loaded => List.Forall₂ Field.ComesBackAs form.fields loaded.fields)
      (form.reload program) := by
  have hsteps := contract_forall₂_mapM fun s hs =>
    Step.contract_reload fun f hf => h f (mem_fields hs hf)
  rw [reload, programOf_of_programNumber? hprogram]
  refine (hsteps.mono ?_).bind fun steps hsteps => .pure ?_
  · rintro e ⟨s, hs, f, hf, he⟩
    exact ⟨f, mem_fields hs hf, he⟩
  · exact List.rel_flatMap hsteps fun _ _ hst => hst

/-- What is read from the document of a form in normal form. -/
theorem IsNormal.contract_ofDocument {program : Option Int} (h : form.IsNormal)
    (hnames : form.fieldNames.Nodup) (hwhole : ∀ f ∈ form.fields, f.HasWholeNumbers)
    (hprogram : programNumber? (.text form.program) = .ok program) :
    Contract (fun e => ∃ f ∈ form.fields, f.Overflows e)
      (fun loaded => List.Forall₂ Field.ComesBackAs form.fields loaded.value.fields)
      (ofDocument (.object (form.document program))) := by
  have hreload := contract_reload hwhole hprogram
  rw [← ofDocument_document h hnames program] at hreload
  exact hreload.of_map

/-- The document of a form with distinct names and whole numbers is read back with every number
rounded, which moves it by at most one part in `2 ^ 53`, and every empty file type left out, or it
is not read because of a number beyond the doubles.  So all constraints are the same as before
exactly if they are exactly saved. -/
theorem constraints_of_toDocument (hdoc : form.toDocument = .ok doc)
    (hnormal : form.normalize = .ok normal) (hnames : normal.fieldNames.Nodup)
    (hwhole : ∀ f ∈ form.fields, f.HasWholeNumbers) :
    (∃ loaded, ofDocument (.object doc) = .ok loaded ∧
      (∀ f ∈ normal.fields, ∀ n, f.Saves n →
        ∃ m, RoundsTo n m ∧ 2 ^ 53 * (m - n).natAbs ≤ n.natAbs) ∧
      List.Forall₂ Field.ComesBackAs normal.fields loaded.value.fields ∧
      (List.Forall₂ Field.SameConstraints normal.fields loaded.value.fields ↔
        ∀ f ∈ normal.fields, f.IsExactlySaved)) ∨
    (ofDocument (.object doc) = .error .integerBeyondDouble ∧
      ∃ f ∈ normal.fields, ∃ n, f.Saves n ∧ toDouble n = .error .integerBeyondDouble) := by
  obtain ⟨program, hprogram, rfl⟩ := toDocument_eq_ok hdoc hnormal
  have hfields : ∀ g ∈ normal.fields, g.HasWholeNumbers := by
    intro g hg
    obtain ⟨f, hf, columns, number, hfg⟩ := exists_field_of_normalize hnormal hg
    obtain ⟨span, logic, -, -, rfl⟩ := Field.normalize_eq_ok hfg
    exact ⟨(hwhole f hf).minValue, (hwhole f hf).maxValue⟩
  have hread := (isNormal_of_normalize hnormal).contract_ofDocument hnames hfields hprogram
  rcases hread.cases_eq with ⟨loaded, hload, hback⟩ | ⟨e, hfault, f, hf, n, hsaves, hbeyond⟩
  · refine Or.inl ⟨loaded, hload, ?_, hback, ?_⟩
    · intro f hf n hsaves
      obtain ⟨g, -, hfg⟩ := exists_right_of_forall₂ hback hf
      obtain ⟨m, hm⟩ := hfg.exists_roundsTo hsaves
      exact ⟨m, hm, hm.error_le⟩
    · exact forall₂_iff_of_forall₂ hback fun _ _ hfg => hfg.same_iff
  · obtain rfl := Integer.toDouble_eq_error hbeyond
    exact Or.inr ⟨hfault, f, hf, n, hsaves, hbeyond⟩

/-- The field of `essayForm` for the essay, whose limit lies between two doubles. -/
def essayField : Field :=
  { Field.plain "essay" "essay" "Essay" with
    kind := .textarea, maxLength := some 9007199254740993, span := 1 }

/-- The field of `essayForm` for a scan, with an empty file type. -/
def scanField : Field :=
  { Field.plain "scan" "scan" "Scan" with kind := .file, fileTypes := ["pdf", ""], span := 1 }

/-- A form for an essay and a scan of it. -/
def essayForm : Form :=
  { name := "Essay", description := "", program := "7", columns := 1
    steps :=
      [{ id := "s1", key := "s1", title := "Essay", description := "", perParticipant := false
         columns := 1, logic := none, fields := [essayField, scanField] }] }

theorem normalize_essayForm : essayForm.normalize = .ok essayForm := rfl

theorem toDocument_essayForm : essayForm.toDocument = .ok (essayForm.document (some 7)) :=
  (isNormal_of_normalize normalize_essayForm).toDocument_eq rfl

theorem hasWholeNumbers_essayForm : ∀ f ∈ essayForm.fields, f.HasWholeNumbers := by
  intro f hf
  rcases List.mem_cons.mp hf with rfl | hf
  · exact ⟨nofun, nofun⟩
  · obtain rfl := List.mem_singleton.mp hf
    exact ⟨nofun, nofun⟩

theorem roundsTo_essayLimit : RoundsTo 9007199254740993 9007199254740992 :=
  ⟨.finite false ⟨1076 * blockSize, by decide⟩, rfl, rfl⟩

theorem not_isExactlySaved_essayField : ¬ essayField.IsExactlySaved := by
  intro h
  have hexact := h.numbers 9007199254740993 (.maxLength rfl rfl)
  exact absurd (roundsTo_essayLimit.eq_iff_isExact.mpr hexact) (by decide)

/-- The limit of the essay comes back one less, and the form is otherwise read. -/
theorem constraints_essayForm :
    essayForm.toDocument = .ok (essayForm.document (some 7)) ∧
      essayForm.normalize = .ok essayForm ∧ essayForm.fieldNames.Nodup ∧
      (∀ f ∈ essayForm.fields, f.HasWholeNumbers) ∧
      ∃ loaded, ofDocument (.object (essayForm.document (some 7))) = .ok loaded ∧
        List.Forall₂ Field.ComesBackAs essayForm.fields loaded.value.fields ∧
        ¬ List.Forall₂ Field.SameConstraints essayForm.fields loaded.value.fields := by
  have hnames : essayForm.fieldNames.Nodup := by decide
  refine ⟨toDocument_essayForm, normalize_essayForm, hnames, hasWholeNumbers_essayForm, ?_⟩
  rcases constraints_of_toDocument toDocument_essayForm normalize_essayForm hnames
    hasWholeNumbers_essayForm with
    ⟨loaded, hload, -, hback, hsame⟩ | ⟨-, f, hf, n, hsaves, hbeyond⟩
  · refine ⟨loaded, hload, hback, ?_⟩
    rw [hsame]
    intro hexact
    exact not_isExactlySaved_essayField (hexact essayField List.mem_cons_self)
  · -- the only number that is saved is in range
    obtain ⟨x, hx, -⟩ := roundsTo_essayLimit
    rcases List.mem_cons.mp hf with rfl | hf
    · rcases hsaves with ⟨-, ⟨⟩⟩ | ⟨-, ⟨⟩⟩ | ⟨-, ⟨⟩⟩ | ⟨-, ⟨⟩⟩
      rw [hx] at hbeyond
      nomatch hbeyond
    · obtain rfl := List.mem_singleton.mp hf
      rcases hsaves with ⟨-, ⟨⟩⟩ | ⟨-, ⟨⟩⟩ | ⟨-, ⟨⟩⟩ | ⟨-, ⟨⟩⟩

/-- Constraints do not survive in general. -/
theorem not_forall_constraints_kept :
    ¬ ∀ (form normal : Form) (doc : Record), form.toDocument = .ok doc →
      form.normalize = .ok normal → normal.fieldNames.Nodup →
      (∀ f ∈ form.fields, f.HasWholeNumbers) →
      ∃ loaded, ofDocument (.object doc) = .ok loaded ∧
        List.Forall₂ Field.SameConstraints normal.fields loaded.value.fields := by
  intro h
  have hnames : essayForm.fieldNames.Nodup := by decide
  obtain ⟨loaded, hload, hsame⟩ := h essayForm essayForm _ toDocument_essayForm
    normalize_essayForm hnames hasWholeNumbers_essayForm
  have hnormal := isNormal_of_normalize normalize_essayForm
  have hback := (hnormal.contract_ofDocument hnames hasWholeNumbers_essayForm rfl).of_ok hload
  have hexact := (forall₂_iff_of_forall₂ hback fun _ _ hfg => hfg.same_iff).mp hsame
  exact not_isExactlySaved_essayField (hexact essayField List.mem_cons_self)

end Form

end ConditionalForms
