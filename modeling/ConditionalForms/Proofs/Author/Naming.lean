import ConditionalForms.Proofs.Author.Loss
import ConditionalForms.Proofs.Contract
import ConditionalForms.Proofs.Form.Derived
import ConditionalForms.Proofs.Number.Nearest

/-!
# Names under new labels

A name that was derived from a label is to follow the label, and a name that an author typed is to
stay.  Forms do not keep which of both a name is, so with every new label the name is taken for what
it looks like under the label before.  A derived name is left behind by its label if it is a
placeholder with two numbers; a typed one is lost as soon as it looks derived from a label that the
field has meanwhile.

**Definitions.**
* `Form.HoldsAt`: the step and the field at two positions.
* `Name.under`, `Name.underAll`: the name of a field after new labels.
* `Form.relabel`: a form in which a field gets several labels in turn.
* `Form.Types`: an author types the name of a field.

**Results.**
* `Form.HoldsAt.changeLabel`: what one new label changes.
* `Form.HoldsAt.relabel`: what several of them come to.
* `Form.added_name_under_label`: the derived name of a new field after another label.
* `Form.Types.name_under_labels`: a typed name after other labels.
-/

namespace ConditionalForms

open Integer (toDouble)

namespace Name

variable (derive : String → String)

/-- The name of a field under another label: the name that this label gives if the name looks
derived from the label before. -/
def under (name label other : String) : String :=
  if LooksDerived name label then derive other else name

/-- The name of a field under several labels in turn. -/
def underAll (name : String) : String → List String → String
  | _, [] => name
  | label, other :: labels => underAll (under derive name label other) other labels

variable {derive} {name label : String}

theorem isSlug_under (hname : IsSlug name) (hderive : ∀ l, IsSlug (derive l)) {other : String} :
    IsSlug (under derive name label other) := by
  unfold under
  split
  · exact hderive other
  · exact hname

/-- A name that does not look derived from any label but the last one stays. -/
theorem underAll_eq_self {labels : List String}
    (h : ∀ l ∈ (label :: labels).dropLast, ¬ LooksDerived name l) :
    underAll derive name label labels = name := by
  induction labels generalizing label with
  | nil => rfl
  | cons other labels ih =>
      rw [List.dropLast_cons_cons, List.forall_mem_cons] at h
      rw [underAll, under, if_neg h.1]
      exact ih h.2

end Name

/-- The name among some changes, empty if there is none. -/
def FieldChange.typed (changes : List FieldChange) : String :=
  ((lastOf? FieldChange.name? changes).getD none).getD ""

theorem refuseUnknown_eq_ok {subject : Subject} {names : List String}
    (h : refuseUnknown subject names = .ok ()) : names = [] := by
  unfold refuseUnknown at h
  split at h
  · rwa [List.isEmpty_iff] at *
  · cases h

theorem Field.name_foldl_apply (changes : List FieldChange) (f : Field) :
    (changes.foldl FieldChange.apply f).name = f.name := by
  induction changes generalizing f with
  | nil => rfl
  | cons c changes ih =>
      have hone : (c.apply f).name = f.name := by cases c <;> rfl
      rw [List.foldl_cons, ih, hone]

/-- The attributes that a new field takes leave its label as it is. -/
theorem Field.label_foldl_apply {changes : List FieldChange}
    (h : changes.filterMap FieldChange.unknownToNew? = []) (f : Field) :
    (changes.foldl FieldChange.apply f).label = f.label := by
  induction changes generalizing f with
  | nil => rfl
  | cons c changes ih =>
      rw [List.filterMap_eq_nil_iff, List.forall_mem_cons] at h
      have hone : (c.apply f).label = f.label := by
        cases c with
        | label s => simp [FieldChange.unknownToNew?] at h
        | _ => rfl
      rw [List.foldl_cons, ih (List.filterMap_eq_nil_iff.mpr h.2), hone]

/-- A span is brought into a grid unless it is beyond the doubles.  What it comes to is not, but for
the width of the grid itself. -/
theorem Grid.contract_span (n columns : Int) :
    Contract (fun e => toDouble n = .error e)
      (fun span => span = columns ∨ ∃ x, toDouble span = .ok x) (Grid.span (.int n) columns) := by
  obtain ⟨one, hone, -⟩ := Integer.isExact_of_natAbs_le (n := 1) (by decide)
  cases h : toDouble n with
  | error e =>
      have herror : Grid.span (.int n) columns = .error e := by
        simp [Grid.span, Value.extent, Value.double?, h, bind, Except.bind]
      rw [herror]
      exact rfl
  | ok x =>
      obtain ⟨m, hm, -⟩ := Integer.toDouble_eq_ok h
      obtain ⟨y, hy, -⟩ := Integer.isExact_of_integer? hm
      have hspan : Grid.span (.int n) columns =
          .ok (if 0 < m then min columns (max 1 m) else max 1 columns) := by
        by_cases hpos : 0 < m <;>
          simp [Grid.span, Value.extent, Value.double?, h, Grid.wholeColumns?_of_integer? hm, hpos]
      rw [hspan]
      show _ = columns ∨ _
      have hcases : (if 0 < m then min columns (max 1 m) else max 1 columns) ∈ [columns, m, 1] := by
        simp only [List.mem_cons, List.not_mem_nil, or_false]
        split <;> omega
      generalize (if 0 < m then min columns (max 1 m) else max 1 columns) = span at hcases ⊢
      simp only [List.mem_cons, List.not_mem_nil, or_false] at hcases
      rcases hcases with rfl | rfl | rfl
      · exact Or.inl rfl
      · exact Or.inr ⟨y, hy⟩
      · exact Or.inr ⟨one, hone⟩

namespace Form

variable {form new : Form} {index field : Int} {i j : Nat} {s t : Step} {f g : Field}

/-- The step and the field that an author points at with their positions. -/
structure HoldsAt (form : Form) (index field : Int) (s : Step) (f : Field) : Prop where
  step_found : itemAt? form.steps index = some s
  field_found : itemAt? s.fields field = some f

/-- The form with another field at a position of a step. -/
def putField (form : Form) (index field : Int) (s : Step) (f : Field) : Form :=
  form.putStep index.toNat { s with fields := s.fields.set field.toNat f }

theorem putStep_putStep (form : Form) (i : Nat) (s t : Step) :
    (form.putStep i s).putStep i t = form.putStep i t := by
  simp [putStep]

theorem getElem?_putStep (h : form.steps[i]? = some s) (t : Step) :
    (form.putStep i t).steps[i]? = some t := by
  obtain ⟨hi, -⟩ := List.getElem?_eq_some_iff.mp h
  exact List.getElem?_set_self hi

theorem putStep_self (h : form.steps[i]? = some s) : form.putStep i s = form := by
  obtain ⟨hi, rfl⟩ := List.getElem?_eq_some_iff.mp h
  simp [putStep]

/-- As many fields in a step make as many in the form. -/
theorem length_fields_putStep (h : form.steps[i]? = some s)
    (hlength : t.fields.length = s.fields.length) :
    (form.putStep i t).fields.length = form.fields.length := by
  have hbefore := (fieldNames_perm h).length_eq
  have hafter := (fieldNames_putStep_perm h t).length_eq
  simp only [fieldNames, Step.names, List.length_append, List.length_map] at hbefore hafter
  omega

theorem derivedName_congr (h : new.fields.length = form.fields.length) :
    new.derivedName = form.derivedName := by
  funext label taken
  rw [derivedName, derivedName, h]

namespace HoldsAt

theorem getElem?_steps (h : form.HoldsAt index field s f) : form.steps[index.toNat]? = some s :=
  getElem?_of_itemAt? h.step_found

theorem putField (h : form.HoldsAt index field s f) (g : Field) :
    (form.putField index field s g).HoldsAt index field
      { s with fields := s.fields.set field.toNat g } g :=
  ⟨itemAt?_set h.step_found _, itemAt?_set h.field_found _⟩

theorem otherNames_putField (h : form.HoldsAt index field s f) (g : Field) :
    (form.putField index field s g).otherNames index.toNat field.toNat =
      form.otherNames index.toNat field.toNat := by
  rw [otherNames_eq (h.putField g).getElem?_steps, otherNames_eq h.getElem?_steps, Form.putField,
    putStep_putStep, List.eraseIdx_set_eq]

theorem length_fields_putField (h : form.HoldsAt index field s f) (g : Field) :
    (form.putField index field s g).fields.length = form.fields.length :=
  length_fields_putStep h.getElem?_steps (List.length_set ..)

end HoldsAt

/-- The name that a label gives the field at two positions. -/
def nameFor (form : Form) (index field : Int) (label : String) : String :=
  form.derivedName label (form.otherNames index.toNat field.toNat)

theorem isSlug_nameFor (form : Form) (index field : Int) (label : String) :
    Name.IsSlug (form.nameFor index field label) :=
  isSlug_derivedName label _ form

theorem HoldsAt.nameFor_putField (h : form.HoldsAt index field s f) (g : Field) :
    (form.putField index field s g).nameFor index field = form.nameFor index field := by
  funext label
  rw [nameFor, h.otherNames_putField g, derivedName_congr (h.length_fields_putField g), nameFor]

/-- Gives a field several labels in turn. -/
def relabel (form : Form) (index field : Int) : List String → Except Fault Form
  | [] => .ok form
  | label :: labels => do
      let new ← form.changeField index field [.label label]
      new.relabel index field labels

namespace HoldsAt

variable (h : form.HoldsAt index field s f) (hslug : Name.IsSlug f.name)

include h hslug

/-- What one new label changes. -/
theorem changeLabel (label : String) :
    form.changeField index field [.label label] = do
      let span ← Grid.span (.int f.span) s.columns
      let name := Name.under (form.nameFor index field) f.name f.label label
      return form.putField index field s { f with label := label, name := name, span := span } := by
  have hat : form.stepAt index = .ok (index.toNat, s) := stepAt_eq_ok_iff.mpr ⟨rfl, h.step_found⟩
  have hfield : fieldAt s field = .ok (field.toNat, f) :=
    fieldAt_eq_ok_iff.mpr ⟨rfl, h.field_found⟩
  have hname : form.nameAfter f { f with label := label } [.label label]
      (form.otherNames index.toNat field.toNat) =
        Name.under (form.nameFor index field) f.name f.label label := by
    by_cases hderived : Name.isDerived f.name f.label = true
    · rw [Name.under, if_pos ((Name.isDerived_iff hslug).mp hderived)]
      simp [nameAfter, lastOf?, FieldChange.name?, FieldChange.label?, hderived, nameFor]
    · rw [Name.under, if_neg (mt (Name.isDerived_iff hslug).mpr hderived)]
      simp [nameAfter, lastOf?, FieldChange.name?, FieldChange.label?, hderived]
  rw [← hname]
  simp only [changeField, hat, hfield, ok_bind]
  rfl

/-- A new label is given unless the span of the field is beyond the doubles. -/
theorem contract_changeLabel (label : String) :
    Contract (fun e => toDouble f.span = .error e)
      (fun new => ∃ span, (span = s.columns ∨ ∃ x, toDouble span = .ok x) ∧
        new = form.putField index field s { f with
          label := label, span := span,
          name := Name.under (form.nameFor index field) f.name f.label label })
      (form.changeField index field [.label label]) := by
  rw [h.changeLabel hslug label]
  exact (Grid.contract_span f.span s.columns).bind fun span hspan => .pure ⟨span, hspan, rfl⟩

/-- Several labels in turn leave the field with the last of them, and with the name that it has
under them. -/
theorem relabel (labels : List String) :
    Contract (fun e => ∃ n, (n = f.span ∨ n = s.columns) ∧ toDouble n = .error e)
      (fun last => ∃ t g, last.HoldsAt index field t g ∧ g.label = labels.getLastD f.label ∧
        g.name = Name.underAll (form.nameFor index field) f.name f.label labels)
      (form.relabel index field labels) := by
  induction labels generalizing form s f with
  | nil => exact ⟨s, f, h, rfl, rfl⟩
  | cons label labels ih =>
      refine ((h.contract_changeLabel hslug label).mono ?_).bind ?_
      · intro e he
        exact ⟨f.span, Or.inl rfl, he⟩
      · rintro new ⟨span, hspan, rfl⟩
        have hname : Name.IsSlug (Name.under (form.nameFor index field) f.name f.label label) :=
          Name.isSlug_under hslug (form.isSlug_nameFor index field)
        have hnew := ih (h.putField { f with
          label := label, span := span,
          name := Name.under (form.nameFor index field) f.name f.label label }) hname
        refine (hnew.mono ?_).imp ?_
        · rintro e ⟨n, rfl | rfl, he⟩
          · rcases hspan with rfl | ⟨x, hx⟩
            · exact ⟨s.columns, Or.inr rfl, he⟩
            · rw [hx] at he
              cases he
          · exact ⟨s.columns, Or.inr rfl, he⟩
        · rintro last ⟨t, g, hlast, hlabel, hname⟩
          rw [h.nameFor_putField] at hname
          refine ⟨t, g, hlast, ?_, hname⟩
          rw [hlabel]
          cases labels <;> rfl

end HoldsAt

section NewField

variable {id label kind typed : String} {changes : List FieldChange}

/-- The field that is added stands at the end of its step. -/
theorem addField_eq_ok (h : form.addField id index label kind changes = .ok new) :
    ∃ s f, itemAt? form.steps index = some s ∧ f.label = label ∧
      f.name = form.typedName (FieldChange.typed changes) label form.fieldNames ∧
      new = form.putStep index.toNat { s with fields := s.fields ++ [f] } := by
  simp only [addField, stepForNewField, bind_eq_ok, pure_eq_ok] at h
  obtain ⟨⟨i, s⟩, ⟨found, hat, known, hknown, rfl⟩, kind, -, span, -, rfl⟩ := h
  obtain ⟨rfl, hs⟩ := stepAt_eq_ok_iff.mp hat
  refine ⟨s, _, hs, ?_, ?_, rfl⟩
  · rw [Field.label_foldl_apply (refuseUnknown_eq_ok hknown)]
    rfl
  · simp only [Field.name_foldl_apply, Field.plain, FieldChange.typed]

theorem holdsAt_append (hs : itemAt? form.steps index = some s) (f : Field) :
    (form.putStep index.toNat { s with fields := s.fields ++ [f] }).HoldsAt index s.fields.length
      { s with fields := s.fields ++ [f] } f := by
  refine ⟨itemAt?_set hs _, ?_⟩
  show (s.fields ++ [f])[s.fields.length]? = some f
  simp

theorem otherNames_append (hs : itemAt? form.steps index = some s) (f : Field) :
    (form.putStep index.toNat { s with fields := s.fields ++ [f] }).otherNames index.toNat
      s.fields.length = form.fieldNames := by
  have hfound := getElem?_of_itemAt? hs
  have herase : (s.fields ++ [f]).eraseIdx s.fields.length = s.fields := by
    rw [List.eraseIdx_append_of_length_le (Nat.le_refl _), Nat.sub_self]
    simp
  rw [otherNames_eq (getElem?_putStep hfound _), putStep_putStep, herase, putStep_self hfound]

end NewField

section Sources

variable {id label kind typed : String} {changes : List FieldChange} {taken : List String}

theorem typedName_of_slug_eq (form : Form) (h : Name.slug typed = "") :
    form.typedName typed label taken = form.derivedName label taken := by
  rw [typedName, Name.slug_trim, if_pos h]

theorem typedName_of_slug_ne (form : Form) (h : Name.slug typed ≠ "") :
    form.typedName typed label taken = Name.firstFree (Name.slug typed) taken := by
  rw [typedName, Name.slug_trim, if_neg h]

theorem looksDerived_derivedName_iff (form : Form) (label : String) (taken : List String) :
    Name.LooksDerived (form.derivedName label taken) label ↔
      ¬ Name.IsNumberedTwice label (form.fields.length + 1) taken :=
  Name.looksDerived_firstFree_iff label (form.fields.length + 1) taken

/-- A new field for which no name is typed gets the name that its label gives.  This is taken for
derived, whatever names there are, unless it is a placeholder with two numbers.  Under another label
the field gets the name that this label gives; only a placeholder with two numbers stays. -/
theorem added_name_under_label (h : form.addField id index label kind changes = .ok new)
    (hblank : Name.slug (FieldChange.typed changes) = "") :
    ∃ s f, itemAt? form.steps index = some s ∧
      new.HoldsAt index s.fields.length { s with fields := s.fields ++ [f] } f ∧
      new.otherNames index.toNat s.fields.length = form.fieldNames ∧
      f.label = label ∧ f.name = form.derivedName label form.fieldNames ∧
      (Name.isDerived f.name label = true ↔
        ¬ Name.IsNumberedTwice label (form.fields.length + 1) form.fieldNames) ∧
      ∀ other, Contract (fun e => toDouble f.span = .error e)
        (fun changed => ∃ t g, changed.HoldsAt index s.fields.length t g ∧ g.label = other ∧
          g.name =
            if Name.IsNumberedTwice label (form.fields.length + 1) form.fieldNames then f.name
            else new.derivedName other form.fieldNames)
        (new.changeField index s.fields.length [.label other]) := by
  obtain ⟨s, f, hs, rfl, hname, rfl⟩ := addField_eq_ok h
  rw [typedName_of_slug_eq form hblank] at hname
  have hslug : Name.IsSlug f.name := by
    rw [hname]
    exact isSlug_derivedName f.label _ form
  have hlooks := looksDerived_derivedName_iff form f.label form.fieldNames
  rw [← hname] at hlooks
  have hothers := otherNames_append hs f
  refine ⟨s, f, hs, holdsAt_append hs f, hothers, rfl, hname,
    (Name.isDerived_iff hslug).trans hlooks, fun other => ?_⟩
  refine ((holdsAt_append hs f).contract_changeLabel hslug other).imp ?_
  rintro changed ⟨span, -, rfl⟩
  refine ⟨_, _, (holdsAt_append hs f).putField _, rfl, ?_⟩
  show Name.under _ f.name f.label other = _
  rw [Name.under, nameFor, Int.toNat_natCast, hothers]
  by_cases htwice : Name.IsNumberedTwice f.label (form.fields.length + 1) form.fieldNames
  · rw [if_neg (mt hlooks.mp (not_not.mpr htwice)), if_pos htwice]
  · rw [if_pos (hlooks.mpr htwice), if_neg htwice]

/-- A form of one step with some fields. -/
def onePage (fields : List Field) : Form :=
  ⟨"Trip", "", "7", 4, [⟨"s1", "s1", "Who", "", fields, false, 4, none⟩]⟩

theorem added_name_under_label_age :
    Name.slug (FieldChange.typed []) = "" ∧
      ∃ new changed t g,
        (onePage [Field.plain "a" "age" "Age"]).addField "b" 0 "Age" "text" [] = .ok new ∧
        new.changeField 0 1 [.label "School"] = .ok changed ∧ changed.HoldsAt 0 1 t g ∧
        g.name = "school" := by
  have hblank : Name.slug (FieldChange.typed []) = "" := by decide +kernel
  obtain ⟨new, changed, hnew, hchanged⟩ : ∃ new changed,
      (onePage [Field.plain "a" "age" "Age"]).addField "b" 0 "Age" "text" [] = .ok new ∧
        new.changeField 0 1 [.label "School"] = .ok changed := ⟨_, _, rfl, rfl⟩
  obtain ⟨s, f, hs, -, -, -, -, -, hother⟩ := added_name_under_label hnew hblank
  obtain rfl := Option.some.inj hs
  obtain ⟨t, g, hg, -, hname⟩ := (hother "School").of_ok hchanged
  refine ⟨hblank, new, changed, t, g, hnew, hchanged, hg, ?_⟩
  have hschool : Name.slug "School" = "school" := by decide +kernel
  rw [hname, if_neg (by decide +kernel), derivedName, hschool, orElseText_of_ne (by decide)]
  decide +kernel

/-- The name of a new field without a typed name may stay behind its label: the placeholder for a
label without a slug is taken. -/
theorem not_forall_added_name_follows :
    ¬ ∀ (form new changed : Form) (id label kind other : String) (index : Int) (s t : Step)
        (g : Field), form.fieldNames.Nodup → form.addField id index label kind [] = .ok new →
      itemAt? form.steps index = some s →
      new.changeField index s.fields.length [.label other] = .ok changed →
      changed.HoldsAt index s.fields.length t g →
      g.name = new.derivedName other form.fieldNames := by
  intro hall
  have hname := hall (onePage [Field.plain "a" "field-2" "Age"]) _ _ "b" "???" "text" "Years" 0 _ _
    _ (by decide) rfl rfl rfl ⟨rfl, rfl⟩
  exact absurd hname (by decide +kernel)

/-- An author types the name of the field at two positions, of a new field or of one that there
is. -/
inductive Types (typed : String) : Form → Int → Int → Prop where
  | added {form new : Form} {id label kind : String} {index : Int} {changes : List FieldChange}
      {s : Step} (htyped : FieldChange.typed changes = typed)
      (hs : itemAt? form.steps index = some s)
      (hnew : form.addField id index label kind changes = .ok new) :
      Types typed new index s.fields.length
  | renamed {form new : Form} {index field : Int} {changes : List FieldChange}
      (htyped : lastOf? FieldChange.name? changes = some (some typed))
      (hnew : form.changeField index field changes = .ok new) : Types typed new index field

/-- A typed name is the first free name for its slug. -/
theorem Types.exists_holdsAt (h : form.Types typed index field) (hslug : Name.slug typed ≠ "") :
    ∃ s f, form.HoldsAt index field s f ∧
      f.name = Name.firstFree (Name.slug typed) (form.otherNames index.toNat field.toNat) := by
  cases h with
  | @added form new id label kind index changes s htyped hs hnew =>
      obtain ⟨t, f, ht, -, hname, rfl⟩ := addField_eq_ok hnew
      obtain rfl : s = t := Option.some.inj (hs.symm.trans ht)
      refine ⟨_, f, holdsAt_append hs f, ?_⟩
      rw [Int.toNat_natCast, otherNames_append hs f, hname, htyped, typedName_of_slug_ne form hslug]
  | @renamed form new index field changes htyped hnew =>
      obtain ⟨i, s, j, f, kind, span, hat, hfield, -, rfl⟩ := changeField_eq_ok hnew
      obtain ⟨rfl, hs⟩ := stepAt_eq_ok_iff.mp hat
      obtain ⟨rfl, hf⟩ := fieldAt_eq_ok_iff.mp hfield
      have hat : form.HoldsAt index field s f := ⟨hs, hf⟩
      refine ⟨_, _, hat.putField _, ?_⟩
      rw [← Form.putField, hat.otherNames_putField]
      show form.nameAfter _ _ changes _ = _
      rw [nameAfter, htyped]
      exact typedName_of_slug_ne form hslug

/-- Under other labels in turn, a typed name is taken for derived as soon as it looks so under the
label before, and it stays if it never does. -/
theorem Types.name_under_labels (h : form.Types typed index field) (hslug : Name.slug typed ≠ "")
    (labels : List String) :
    ∃ s f, form.HoldsAt index field s f ∧
      f.name = Name.firstFree (Name.slug typed) (form.otherNames index.toNat field.toNat) ∧
      Contract (fun e => ∃ n, (n = f.span ∨ n = s.columns) ∧ toDouble n = .error e)
        (fun last => ∃ t g, last.HoldsAt index field t g ∧ g.label = labels.getLastD f.label ∧
          g.name = Name.underAll (form.nameFor index field) f.name f.label labels ∧
          ((∀ l ∈ (f.label :: labels).dropLast, ¬ Name.LooksDerived f.name l) → g.name = f.name))
        (form.relabel index field labels) := by
  obtain ⟨s, f, hat, hname⟩ := h.exists_holdsAt hslug
  have hisSlug : Name.IsSlug f.name := by
    rw [hname]
    exact (Name.isSlug_slug hslug).firstFree _
  refine ⟨s, f, hat, hname, (hat.relabel hisSlug labels).imp ?_⟩
  rintro last ⟨t, g, hlast, hlabel, hunder⟩
  refine ⟨t, g, hlast, hlabel, hunder, fun hstays => ?_⟩
  rw [hunder]
  exact Name.underAll_eq_self hstays

theorem Types.name_under_labels_fname :
    Types "fname" (onePage [Field.plain "a" "fname" "First Name"]) 0 0 ∧ Name.slug "fname" ≠ "" ∧
      ∃ last t g, (onePage [Field.plain "a" "fname" "First Name"]).relabel 0 0
          ["Given Name", "Nickname"] = .ok last ∧
        last.HoldsAt 0 0 t g ∧ g.label = "Nickname" ∧ g.name = "fname" := by
  have htypes : Types "fname" (onePage [Field.plain "a" "fname" "First Name"]) 0 0 :=
    @Types.added "fname" (onePage []) _ "a" "First Name" "text" 0 [.name (some "fname")]
      ⟨"s1", "s1", "Who", "", [], false, 4, none⟩ rfl rfl rfl
  have hslug : Name.slug "fname" ≠ "" := by decide +kernel
  obtain ⟨last, hlast⟩ : ∃ last, (onePage [Field.plain "a" "fname" "First Name"]).relabel 0 0
      ["Given Name", "Nickname"] = .ok last := ⟨_, rfl⟩
  obtain ⟨s, f, hat, hname, hcontract⟩ :=
    Types.name_under_labels htypes hslug ["Given Name", "Nickname"]
  obtain ⟨t, g, hg, hlabel, -, hstays⟩ := hcontract.of_ok hlast
  refine ⟨htypes, hslug, last, t, g, hlast, hg, hlabel, ?_⟩
  obtain ⟨hs, hf⟩ := hat
  obtain rfl := Option.some.inj hs
  obtain rfl := Option.some.inj hf
  exact hstays (by decide +kernel)

/-- A typed name may be lost: the second of two new labels finds it to be the slug of the first. -/
theorem not_forall_typed_name_stays :
    ¬ ∀ (form new last : Form) (id label kind typed : String) (index : Int) (labels : List String)
        (s t : Step) (f g : Field), form.fieldNames.Nodup →
      form.addField id index label kind [.name (some typed)] = .ok new →
      Name.slug typed ≠ "" → Name.slug typed ≠ Name.slug label →
      itemAt? form.steps index = some s →
      new.HoldsAt index s.fields.length { s with fields := s.fields ++ [f] } f →
      new.relabel index s.fields.length labels = .ok last →
      last.HoldsAt index s.fields.length t g → g.name = f.name := by
  intro hall
  have hname := hall (onePage []) _ _ "a" "Years" "text" "Age" 0 ["Age", "Birthday"] _ _ _ _
    (by decide) rfl (by decide +kernel) (by decide +kernel) rfl ⟨rfl, rfl⟩ rfl ⟨rfl, rfl⟩
  exact absurd hname (by decide +kernel)

end Sources

end Form

end ConditionalForms
