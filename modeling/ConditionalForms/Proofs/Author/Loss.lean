import ConditionalForms.Proofs.Audit.Report
import ConditionalForms.Proofs.Author.Sound

/-!
# Lost names

A field that is removed or renamed takes its name with it, while the rules that point at this name
stay.  Each of them is reported from then on: the lost name dangles as long as any rule points at
it, even one of the renamed field itself, and no other name comes to dangle.

**Definitions.**
* `Form.without`: the form without the fields of a name.
* `Form.Loses`: an edit that removes or renames the field of a name.
* `Form.Cut`: one field of a form is cut out, or put back under a free name.

**Results.**
* `Form.Loses.exists_cut`: both edits are cuts.
* `Form.Cut.without_result`: a cut changes nothing but its field.
* `Form.dangling_of_loses`: what dangles after a name is lost.
-/

namespace ConditionalForms

/-- The rules of a field outlive a change. -/
def FieldChange.KeepsRules : FieldChange → Prop
  | .logic _ => False
  | _ => True

theorem take_cons_drop {α : Type} {xs : List α} {x : α} {i : Nat} (h : xs[i]? = some x) :
    xs.take i ++ x :: xs.drop (i + 1) = xs := by
  obtain ⟨hi, rfl⟩ := List.getElem?_eq_some_iff.mp h
  rw [List.getElem_cons_drop, List.take_append_drop]

namespace Field

theorem logic_foldl_apply {changes : List FieldChange} (h : ∀ c ∈ changes, c.KeepsRules)
    (f : Field) : (changes.foldl FieldChange.apply f).logic = f.logic := by
  induction changes generalizing f with
  | nil => rfl
  | cons c changes ih =>
      have hone : (c.apply f).logic = f.logic := by
        cases c with
        | logic g => exact (h (.logic g) List.mem_cons_self).elim
        | _ => rfl
      rw [List.foldl_cons, ih (fun d hd => h d (List.mem_cons_of_mem c hd)), hone]

end Field

namespace Step

/-- The step without the fields of a name. -/
def without (s : Step) (name : String) : Step :=
  { s with fields := s.fields.filter fun f => f.name ≠ name }

theorem filter_eq_self {fields : List Field} {name : String} (h : name ∉ fields.map Field.name) :
    (fields.filter fun f => f.name ≠ name) = fields := by
  rw [List.filter_eq_self]
  intro f hf
  have hne : f.name ≠ name := fun heq => h (List.mem_map.mpr ⟨f, hf, heq⟩)
  simpa using hne

theorem mem_names_without {s : Step} {name other : String} :
    other ∈ (s.without name).names ↔ other ∈ s.names ∧ other ≠ name := by
  rw [names, names, without, List.mem_map, List.mem_map]
  constructor
  · rintro ⟨f, hf, rfl⟩
    obtain ⟨hmem, hne⟩ := List.mem_filter.mp hf
    exact ⟨⟨f, hmem, rfl⟩, by simpa using hne⟩
  · rintro ⟨⟨f, hf, rfl⟩, hne⟩
    exact ⟨f, List.mem_filter.mpr ⟨hf, by simpa using hne⟩, rfl⟩

theorem without_eq_self {s : Step} {name : String} (h : name ∉ s.names) : s.without name = s := by
  rw [without, filter_eq_self h]

end Step

namespace Form

variable {form new : Form} {name left other : String}

/-- The form without the fields of a name. -/
def without (form : Form) (name : String) : Form :=
  { form with steps := form.steps.map fun s => s.without name }

theorem mem_fieldNames_without :
    other ∈ (form.without name).fieldNames ↔ other ∈ form.fieldNames ∧ other ≠ name := by
  simp only [fieldNames_eq, without, List.mem_flatMap, List.mem_map]
  constructor
  · rintro ⟨_, ⟨s, hs, rfl⟩, hother⟩
    obtain ⟨hmem, hne⟩ := Step.mem_names_without.mp hother
    exact ⟨⟨s, hs, hmem⟩, hne⟩
  · rintro ⟨⟨s, hs, hmem⟩, hne⟩
    exact ⟨s.without name, ⟨s, hs, rfl⟩, Step.mem_names_without.mpr ⟨hmem, hne⟩⟩

/-- The field that an author points at with a position of a step and a position in it. -/
def HasFieldAt (form : Form) (index field : Int) (f : Field) : Prop :=
  ∃ i s j, form.stepAt index = .ok (i, s) ∧ fieldAt s field = .ok (j, f)

theorem itemAt?_set {α : Type} {xs : List α} {x : α} {index : Int} (h : itemAt? xs index = some x)
    (y : α) : itemAt? (xs.set index.toNat y) index = some y := by
  have hi := (List.getElem?_eq_some_iff.mp (getElem?_of_itemAt? h)).1
  cases index with
  | ofNat i => exact List.getElem?_set_self hi
  | negSucc i => simp [itemAt?] at h

theorem stepAt_putStep {index : Int} {i : Nat} {s : Step} (hat : form.stepAt index = .ok (i, s))
    (t : Step) : (form.putStep i t).stepAt index = .ok (i, t) := by
  obtain ⟨rfl, hs⟩ := stepAt_eq_ok_iff.mp hat
  exact stepAt_eq_ok_iff.mpr ⟨rfl, itemAt?_set hs t⟩

theorem fieldAt_set {field : Int} {j : Nat} {s : Step} {f : Field}
    (hfield : fieldAt s field = .ok (j, f)) (g : Field) :
    fieldAt { s with fields := s.fields.set j g } field = .ok (j, g) := by
  obtain ⟨rfl, hf⟩ := fieldAt_eq_ok_iff.mp hfield
  exact fieldAt_eq_ok_iff.mpr ⟨rfl, itemAt?_set hf g⟩

theorem HasFieldAt.eq {index field : Int} {i j : Nat} {s : Step} {f g : Field}
    (h : form.HasFieldAt index field f) (hat : form.stepAt index = .ok (i, s))
    (hfield : fieldAt s field = .ok (j, g)) : f = g := by
  obtain ⟨i', s', j', hat', hfield'⟩ := h
  simp only [hat, Except.ok.injEq, Prod.mk.injEq] at hat'
  obtain ⟨rfl, rfl⟩ := hat'
  simp only [hfield, Except.ok.injEq, Prod.mk.injEq] at hfield'
  exact hfield'.2.symm

/-- An edit takes the name of a field away: it removes the field, or it leaves it with its rules
under another name.  The second name is the one that the field has afterwards, or still the old one
if there is no field any more. -/
inductive Loses (form : Form) (name : String) : String → Form → Prop where
  | removed {index field : Int} {f : Field} {new : Form}
      (hf : form.HasFieldAt index field f) (hname : f.name = name)
      (hnew : form.removeField index field = .ok new) : Loses form name name new
  | renamed {index field : Int} {changes : List FieldChange} {f g : Field} {new : Form}
      (hf : form.HasFieldAt index field f) (hname : f.name = name)
      (hkeeps : ∀ c ∈ changes, c.KeepsRules)
      (hnew : form.changeField index field changes = .ok new)
      (hg : new.HasFieldAt index field g) (hother : g.name ≠ name) : Loses form name g.name new

/-- A field of a form is cut out of its step, or put back with its rules under a name that no other
field has. -/
structure Cut (form : Form) (name left : String) where
  index : Nat
  position : Nat
  step : Step
  field : Field
  kept : List Field
  step_found : form.steps[index]? = some step
  field_found : step.fields[position]? = some field
  field_name : field.name = name
  kept_name : ∀ g ∈ kept, g.name = left ∧ g.name ≠ name
  kept_logic : ∀ g ∈ kept, g.logic = field.logic
  name_free : name ∉ form.otherNames index position
  left_free : left ∉ form.otherNames index position

namespace Cut

variable (c : form.Cut name left)

/-- The fields before the one that is cut. -/
def before : List Field := c.step.fields.take c.position

/-- The fields after the one that is cut. -/
def after : List Field := c.step.fields.drop (c.position + 1)

/-- The form after a cut. -/
def result : Form :=
  form.putStep c.index { c.step with fields := c.before ++ c.kept ++ c.after }

theorem fields_eq : c.step.fields = c.before ++ c.field :: c.after :=
  (take_cons_drop c.field_found).symm

theorem not_mem_beside {x : String} (hx : x ∉ form.otherNames c.index c.position) :
    (x ∉ c.before.map Field.name ∧ x ∉ c.after.map Field.name) ∧ x ∉ form.namesBeside c.index := by
  rw [(otherNames_perm c.step_found c.position).mem_iff, List.eraseIdx_eq_take_drop_succ,
    List.map_append, List.mem_append, List.mem_append, not_or, not_or] at hx
  exact hx

theorem without_step :
    Step.without { c.step with fields := c.before ++ c.kept ++ c.after } left =
      c.step.without name := by
  obtain ⟨⟨hbefore, hafter⟩, -⟩ := c.not_mem_beside c.name_free
  obtain ⟨⟨hbefore', hafter'⟩, -⟩ := c.not_mem_beside c.left_free
  have hkept : (c.kept.filter fun g => g.name ≠ left) = [] := by
    rw [List.filter_eq_nil_iff]
    intro g hg
    simp [(c.kept_name g hg).1]
  have hfields : ((c.before ++ c.kept ++ c.after).filter fun g => g.name ≠ left) =
      c.step.fields.filter fun f => f.name ≠ name := by
    rw [c.fields_eq, List.filter_append, List.filter_append, List.filter_append,
      List.filter_cons_of_neg (by simp [c.field_name]), hkept, List.append_nil,
      Step.filter_eq_self hbefore, Step.filter_eq_self hafter, Step.filter_eq_self hbefore',
      Step.filter_eq_self hafter']
  rw [Step.without, Step.without, hfields]

/-- A cut changes nothing but its field. -/
theorem without_result : c.result.without left = form.without name := by
  obtain ⟨-, hname⟩ := c.not_mem_beside c.name_free
  obtain ⟨-, hleft⟩ := c.not_mem_beside c.left_free
  have hsteps : (c.result.steps.map fun s => s.without left) =
      form.steps.map fun s => s.without name := by
    refine List.ext_getElem? fun k => ?_
    rw [result, putStep, List.getElem?_map, List.getElem?_map, List.getElem?_set]
    split
    · rename_i heq
      subst heq
      obtain ⟨hlt, -⟩ := List.getElem?_eq_some_iff.mp c.step_found
      rw [if_pos hlt, c.step_found, Option.map_some, Option.map_some, c.without_step]
    · rename_i hne
      refine Option.map_congr fun s hs => ?_
      have hs : s ∈ form.steps.eraseIdx c.index :=
        List.mem_eraseIdx_iff_getElem?.mpr ⟨k, Ne.symm hne, hs⟩
      rw [Step.without_eq_self fun hmem => hleft (List.mem_flatMap.mpr ⟨s, hs, hmem⟩),
        Step.without_eq_self fun hmem => hname (List.mem_flatMap.mpr ⟨s, hs, hmem⟩)]
  show { c.result with steps := c.result.steps.map fun s : Step => s.without left } = _
  rw [hsteps]
  rfl

theorem name_not_mem_result : name ∉ c.result.fieldNames := by
  obtain ⟨⟨hbefore, hafter⟩, hbeside⟩ := c.not_mem_beside c.name_free
  have hkept : name ∉ c.kept.map Field.name := by
    intro hmem
    obtain ⟨g, hg, heq⟩ := List.mem_map.mp hmem
    exact (c.kept_name g hg).2 heq
  rw [result, (fieldNames_putStep_perm c.step_found _).mem_iff, Step.names, List.mem_append,
    List.map_append, List.map_append, List.mem_append, List.mem_append]
  rintro (((h | h) | h) | h)
  · exact hbefore h
  · exact hkept h
  · exact hafter h
  · exact hbeside h

/-- The rules of a field after a cut are those of a field before it. -/
theorem exists_logic_eq {g : Field} (hg : g ∈ c.result.fields) :
    ∃ f ∈ form.fields, f.logic = g.logic := by
  have hfields : ∀ f ∈ c.before ++ c.field :: c.after, f ∈ form.fields := by
    intro f hf
    rw [← c.fields_eq] at hf
    exact mem_fields_iff.mpr ⟨c.index, c.step, c.step_found, hf⟩
  obtain ⟨t, ht, hgt⟩ := List.mem_flatMap.mp hg
  rcases List.mem_or_eq_of_mem_set ht with ht | rfl
  · exact ⟨g, mem_fields ht hgt, rfl⟩
  · simp only [List.mem_append] at hgt
    rcases hgt with (hbefore | hkept) | hafter
    · exact ⟨g, hfields g (List.mem_append_left _ hbefore), rfl⟩
    · exact ⟨c.field, hfields c.field (by simp), (c.kept_logic g hkept).symm⟩
    · exact ⟨g, hfields g (List.mem_append_right _ (List.mem_cons_of_mem _ hafter)), rfl⟩

theorem refersTo_of_result (h : c.result.RefersTo other) : form.RefersTo other := by
  rcases h with ⟨t, ht, hother⟩ | ⟨g, hg, hother⟩
  · rcases List.mem_or_eq_of_mem_set ht with ht | rfl
    · exact Or.inl ⟨t, ht, hother⟩
    · exact Or.inl ⟨c.step, List.mem_of_getElem? c.step_found, hother⟩
  · obtain ⟨f, hf, hlogic⟩ := c.exists_logic_eq hg
    exact Or.inr ⟨f, hf, hlogic ▸ hother⟩

end Cut

/-- A change of a field that keeps its rules puts a field with these rules in its place, with the
name of the old one or a free one. -/
theorem changeField_keepsRules {index field : Int} {changes : List FieldChange}
    (hkeeps : ∀ c ∈ changes, c.KeepsRules)
    (h : form.changeField index field changes = .ok new) :
    ∃ i s j f g, form.stepAt index = .ok (i, s) ∧ fieldAt s field = .ok (j, f) ∧
      g.logic = f.logic ∧ (g.name = f.name ∨ g.name ∉ form.otherNames i j) ∧
      new = form.putStep i { s with fields := s.fields.set j g } := by
  obtain ⟨i, s, j, f, kind, span, hat, hfield, -, rfl⟩ := changeField_eq_ok h
  have hlogic := Field.logic_foldl_apply hkeeps f
  have hcases := nameAfter_cases (form.otherNames i j) form f
    { changes.foldl FieldChange.apply f with kind := kind } changes
  refine ⟨i, s, j, f, _, hat, hfield, ?_, ?_, rfl⟩
  · exact hlogic
  · exact hcases.imp_right And.right

/-- A field that is removed or renamed is cut out or put back. -/
theorem Loses.exists_cut (hdistinct : form.fieldNames.Nodup) (h : form.Loses name left new) :
    ∃ c : form.Cut name left, new = c.result := by
  cases h with
  | @removed index field f _ hf hname hnew =>
      obtain ⟨i, s, j, hat, hfield⟩ := hf
      have hs := getElem?_of_stepAt hat
      have hj := getElem?_of_fieldAt hfield
      have hfree := (List.nodup_cons.mp (nodup_cons_otherNames hdistinct hs hj)).1
      rw [hname] at hfree
      simp only [removeField, hat, hfield, ok_bind, pure_eq_ok] at hnew
      let c : form.Cut name name :=
        ⟨i, j, s, f, [], hs, hj, hname, by simp, by simp, hfree, hfree⟩
      have hfields : s.fields.eraseIdx j = c.before ++ c.kept ++ c.after := by
        rw [List.append_nil, List.eraseIdx_eq_take_drop_succ]
        rfl
      exact ⟨c, by rw [← hnew, hfields, Cut.result]⟩
  | @renamed index field changes f g _ hf hname hkeeps hnew hg hother =>
      obtain ⟨i, s, j, f', g', hat, hfield, hlogic, hcases, rfl⟩ :=
        changeField_keepsRules hkeeps hnew
      obtain rfl := hf.eq hat hfield
      obtain rfl := hg.eq (stepAt_putStep hat _) (fieldAt_set hfield _)
      have hs := getElem?_of_stepAt hat
      have hj := getElem?_of_fieldAt hfield
      have hfree := (List.nodup_cons.mp (nodup_cons_otherNames hdistinct hs hj)).1
      rw [hname] at hfree
      have hleft : g.name ∉ form.otherNames i j := by
        rcases hcases with heq | hleft
        · exact absurd (heq.trans hname) hother
        · exact hleft
      let c : form.Cut name g.name :=
        ⟨i, j, s, f, [g], hs, hj, hname, by simp [hother], by simp [hlogic], hfree, hleft⟩
      have hfields : s.fields.set j g = c.before ++ c.kept ++ c.after := by
        obtain ⟨hlt, -⟩ := List.getElem?_eq_some_iff.mp hj
        rw [List.set_eq_take_append_cons_drop, if_pos hlt, List.append_assoc]
        rfl
      exact ⟨c, by rw [hfields, Cut.result]⟩

/-- A name that is lost dangles exactly if a rule points at it still, and no other name comes to
dangle. -/
theorem dangling_of_loses (hdistinct : form.fieldNames.Nodup) (h : form.Loses name left new) :
    new.without left = form.without name ∧
      (name ∈ new.report.dangling ↔ new.RefersTo name) ∧
      ∀ other ∈ new.report.dangling, other ≠ name → other ∈ form.report.dangling := by
  obtain ⟨c, rfl⟩ := h.exists_cut hdistinct
  refine ⟨c.without_result, ?_, ?_⟩
  · rw [mem_dangling_iff, and_iff_left c.name_not_mem_result]
  · intro other hother hne
    obtain ⟨hrefers, hmissing⟩ := mem_dangling_iff.mp hother
    refine mem_dangling_iff.mpr ⟨c.refersTo_of_result hrefers, fun hmem => hmissing ?_⟩
    have hstays : other ∈ (c.result.without left).fieldNames := by
      rw [c.without_result]
      exact mem_fieldNames_without.mpr ⟨hmem, hne⟩
    exact (mem_fieldNames_without.mp hstays).1

/-- The field that asks for an age, under some name; it is shown to those who are older than twelve,
which it cannot know before. -/
def ageField (name : String) : Field :=
  { Field.plain "f-age" name "Age" with
      logic := some ⟨.all, [⟨"answers.age", .greater, .text "12"⟩]⟩ }

/-- A form of one step that asks for the school of those who gave an age, after some fields. -/
def ageForm (fields : List Field) : Form :=
  { name := "Trip", description := "", program := "7", columns := 1
    steps :=
      [{ id := "s1", key := "s1", title := "Details", description := "", perParticipant := false
         columns := 4, logic := none
         fields := fields ++
          [{ Field.plain "f-school" "school" "School" with
              logic := some ⟨.all, [⟨"answers.age", .notEmpty, .null⟩]⟩ }] }] }

theorem dangling_ageForm :
    (ageForm [ageField "age"]).fieldNames.Nodup ∧
      (ageForm [ageField "age"]).Loses "age" "years" (ageForm [ageField "years"]) ∧
      "age" ∈ (ageForm [ageField "years"]).report.dangling ∧
      (ageForm [ageField "age"]).Loses "age" "age" (ageForm []) ∧
      "age" ∈ (ageForm []).report.dangling := by
  have hdistinct : (ageForm [ageField "age"]).fieldNames.Nodup := by decide
  have hfound : ∀ name, (ageForm [ageField name]).HasFieldAt 0 0 (ageField name) :=
    fun name => ⟨0, _, 0, rfl, rfl⟩
  have hchange : (ageForm [ageField "age"]).changeField 0 0 [.name (some "Years")] =
      .ok (ageForm [ageField "years"]) := by rfl
  have hrenamed : (ageForm [ageField "age"]).Loses "age" "years" (ageForm [ageField "years"]) := by
    refine .renamed (hfound "age") rfl ?_ hchange (hfound "years") (by decide)
    intro c hc
    obtain rfl := List.mem_singleton.mp hc
    trivial
  have hremoved : (ageForm [ageField "age"]).Loses "age" "age" (ageForm []) :=
    .removed (hfound "age") rfl rfl
  refine ⟨hdistinct, hrenamed, ?_, hremoved, ?_⟩
  · exact (dangling_of_loses hdistinct hrenamed).2.1.mpr
      (Or.inr ⟨ageField "years", List.mem_cons_self, by decide⟩)
  · exact (dangling_of_loses hdistinct hremoved).2.1.mpr
      (Or.inr ⟨_, List.mem_cons_self, by decide⟩)

end Form

end ConditionalForms
