import ConditionalForms.Proofs.Form.Normal

/-!
# Normalizing is a projection

Normalizing a form keeps its steps and fields in their order and with all that it does not have to
put right.  What it gives is in normal form, and the normal forms are exactly the forms that it
leaves as they are, so a second time it does nothing.

**Definitions.**
* `Field.IsTidied`, `Step.IsTidied`: a field or step beside its normal form.

**Results.**
* `Field.isTidied_of_normalize`, `Step.isTidied_of_normalize`: what normalizing keeps.
* `Form.isNormal_iff`: the normal forms are the forms that normalizing leaves as they are.
* `Form.normalize_is_projection`: what normalizing a form gives.
-/

namespace ConditionalForms

open Operator (allowedOnFields allowedOnSteps)

namespace Field

/-- The second field is the first one with an id, a name, a span and rules that were put right, and
without empty options. -/
structure IsTidied (f g : Field) : Prop where
  rest : { f with id := g.id, name := g.name, options := g.options, span := g.span,
                  logic := g.logic } = g
  id : f.id ≠ "" → g.id = f.id
  name : Text.trim f.name ≠ "" → g.name = Text.trim f.name
  options : g.options = f.options.filter (· ≠ "")
  logic : RuleGroup.IsCleanLogic allowedOnFields f.logic → g.logic = f.logic

theorem isTidied_of_normalize {f normal : Field} {columns : Int} {number : Nat}
    (h : f.normalize columns number = .ok normal) : f.IsTidied normal := by
  obtain ⟨span, logic, -, hlogic, rfl⟩ := normalize_eq_ok h
  refine ⟨rfl, orElseText_of_ne, orElseText_of_ne, rfl, fun hclean => ?_⟩
  exact Except.ok.inj (hlogic.symm.trans (RuleGroup.cleanLogic_of_isCleanLogic hclean))

end Field

namespace Step

/-- The second step is the first one with an id, a key, a title, a width and rules that were put
right, and with its fields in their order. -/
structure IsTidied (s t : Step) : Prop where
  rest : { s with id := t.id, key := t.key, title := t.title, fields := t.fields,
                  columns := t.columns, logic := t.logic } = t
  id : s.id ≠ "" → t.id = s.id
  key : s.key ≠ "" → t.key = s.key
  title : s.title ≠ "" → t.title = s.title
  fields : List.Forall₂ Field.IsTidied s.fields t.fields
  logic : RuleGroup.IsCleanLogic allowedOnSteps s.logic → t.logic = s.logic

theorem isTidied_of_normalize {s normal : Step} {index : Nat}
    (h : Step.normalize index s = .ok normal) : s.IsTidied normal := by
  obtain ⟨columns, fields, logic, -, hfields, hlogic, rfl⟩ := normalize_eq_ok h
  refine ⟨rfl, orElseText_of_ne, orElseText_of_ne, orElseText_of_ne, ?_, fun hclean => ?_⟩
  · refine (forall₂_of_mapFrom hfields).imp ?_
    rintro f g ⟨i, hfg⟩
    exact Field.isTidied_of_normalize hfg
  · exact Except.ok.inj (hlogic.symm.trans (RuleGroup.cleanLogic_of_isCleanLogic hclean))

end Step

namespace Form

/-- The normal forms are the forms that normalizing leaves as they are. -/
theorem isNormal_iff (form : Form) : form.IsNormal ↔ form.normalize = .ok form := by
  constructor
  · intro h
    exact h.normalize_eq
  · intro h
    exact isNormal_of_normalize h

/-- What normalizing a form gives has the steps and fields of the form in their order, is in normal
form, and stays as it is when it is normalized again. -/
theorem normalize_is_projection {form normal : Form} (h : form.normalize = .ok normal) :
    List.Forall₂ Step.IsTidied form.steps normal.steps ∧
      { form with steps := normal.steps, columns := normal.columns } = normal ∧
      normal.IsNormal ∧ normal.normalize = .ok normal := by
  have hnormal : normal.IsNormal := isNormal_of_normalize h
  obtain ⟨steps, columns, hsteps, -, rfl⟩ := normalize_eq_ok h
  refine ⟨?_, rfl, hnormal, (isNormal_iff _).mp hnormal⟩
  refine (forall₂_of_mapFrom hsteps).imp ?_
  rintro s t ⟨i, hst⟩
  exact Step.isTidied_of_normalize hst

/-- A form that leaves everything to normalizing: a step without a name in a grid too wide, with a
rule that steps may not have, and a field with a blank name, an empty option and a blank rule. -/
def untidy : Form :=
  { name := "Trip", description := "", program := "7", columns := 0
    steps :=
      [{ id := "", key := "", title := "", description := "", perParticipant := true, columns := 9
         logic := some ⟨.any, [⟨"age", .greater, .text "12"⟩, ⟨" school ", .notEmpty, .text "x"⟩]⟩
         fields :=
          [{ Field.plain "" "  " "First Name!" with
              options := ["", "Ada"], span := -3,
              logic := some ⟨.all, [⟨" ", .equals, .text "x"⟩]⟩ }] }] }

/-- The same form put right. -/
def tidy : Form :=
  { name := "Trip", description := "", program := "7", columns := 1
    steps :=
      [{ id := "step-1", key := "step-1", title := "Step 1", description := "",
         perParticipant := true, columns := 4
         logic := some ⟨.any, [⟨"school", .notEmpty, .null⟩]⟩
         fields :=
          [{ Field.plain "first-name" "first-name" "First Name!" with
              options := ["Ada"], span := 4 }] }] }

theorem normalize_untidy : untidy.normalize = .ok tidy := by
  have hwidth : Grid.columnCount (.int 0) = .ok 1 :=
    Grid.columnCount_int (Integer.isExact_of_natAbs_le (by decide))
  have hcolumns : Grid.columnCount (.int 9) = .ok 4 :=
    Grid.columnCount_int (Integer.isExact_of_natAbs_le (by decide))
  have hspan : Grid.span (.int (-3)) 4 = .ok 4 :=
    Grid.span_int (Integer.isExact_of_natAbs_le (by decide))
  have hname : (Field.plain "" "  " "First Name!").normalName (orderNumber 0 0) = "first-name" := by
    decide +kernel
  have hage : Text.trim "age" = "age" := by decide +kernel
  have hschool : Text.trim " school " = "school" := by decide +kernel
  have hblank : Text.trim " " = "" := by decide +kernel
  have hfield : RuleGroup.cleanLogic allowedOnFields (some ⟨.all, [⟨" ", .equals, .text "x"⟩]⟩) =
      .ok none := by
    simp [RuleGroup.cleanLogic, RuleGroup.clean?, collect, Rule.clean?, hblank, RuleGroup.ofRules?]
  have hstep : RuleGroup.cleanLogic allowedOnSteps
      (some ⟨.any, [⟨"age", .greater, .text "12"⟩, ⟨" school ", .notEmpty, .text "x"⟩]⟩) =
      .ok (some ⟨.any, [⟨"school", .notEmpty, .null⟩]⟩) := by
    simp [RuleGroup.cleanLogic, RuleGroup.clean?, collect, Rule.clean?, hage, hschool,
      allowedOnSteps, Operator.isNumeric, Operator.needsOperand, RuleGroup.ofRules?]
  rw [Field.normalName] at hname
  simp only [normalize, untidy, mapFrom, Step.normalize, Field.normalize, hwidth, hcolumns, hspan,
    hfield, hstep, ok_bind, hname]
  rfl

theorem normalize_is_projection_untidy :
    untidy.normalize = .ok tidy ∧ tidy.IsNormal ∧ tidy.normalize = .ok tidy := by
  obtain ⟨-, -, hnormal, hsame⟩ := normalize_is_projection normalize_untidy
  exact ⟨normalize_untidy, hnormal, hsame⟩

end Form

end ConditionalForms
