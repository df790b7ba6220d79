import ConditionalForms.Proofs.Document.RoundTrip
import ConditionalForms.Proofs.Fill.Alike
import ConditionalForms.Proofs.Rule.Evaluate

/-!
# Filling in a form that was saved

A form whose rules and names are well formed is filled in as the form that is read back from its
document: what saving rewrites is not looked at when the form is filled in.  Both halves of the way
are shown to give a form that is filled in alike, the one to the normal form and the one from the
normal form to the document and back.

**Definitions.**
* `Field.IsWellFormed`, `Step.IsWellFormed`, `Form.IsWellFormed`: names, options, rules and numbers
  that saving does not change.

**Results.**
* `Form.fillsLike_of_normalize`: the normal form is filled in alike.
* `Step.fillsLike_kept`: what comes back is filled in alike.
* `Form.fills_like_reloaded`: saving and reading cannot be noticed while filling in.
-/

namespace ConditionalForms

open Operator (allowedOnFields allowedOnSteps)

namespace Bound

theorem IsExact.canonical {b : Bound} (h : b.IsExact) : b.canonical.IsExact := by
  cases b with
  | int n => exact h
  | float x =>
      cases hx : x.integer? with
      | some n =>
          rw [Bound.canonical, hx]
          exact Integer.isExact_of_integer? hx
      | none => simpa [Bound.canonical, hx] using h

/-- An exact bound can be shown in a message. -/
theorem IsExact.exists_plainText {b : Bound} (h : b.IsExact) :
    ∃ text, b.toValue.plainText = .ok text := by
  cases b with
  | int n => exact ⟨_, Integer.IsExact.write_eq h⟩
  | float x => exact ⟨_, rfl⟩

end Bound

namespace Field

/-- A field with a name, options, rules and numbers that saving does not change. -/
structure IsWellFormed (f : Field) : Prop where
  name_ne : f.name ≠ ""
  trim_name : Text.trim f.name = f.name
  options : "" ∉ f.options
  logic : RuleGroup.IsWellFormedLogic allowedOnFields f.logic
  numbers : f.HoldsNumbers

variable {f normal : Field} {columns : Int} {number : Nat}

theorem IsWellFormed.normalName_eq (h : f.IsWellFormed) (number : Nat) :
    f.normalName number = f.name := by
  rw [normalName, h.trim_name, orElseText_of_ne h.name_ne]

theorem agree_of_findings_eq {x y : Except Fault (List Finding)} (h : x = y) :
    Agree Finding.Alike x y := by
  refine (Agree.of_eq h).imp ?_
  rintro xs _ rfl
  rfl

theorem fillsLike_of_normalize (h : f.IsWellFormed)
    (hnormal : f.normalize columns number = .ok normal) : f.FillsLike normal := by
  obtain ⟨span, logic, -, hlogic, rfl⟩ := normalize_eq_ok hnormal
  refine ⟨(h.normalName_eq number).symm, ?_, ?_⟩
  · exact fun ctx => (RuleGroup.allows_of_cleanLogic h.logic hlogic ctx).symm
  · intro v
    rw [filter_ne_empty h.options]
    exact agree_of_findings_eq rfl

theorem lengthFindings_kept (f : Field) (columns : Int) (v : Value) :
    (f.kept columns).lengthFindings v = f.lengthFindings v := by
  cases hlength : f.kind.hasMaxLength with
  | true => simp only [lengthFindings, kept, hlength, if_true]
  | false => cases hmax : f.maxLength with
    | none => simp [lengthFindings, kept, hlength, hmax]
    | some limit => simp [lengthFindings, kept, hlength, hmax]

theorem optionFindings_kept (f : Field) (columns : Int) (v : Value) :
    (f.kept columns).optionFindings v = f.optionFindings v := by
  cases hoptions : f.kind.hasOptions with
  | true => simp only [optionFindings, kept, hoptions, if_true]
  | false => simp [optionFindings, kept, hoptions]

/-- A bound in another kind gives the same finding, though its message may be spelled otherwise. -/
theorem agree_of_canonical {b : Bound} (h : b.IsHeld) (found : Bool) (code : IssueCode)
    (text : String) :
    Agree Finding.Alike
      (do if found then return [(code, text ++ (← b.toValue.plainText))]
          return [])
      (do if found then return [(code, text ++ (← b.canonical.toValue.plainText))]
          return []) := by
  obtain ⟨shown, hshown⟩ := h.isExact.exists_plainText
  obtain ⟨other, hother⟩ := h.isExact.canonical.exists_plainText
  rw [hshown, hother]
  cases found with
  | true => exact .ok rfl
  | false => exact .ok rfl

theorem minFindings_kept (hbounds : f.kind.hasBounds = true) (h : f.HoldsNumbers) (columns : Int)
    (x : Double) : Agree Finding.Alike (f.minFindings x) ((f.kept columns).minFindings x) := by
  cases hmin : f.minValue with
  | none =>
      simp only [minFindings, kept, hbounds, if_true, hmin, Option.map_none]
      exact .ok rfl
  | some b =>
      simp only [minFindings, kept, hbounds, if_true, hmin, Option.map_some,
        Bound.exceeds_canonical]
      exact agree_of_canonical (h.minValue b hmin) _ _ _

theorem maxFindings_kept (hbounds : f.kind.hasBounds = true) (h : f.HoldsNumbers) (columns : Int)
    (x : Double) : Agree Finding.Alike (f.maxFindings x) ((f.kept columns).maxFindings x) := by
  cases hmax : f.maxValue with
  | none =>
      simp only [maxFindings, kept, hbounds, if_true, hmax, Option.map_none]
      exact .ok rfl
  | some b =>
      simp only [maxFindings, kept, hbounds, if_true, hmax, Option.map_some,
        Bound.fallsBelow_canonical]
      exact agree_of_canonical (h.maxValue b hmax) _ _ _

theorem numberFindings_kept (h : f.HoldsNumbers) (columns : Int) (v : Value) :
    Agree Finding.Alike (f.numberFindings v) ((f.kept columns).numberFindings v) := by
  have hkind : (f.kept columns).kind = f.kind := rfl
  have hlabel : (f.kept columns).label = f.label := rfl
  by_cases hnumber : f.kind = .number
  · have hbounds : f.kind.hasBounds = true := by rw [hnumber]; rfl
    simp only [numberFindings, hkind, hlabel, hnumber, ne_eq, not_true_eq_false, if_false]
    refine Agree.bind_same fun x => Agree.ite (.ok rfl) ?_
    refine (minFindings_kept hbounds h columns x).bind fun xs ys hxy => ?_
    refine (maxFindings_kept hbounds h columns x).bind fun zs ws hzw => .ok ?_
    rw [Finding.Alike, List.map_append, List.map_append, hxy, hzw]
  · simp only [numberFindings, hkind, ne_eq, hnumber, not_false_eq_true, if_true]
    exact .ok rfl

/-- The field that comes back is filled in alike. -/
theorem fillsLike_kept (h : f.HoldsNumbers) (columns : Int) : f.FillsLike (f.kept columns) := by
  refine ⟨rfl, fun _ => rfl, fun v => ?_⟩
  have hrequired : (f.kept columns).required = f.required := rfl
  have hlabel : (f.kept columns).label = f.label := rfl
  rw [findings, findings, hrequired, hlabel, lengthFindings_kept, optionFindings_kept]
  refine Agree.bind_same fun missing => Agree.ite (agree_of_findings_eq rfl) ?_
  refine Agree.bind_same fun length => (numberFindings_kept h columns v).bind fun xs ys hxy => ?_
  refine Agree.bind_same fun option => .ok ?_
  simp only [Finding.Alike, List.map_append]
  rw [hxy]

end Field

namespace Step

/-- A step with fields and rules that saving does not change. -/
structure IsWellFormed (s : Step) : Prop where
  fields : ∀ f ∈ s.fields, f.IsWellFormed
  logic : RuleGroup.IsWellFormedLogic allowedOnSteps s.logic

theorem fillsLike_of_normalize {s normal : Step} {index : Nat} (h : s.IsWellFormed)
    (hnormal : Step.normalize index s = .ok normal) : s.FillsLike normal := by
  obtain ⟨columns, fields, logic, -, hfields, hlogic, rfl⟩ := normalize_eq_ok hnormal
  refine ⟨rfl, fun ctx => (RuleGroup.allows_of_cleanLogic h.logic hlogic ctx).symm, ?_⟩
  refine forall₂_imp_of_mem (forall₂_of_mapFrom hfields) h.fields ?_
  rintro f g hf ⟨i, hfg⟩
  exact Field.fillsLike_of_normalize hf hfg

theorem fillsLike_kept {s : Step} (h : ∀ f ∈ s.fields, f.HoldsNumbers) : s.FillsLike s.kept := by
  refine ⟨rfl, fun _ => rfl, ?_⟩
  rw [kept, List.forall₂_map_right_iff, List.forall₂_same]
  exact fun f hf => Field.fillsLike_kept (h f hf) s.columns

end Step

namespace Form

/-- A form with steps that saving does not change, and with distinct names. -/
structure IsWellFormed (form : Form) : Prop where
  steps : ∀ s ∈ form.steps, s.IsWellFormed
  names : form.fieldNames.Nodup

variable {form normal : Form} {doc : Record}

theorem IsWellFormed.field (h : form.IsWellFormed) : ∀ f ∈ form.fields, f.IsWellFormed := by
  intro f hf
  obtain ⟨s, hs, hfs⟩ := List.mem_flatMap.mp hf
  exact (h.steps s hs).fields f hfs

theorem fillsLike_of_normalize (h : form.IsWellFormed) (hnormal : form.normalize = .ok normal) :
    form.FillsLike normal := by
  obtain ⟨steps, columns, hsteps, -, rfl⟩ := normalize_eq_ok hnormal
  refine forall₂_imp_of_mem (forall₂_of_mapFrom hsteps) h.steps ?_
  rintro s t hs ⟨i, hst⟩
  exact Step.fillsLike_of_normalize hs hst

theorem FillsLike.fieldNames_eq {other : Form} (h : form.FillsLike other) :
    form.fieldNames = other.fieldNames := by
  have hfields : List.Forall₂ Field.FillsLike form.fields other.fields :=
    List.rel_flatMap h fun _ _ hst => hst.fields
  exact forall₂_map_eq (hfields.imp fun _ _ hfg => hfg.name)

/-- A form that is well formed comes back as one that is filled in alike. -/
theorem exists_fillsLike_of_toDocument (h : form.IsWellFormed) (hdoc : form.toDocument = .ok doc) :
    ∃ loaded, ofDocument (.object doc) = .ok loaded ∧ form.FillsLike loaded.value := by
  obtain ⟨normal, hnormal, -⟩ := bind_eq_ok.mp hdoc
  have halike := fillsLike_of_normalize h hnormal
  have hnames : normal.fieldNames.Nodup := halike.fieldNames_eq ▸ h.names
  have hnumbers : ∀ g ∈ normal.fields, g.HoldsNumbers := by
    intro g hg
    obtain ⟨f, hf, columns, number, hfg⟩ := exists_field_of_normalize hnormal hg
    exact (h.field f hf).numbers.of_normalize hfg
  obtain ⟨program, hprogram, rfl⟩ := toDocument_eq_ok hdoc hnormal
  have hloaded := ofDocument_document (isNormal_of_normalize hnormal) hnames program
  rw [reload_eq hnumbers hprogram, map_eq_ok] at hloaded
  obtain ⟨loaded, hload, hvalue⟩ := hloaded
  refine ⟨loaded, hload, ?_⟩
  have hkept : List.Forall₂ Step.FillsLike normal.steps loaded.value.steps := by
    rw [hvalue, List.forall₂_map_right_iff, List.forall₂_same]
    intro s hs
    exact Step.fillsLike_kept fun f hf => hnumbers f (mem_fields hs hf)
  exact forall₂_trans halike hkept fun _ _ _ => Step.FillsLike.trans

/-- Saving a well formed form and reading it back cannot be noticed while filling it in: whatever
was entered so far, the same steps and fields are shown, one moves to the same steps, and the same
issues are found, or the same fault ends both. -/
theorem fills_like_reloaded (h : form.IsWellFormed) (hdoc : form.toDocument = .ok doc) :
    ∃ loaded, ofDocument (.object doc) = .ok loaded ∧ ∀ sub : Submission,
      form.shownSteps sub = loaded.value.shownSteps sub ∧
      List.Forall₂ (fun s t => s.shownTo sub = t.shownTo sub ∧ ∀ participant,
        List.map Field.name <$> s.shownFields sub participant =
          List.map Field.name <$> t.shownFields sub participant) form.steps loaded.value.steps ∧
      (∀ index, form.nextShown sub index = loaded.value.nextShown sub index ∧
        form.previousShown sub index = loaded.value.previousShown sub index ∧
        form.settle sub index = loaded.value.settle sub index) ∧
      List.map Issue.key <$> form.issues sub = List.map Issue.key <$> loaded.value.issues sub := by
  obtain ⟨loaded, hload, hlike⟩ := exists_fillsLike_of_toDocument h hdoc
  refine ⟨loaded, hload, fun sub => ⟨hlike.shownSteps_eq sub, ?_, ?_, ?_⟩⟩
  · exact hlike.imp fun s t hst => ⟨hst.shownTo_eq sub, hst.names_eq sub⟩
  · intro index
    exact ⟨hlike.nextShown_eq sub index, hlike.previousShown_eq sub index,
      hlike.settle_eq sub index⟩
  · exact (hlike.issues_agree sub).map_eq fun _ _ hxy => hxy

/-- A normal form that holds its numbers is well formed if its names are distinct. -/
theorem IsNormal.isWellFormed (h : form.IsNormal) (hnumbers : ∀ f ∈ form.fields, f.HoldsNumbers)
    (hnames : form.fieldNames.Nodup) : form.IsWellFormed := by
  refine ⟨fun s hs => ⟨fun f hf => ?_, ?_⟩, hnames⟩
  · have hfield := (h.steps s hs).fields f hf
    refine ⟨hfield.name_ne, hfield.trim_name, hfield.options, ?_, ?_⟩
    · exact fun g hg r hr => ((hfield.logic g hg).2 r hr).toIsWellFormed
    · exact hnumbers f (mem_fields hs hf)
  · exact fun g hg r hr => (((h.steps s hs).logic g hg).2 r hr).toIsWellFormed

/-- The form about transport is filled in as before when it is read back. -/
theorem travel_fills_like_reloaded :
    travel.IsWellFormed ∧ ∃ loaded, ofDocument (.object (travel.document (some 7))) = .ok loaded ∧
      ∀ sub, travel.shownSteps sub = loaded.value.shownSteps sub ∧
        List.map Issue.key <$> travel.issues sub =
          List.map Issue.key <$> loaded.value.issues sub := by
  have hwell : travel.IsWellFormed :=
    isNormal_travel.isWellFormed holdsNumbers_travel (by decide)
  obtain ⟨loaded, hload, halike⟩ := fills_like_reloaded hwell toDocument_travel
  refine ⟨hwell, loaded, hload, fun sub => ?_⟩
  obtain ⟨hshown, -, -, hissues⟩ := halike sub
  exact ⟨hshown, hissues⟩

end Form

end ConditionalForms
