import ConditionalForms.Fill.Issue
import ConditionalForms.Proofs.Agreement

/-!
# Forms that are filled in alike

Two forms that have the same steps and fields by name, which are shown in the same contexts and find
the same faults with the same answers, cannot be told apart by filling them in.

**Definitions.**
* `Field.FillsLike`, `Step.FillsLike`, `Form.FillsLike`: forms that are filled in alike.
* `Finding.Alike`, `Issue.Alike`: what is found is the same but for messages.

**Results.**
* `Step.FillsLike.shownFields_agree`, `Step.FillsLike.isShown_eq`, `Step.FillsLike.shownTo_eq`: the
  same is shown.
* `Form.FillsLike.nextShown_eq`, `Form.FillsLike.previousShown_eq`, `Form.FillsLike.settle_eq`: one
  moves to the same steps.
* `Form.FillsLike.issues_agree`: the same issues are found.
-/

namespace ConditionalForms

/-- The findings are the same but for their messages. -/
def Finding.Alike (xs ys : List Finding) : Prop := xs.map Prod.fst = ys.map Prod.fst

namespace Issue

/-- An issue without its message. -/
def key (x : Issue) : String × IssueCode × Option Nat := (x.field, x.code, x.participant)

/-- The issues are the same but for their messages. -/
def Alike (xs ys : List Issue) : Prop := xs.map key = ys.map key

theorem alike_flatten {xs ys : List (List Issue)} (h : List.Forall₂ Alike xs ys) :
    Alike xs.flatten ys.flatten := by
  rw [Alike, List.map_flatten, List.map_flatten, forall₂_map_eq h]

end Issue

namespace Field

/-- The fields have one name, are shown in the same contexts and find the same faults. -/
structure FillsLike (f g : Field) : Prop where
  name : f.name = g.name
  isShown : ∀ ctx, f.isShown ctx = g.isShown ctx
  findings : ∀ v, Agree Finding.Alike (f.findings v) (g.findings v)

theorem FillsLike.trans {f g h : Field} (hfg : f.FillsLike g) (hgh : g.FillsLike h) :
    f.FillsLike h where
  name := hfg.name.trans hgh.name
  isShown ctx := (hfg.isShown ctx).trans (hgh.isShown ctx)
  findings v := (hfg.findings v).trans (hgh.findings v) fun _ _ _ => Eq.trans

theorem FillsLike.issues_agree {f g : Field} (h : f.FillsLike g) (ctx : Context)
    (participant : Option Nat) :
    Agree Issue.Alike (f.issues ctx participant) (g.issues ctx participant) := by
  rw [issues, issues, h.name]
  refine (h.findings _).bind fun xs ys hxy => .ok ?_
  have hkeys := congrArg (List.map fun code => (g.name, code, participant)) hxy
  rw [List.map_map, List.map_map] at hkeys
  rw [Issue.Alike, List.map_map, List.map_map]
  exact hkeys

end Field

namespace Step

/-- The steps are for the same people, are shown in the same contexts and have fields that are
filled in alike. -/
structure FillsLike (s t : Step) : Prop where
  perParticipant : s.perParticipant = t.perParticipant
  allows : ∀ ctx, RuleGroup.allows s.logic ctx = RuleGroup.allows t.logic ctx
  fields : List.Forall₂ Field.FillsLike s.fields t.fields

namespace FillsLike

variable {s t : Step}

theorem trans {u : Step} (hst : s.FillsLike t) (htu : t.FillsLike u) : s.FillsLike u where
  perParticipant := hst.perParticipant.trans htu.perParticipant
  allows ctx := (hst.allows ctx).trans (htu.allows ctx)
  fields := forall₂_trans hst.fields htu.fields fun _ _ _ => Field.FillsLike.trans

theorem isShownIn_eq (h : s.FillsLike t) (ctx : Context) : s.isShownIn ctx = t.isShownIn ctx := by
  have hempty : s.fields.isEmpty = t.fields.isEmpty := isEmpty_eq_of_forall₂ h.fields
  have hany : anyOf (·.isShown ctx) s.fields = anyOf (·.isShown ctx) t.fields :=
    anyOf_congr h.fields fun f g hfg => hfg.isShown ctx
  rw [isShownIn, isShownIn, h.allows, hempty, hany]

theorem isShownTo_eq (h : s.FillsLike t) (sub : Submission) : s.isShownTo sub = t.isShownTo sub :=
  funext fun _ => h.isShownIn_eq _

theorem shownTo_eq (h : s.FillsLike t) (sub : Submission) : s.shownTo sub = t.shownTo sub := by
  rw [shownTo, shownTo, h.isShownTo_eq]

theorem isShown_eq (h : s.FillsLike t) (sub : Submission) : s.isShown sub = t.isShown sub := by
  rw [isShown, isShown, h.perParticipant, h.isShownTo_eq, h.isShownIn_eq]

theorem contextIn_eq (h : s.FillsLike t) (sub : Submission) (participant : Option Nat) :
    s.contextIn sub participant = t.contextIn sub participant := by
  cases participant with
  | none => rfl
  | some i => rw [contextIn, contextIn, h.perParticipant]

theorem shownFields_agree (h : s.FillsLike t) (sub : Submission) (participant : Option Nat) :
    Agree (List.Forall₂ Field.FillsLike) (s.shownFields sub participant)
      (t.shownFields sub participant) := by
  rw [shownFields, shownFields, h.contextIn_eq]
  exact Agree.keep h.fields fun f g hfg => hfg.isShown _

theorem names_eq (h : s.FillsLike t) (sub : Submission) (participant : Option Nat) :
    List.map Field.name <$> s.shownFields sub participant =
      List.map Field.name <$> t.shownFields sub participant :=
  (h.shownFields_agree sub participant).map_eq fun _ _ hall =>
    forall₂_map_eq (hall.imp fun _ _ hfg => hfg.name)

theorem issuesFor_agree (h : s.FillsLike t) (sub : Submission) (participant : Option Nat) :
    Agree Issue.Alike (s.issuesFor sub participant) (t.issuesFor sub participant) := by
  rw [issuesFor, issuesFor, h.contextIn_eq]
  refine (h.shownFields_agree sub participant).bind fun fs gs hall => ?_
  exact (Agree.mapM hall fun f g hfg => hfg.issues_agree _ _).bind fun xs ys hxy =>
    .ok (Issue.alike_flatten hxy)

theorem issues_agree (h : s.FillsLike t) (sub : Submission) :
    Agree Issue.Alike (s.issues sub) (t.issues sub) := by
  rw [issues, issues, h.perParticipant, h.shownTo_eq, h.isShown_eq]
  cases t.perParticipant with
  | true =>
      refine Agree.bind_same fun reached => ?_
      have hall : List.Forall₂ Eq reached reached := List.forall₂_same.mpr fun _ _ => rfl
      refine (Agree.mapM hall (S := Issue.Alike) ?_).bind fun xs ys hxy =>
        .ok (Issue.alike_flatten hxy)
      rintro i _ rfl
      exact h.issuesFor_agree sub (some i)
  | false =>
      refine Agree.bind_same fun shown => ?_
      cases shown with
      | true => exact h.issuesFor_agree sub none
      | false => exact .ok rfl

end FillsLike

end Step

namespace Form

/-- The steps of the forms are filled in alike. -/
def FillsLike (form other : Form) : Prop := List.Forall₂ Step.FillsLike form.steps other.steps

namespace FillsLike

variable {form other : Form}

theorem showsStep_eq (h : form.FillsLike other) (sub : Submission) :
    form.showsStep sub = other.showsStep sub := by
  funext i
  have hstep := getElem?_of_forall₂ h i
  rw [showsStep, showsStep]
  cases hs : form.steps[i]? with
  | none => cases ht : other.steps[i]? with
    | none => rfl
    | some t => simp [hs, ht] at hstep
  | some s => cases ht : other.steps[i]? with
    | none => simp [hs, ht] at hstep
    | some t =>
        rw [hs, ht, Option.rel_some_some] at hstep
        exact hstep.isShown_eq sub

theorem shownSteps_eq (h : form.FillsLike other) (sub : Submission) :
    form.shownSteps sub = other.shownSteps sub := by
  rw [shownSteps, shownSteps, h.showsStep_eq, List.Forall₂.length_eq h]

theorem nextShown_eq (h : form.FillsLike other) (sub : Submission) (index : Int) :
    form.nextShown sub index = other.nextShown sub index := by
  rw [nextShown, nextShown, h.showsStep_eq, stepsAfter, stepsAfter, List.Forall₂.length_eq h]

theorem previousShown_eq (h : form.FillsLike other) (sub : Submission) (index : Int) :
    form.previousShown sub index = other.previousShown sub index := by
  rw [previousShown, previousShown, h.showsStep_eq, stepsBefore, stepsBefore,
    List.Forall₂.length_eq h]

theorem settle_eq (h : form.FillsLike other) (sub : Submission) (index : Int) :
    form.settle sub index = other.settle sub index := by
  have hempty : form.steps.isEmpty = other.steps.isEmpty := isEmpty_eq_of_forall₂ h
  simp only [settle, hempty, List.Forall₂.length_eq h, h.showsStep_eq, h.nextShown_eq,
    h.previousShown_eq]

theorem issues_agree (h : form.FillsLike other) (sub : Submission) :
    Agree Issue.Alike (form.issues sub) (other.issues sub) :=
  (Agree.mapM h fun _ _ hst => hst.issues_agree sub).bind fun _ _ hxy =>
    .ok (Issue.alike_flatten hxy)

end FillsLike

end Form

end ConditionalForms
