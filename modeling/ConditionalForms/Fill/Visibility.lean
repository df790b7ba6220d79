import ConditionalForms.Fill.Submission
import ConditionalForms.Form.Basic
import ConditionalForms.Rule.Evaluate

/-!
# What is shown

A field is shown in a context where its restriction is satisfied.  A step is shown in a context
where its own restriction is satisfied and one of its fields is shown, or it has none.  A step for
every participant is shown if it is in the context of one of them; every other step is shown if it
is in the shared context.
-/

namespace ConditionalForms

namespace Field

/-- The field is shown in a context. -/
def isShown (f : Field) (ctx : Context) : Except Fault Bool := RuleGroup.allows f.logic ctx

end Field

namespace Step

/-- The step is shown in one context. -/
def isShownIn (s : Step) (ctx : Context) : Except Fault Bool := do
  if !(← RuleGroup.allows s.logic ctx) then return false
  if s.fields.isEmpty then return true
  anyOf (·.isShown ctx) s.fields

/-- The context that the fields of a step are looked at in. -/
def contextIn (s : Step) (sub : Submission) (participant : Option Nat) : Context :=
  match participant with
  | some i => if s.perParticipant then sub.contextOf i else sub.sharedContext
  | none => sub.sharedContext

/-- The step is shown in the context of a participant. -/
def isShownTo (s : Step) (sub : Submission) (participant : Nat) : Except Fault Bool :=
  s.isShownIn (sub.contextOf participant)

/-- The participants in whose contexts the step is shown, in order. -/
def shownTo (s : Step) (sub : Submission) : Except Fault (List Nat) :=
  keep (s.isShownTo sub) (List.range sub.participantCount)

/-- The step is shown. -/
def isShown (s : Step) (sub : Submission) : Except Fault Bool :=
  if s.perParticipant then anyOf (s.isShownTo sub) (List.range sub.participantCount)
  else s.isShownIn sub.sharedContext

/-- The fields of the step that are shown, to a participant or to all. -/
def shownFields (s : Step) (sub : Submission) (participant : Option Nat) :
    Except Fault (List Field) :=
  keep (·.isShown (s.contextIn sub participant)) s.fields

/-- The names of the fields shown to each participant. -/
def shownNames (s : Step) (sub : Submission) : Except Fault (List (List String)) :=
  (List.range sub.participantCount).mapM fun i => do
    return (← s.shownFields sub (some i)).map Field.name

end Step

namespace Form

/-- The step at a position is shown. -/
def showsStep (form : Form) (sub : Submission) (index : Nat) : Except Fault Bool :=
  match form.steps[index]? with
  | some s => s.isShown sub
  | none => .ok false

/-- The positions of the steps that are shown, in order. -/
def shownSteps (form : Form) (sub : Submission) : Except Fault (List Nat) :=
  keep (form.showsStep sub) (List.range form.steps.length)

/-- The positions of the steps behind a position, nearest first.  Before the first step all of them
are behind it. -/
def stepsAfter (form : Form) (index : Int) : List Nat :=
  let first := (max (index + 1) 0).toNat
  List.range' first (form.steps.length - first)

/-- The positions of the steps before a position, nearest first.  Beyond the last step all of them
are before it. -/
def stepsBefore (form : Form) (index : Int) : List Nat :=
  (List.range (min index form.steps.length).toNat).reverse

/-- The position of the next step that is shown, or the same position when there is none. -/
def nextShown (form : Form) (sub : Submission) (index : Int) : Except Fault Int := do
  match ← firstOf? (form.showsStep sub) (form.stepsAfter index) with
  | some v => return v
  | none => return index

/-- The position of the previous step that is shown, or the same position when there is none. -/
def previousShown (form : Form) (sub : Submission) (index : Int) : Except Fault Int := do
  match ← firstOf? (form.showsStep sub) (form.stepsBefore index) with
  | some v => return v
  | none => return index

/-- The position to stand at instead of a given one: brought into range, it stays where the step is
shown, and otherwise goes to the next shown step, or to the previous one when none follows. -/
def settle (form : Form) (sub : Submission) (index : Int) : Except Fault Int := do
  if form.steps.isEmpty then return 0
  let last : Int := form.steps.length - 1
  let here := min (max index 0) last
  if ← form.showsStep sub here.toNat then return here
  let ahead ← form.nextShown sub here
  if ahead = here then form.previousShown sub here else return ahead

end Form

end ConditionalForms
