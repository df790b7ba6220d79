import ConditionalForms.Author.Change
import ConditionalForms.Form.Normal

/-!
# Edits of a form

Authors edit a form step by step and field by field, each addressed by its position.  Edits keep
three things: the names of fields stay apart from each other, a name that was derived from a label
follows the label, and spans stay within the columns of their steps.  Rules are never touched, not
even those that refer to a field that is removed.

**Definitions.**
* `Form.edit`: the form after an edit, or the fault that kept it from being made.
-/

namespace ConditionalForms

/-- What is known of a new step. -/
structure NewStep where
  title : String
  description : String
  perParticipant : Bool
  columns : Value
  logic : Option RuleGroup
  index : Option Int

/-- The edits of a form. -/
inductive Edit where
  | changeForm (changes : List FormChange)
  | setColumns (columns : Value)
  | addStep (step : NewStep)
  | changeStep (step : Int) (changes : List StepChange)
  | removeStep (step : Int)
  | moveStep (source target : Int)
  | addField (step : Int) (label kind : String) (changes : List FieldChange)
  | changeField (step field : Int) (changes : List FieldChange)
  | removeField (step field : Int)
  | moveField (step source target : Int)

/-- A position brought into the range from zero to `n`. -/
def clampIndex (index : Int) (n : Nat) : Nat := (max 0 (min index n)).toNat

/-- The list with the item at a position moved; the target is a position among the others. -/
def moveItem {α : Type} (xs : List α) (source : Nat) (target : Int) : List α :=
  match xs[source]? with
  | none => xs
  | some x =>
      let others := xs.eraseIdx source
      others.insertIdx (clampIndex target others.length) x

namespace Step

/-- The step with a width, the spans of its fields brought into it. -/
def setColumns (s : Step) (columns : Int) : Except Fault Step := do
  let fields ← s.fields.mapM fun f => do
    return { f with span := ← Grid.span (.int f.span) columns }
  return { s with columns := columns, fields := fields }

/-- The step after some changes. -/
def change (s : Step) (changes : List StepChange) : Except Fault Step := do
  let resized ← match lastOf? StepChange.columns? changes with
    | some v => do s.setColumns (← Grid.columnCount v)
    | none => pure s
  return changes.foldl StepChange.apply resized

end Step

namespace Form

/-- The step at a position, which must be there, and its position. -/
def stepAt (form : Form) (index : Int) : Except Fault (Nat × Step) :=
  match itemAt? form.steps index with
  | some s => .ok (index.toNat, s)
  | none => .error (.noStep index)

/-- The form with another step at a position. -/
def putStep (form : Form) (index : Nat) (s : Step) : Form :=
  { form with steps := form.steps.set index s }

/-- The names of all fields but the one at a place. -/
def otherNames (form : Form) (stepIndex fieldIndex : Nat) : List String :=
  form.steps.zipIdx.flatMap fun (s, i) =>
    (if i = stepIndex then s.fields.eraseIdx fieldIndex else s.fields).map Field.name

/-- The free name derived from a label. -/
def derivedName (form : Form) (label : String) (taken : List String) : String :=
  Name.firstFree
    (orElseText (Name.slug label) (Name.placeholder (form.fields.length + 1))) taken

/-- The free name for a typed one, derived from the label when the typed one has no slug. -/
def typedName (form : Form) (typed label : String) (taken : List String) : String :=
  let stem := Name.slug (Text.trim typed)
  if stem = "" then form.derivedName label taken else Name.firstFree stem taken

/-- The form with another width, to which all spans are brought; steps keep theirs. -/
def setColumns (form : Form) (v : Value) : Except Fault Form := do
  let columns ← Grid.columnCount v
  let steps ← form.steps.mapM fun s => do
    s.setColumns (← Grid.columnCount (.int (if s.columns = 0 then columns else s.columns)))
  return { form with columns := columns, steps := steps }

/-- The form with a new step, at its end unless a position is given. -/
def addStep (form : Form) (id : String) (new : NewStep) : Except Fault Form := do
  let n := form.steps.length
  let columns ← Grid.columnCount (if new.columns.isTruthy then new.columns else .int form.columns)
  let step : Step :=
    { id := id, key := id, title := orElseText new.title ("Step " ++ toString (n + 1)),
      description := new.description, fields := [], perParticipant := new.perParticipant,
      columns := columns, logic := new.logic }
  let position := match new.index with
    | some i => clampIndex i n
    | none => n
  return { form with steps := form.steps.insertIdx position step }

/-- The form with some changes of the step at a position. -/
def changeStep (form : Form) (index : Int) (changes : List StepChange) : Except Fault Form := do
  let (i, s) ← form.stepAt index
  refuseUnknown .step (changes.filterMap StepChange.unknown?)
  return form.putStep i (← s.change changes)

/-- The form without the step at a position. -/
def removeStep (form : Form) (index : Int) : Except Fault Form := do
  let (i, _) ← form.stepAt index
  return { form with steps := form.steps.eraseIdx i }

/-- The form with the step at a position moved. -/
def moveStep (form : Form) (source target : Int) : Except Fault Form := do
  let (i, _) ← form.stepAt source
  return { form with steps := moveItem form.steps i target }

/-- The step at a position to which a field with some changes can be added. -/
def stepForNewField (form : Form) (index : Int) (changes : List FieldChange) :
    Except Fault (Nat × Step) := do
  let found ← form.stepAt index
  refuseUnknown .field (changes.filterMap FieldChange.unknownToNew?)
  return found

/-- The form with a new field at the end of a step. -/
def addField (form : Form) (id : String) (index : Int) (label kind : String)
    (changes : List FieldChange) : Except Fault Form := do
  let (i, s) ← form.stepForNewField index changes
  let typed := ((lastOf? FieldChange.name? changes).getD none).getD ""
  let name := form.typedName typed label form.fieldNames
  let kind ← FieldKind.ofName kind
  let span ← Grid.span ((lastOf? FieldChange.span? changes).getD .null) s.columns
  let plain := { Field.plain id name label with kind := kind, span := span }
  return form.putStep i { s with fields := s.fields ++ [changes.foldl FieldChange.apply plain] }

/-- The name of a field after some changes, all else being changed already. -/
def nameAfter (form : Form) (before after : Field) (changes : List FieldChange)
    (taken : List String) : String :=
  match lastOf? FieldChange.name? changes with
  | some typed => form.typedName (typed.getD "") after.label taken
  | none =>
      if (lastOf? FieldChange.label? changes).isSome && Name.isDerived before.name before.label
      then form.derivedName after.label taken
      else before.name

/-- The field at a position in a step, which must be there, and its position. -/
def fieldAt (s : Step) (index : Int) : Except Fault (Nat × Field) :=
  match itemAt? s.fields index with
  | some f => .ok (index.toNat, f)
  | none => .error (.noField index s.key)

/-- The form with some changes of a field. -/
def changeField (form : Form) (stepIndex fieldIndex : Int) (changes : List FieldChange) :
    Except Fault Form := do
  let (i, s) ← form.stepAt stepIndex
  let (j, f) ← fieldAt s fieldIndex
  refuseUnknown .field (changes.filterMap FieldChange.unknown?)
  let kind ← match lastOf? FieldChange.kind? changes with
    | some name => FieldKind.ofName name
    | none => pure f.kind
  let changed := { changes.foldl FieldChange.apply f with kind := kind }
  let name := form.nameAfter f changed changes (form.otherNames i j)
  let span ← Grid.span ((lastOf? FieldChange.span? changes).getD (.int f.span)) s.columns
  return form.putStep i
    { s with fields := s.fields.set j { changed with name := name, span := span } }

/-- The form without a field. -/
def removeField (form : Form) (stepIndex fieldIndex : Int) : Except Fault Form := do
  let (i, s) ← form.stepAt stepIndex
  let (j, _) ← fieldAt s fieldIndex
  return form.putStep i { s with fields := s.fields.eraseIdx j }

/-- The form with a field moved within its step. -/
def moveField (form : Form) (stepIndex source target : Int) : Except Fault Form := do
  let (i, s) ← form.stepAt stepIndex
  let (j, _) ← fieldAt s source
  return form.putStep i { s with fields := moveItem s.fields j target }

/-- The form with some changes of its own. -/
def changeForm (form : Form) (changes : List FormChange) : Except Fault Form := do
  refuseUnknown .form (changes.filterMap FormChange.unknown?)
  return changes.foldl FormChange.apply form

/-- The form after an edit; `id` is the identifier of what the edit adds. -/
def edit (form : Form) (id : String) : Edit → Except Fault Form
  | .changeForm changes => form.changeForm changes
  | .setColumns v => form.setColumns v
  | .addStep new => form.addStep id new
  | .changeStep step changes => form.changeStep step changes
  | .removeStep step => form.removeStep step
  | .moveStep source target => form.moveStep source target
  | .addField step label kind changes => form.addField id step label kind changes
  | .changeField step field changes => form.changeField step field changes
  | .removeField step field => form.removeField step field
  | .moveField step source target => form.moveField step source target

end Form

end ConditionalForms
