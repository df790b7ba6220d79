import ConditionalForms.Audit.Cycle
import ConditionalForms.Form.Basic
import ConditionalForms.Rule.Path

/-!
# Report on the rules of a form

The rules of a form are taken stock of: how many there are, which fields they refer to, and which of
them cannot work.  A reference dangles when no field has its name; it points forward when the field
comes too late to be answered before it is needed; a field may refer to itself; and fields may wait
for each other in a cycle.  The form is not changed.

**Definitions.**
* `Form.report`: all counts and findings.
* `Form.dependencies`: the edges from fields to the other fields that their rules refer to.
-/

namespace ConditionalForms

/-- The rules of a restriction. -/
def rulesOf : Option RuleGroup → List Rule
  | none => []
  | some g => g.rules

/-- The names of the answers that the rules of a restriction point at, in order. -/
def referencesOf (logic : Option RuleGroup) : List String :=
  (rulesOf logic).filterMap fun r => Path.referencedField? r.path

/-- Distinct names in ascending order. -/
def sortedNames (names : List String) : List String :=
  names.eraseDups.mergeSort fun a b => decide (a ≤ b)

/-- How often each name occurs, in the order of first occurrence. -/
def countNames (names : List String) : List (String × Nat) :=
  names.eraseDups.map fun n => (n, names.count n)

/-- The findings on the rules of a form. -/
structure Report where
  formName : String
  stepCount : Nat
  fieldCount : Nat
  perParticipantSteps : Nat
  restrictedSteps : Nat
  restrictedFields : Nat
  ruleCount : Nat
  largestGroup : Nat
  usage : List (String × Nat)
  dangling : List String
  forward : List String
  selfReferences : List String
  numericOnSteps : List String
  cycle : Option (List String)
  repeatedNames : List String
  warnings : List String

namespace Form

/-- The references of the rules of steps: the position of the step, the step and the name. -/
def stepReferences (form : Form) : List (Nat × Step × String) :=
  form.placedSteps.flatMap fun (i, s) => (referencesOf s.logic).map fun name => (i, s, name)

/-- The references of the rules of fields: the position of the step, the field and the name. -/
def fieldReferences (form : Form) : List (Nat × Field × String) :=
  form.placedFields.flatMap fun (i, _, f) => (referencesOf f.logic).map fun name => (i, f, name)

/-- The references of fields to other names than their own. -/
def outwardReferences (form : Form) : List (Nat × Field × String) :=
  form.fieldReferences.filter fun (_, f, name) => name ≠ f.name

/-- A field has the name. -/
def hasField (form : Form) (name : String) : Bool := form.fieldNames.contains name

/-- The names that rules refer to and no field has. -/
def danglingNames (form : Form) : List String :=
  (form.stepReferences.map (·.2.2) ++ form.outwardReferences.map (·.2.2)).filter
    fun name => !form.hasField name

/-- The edges from fields to the other fields that their rules refer to. -/
def dependencies (form : Form) : Edges :=
  (form.outwardReferences.filter fun (_, _, name) => form.hasField name).map
    fun (_, f, name) => (f.name, name)

/-- The place of a step in messages, counted from one. -/
def stepNumber (index : Nat) : String := "step " ++ toString (index + 1)

/-- The rules of steps that need the answer of a field in the same or a later step. -/
def forwardFromSteps (form : Form) : List String :=
  form.stepReferences.filterMap fun (i, s, name) => match form.stepOfField? name with
    | some at_ =>
        if i ≤ at_ then
          some ("step '" ++ s.key ++ "' depends on '" ++ name ++ "' (" ++ stepNumber at_ ++ ")")
        else none
    | none => none

/-- The rules of fields that need the answer of a field in a later step. -/
def forwardFromFields (form : Form) : List String :=
  form.outwardReferences.filterMap fun (i, f, name) => match form.stepOfField? name with
    | some at_ =>
        if i < at_ then
          some ("field '" ++ f.name ++ "' (" ++ stepNumber i ++ ") depends on '" ++ name ++
            "' (" ++ stepNumber at_ ++ ")")
        else none
    | none => none

/-- The rules of steps with operators that steps may not use. -/
def numericOnSteps (form : Form) : List String :=
  form.steps.flatMap fun s =>
    ((rulesOf s.logic).filter fun r => !r.operator.allowedOnSteps).map fun r =>
      "step '" ++ s.key ++ "' uses '" ++ r.operator.symbol ++ "' on " ++ r.path

/-- The groups of rules of the steps and fields. -/
def ruleLists (form : Form) : List (List Rule) :=
  form.steps.map (fun s => rulesOf s.logic) ++ form.fields.map fun f => rulesOf f.logic

/-- The names that more than one field has. -/
def repeatedNames (form : Form) : List String :=
  form.fieldNames.filter fun name => decide (1 < form.fieldNames.count name)

/-- One warning that lists names, unless there are none. -/
def namesWarning (start : String) (names : List String) : List String :=
  if names.isEmpty then [] else [start ++ String.intercalate ", " names]

/-- All findings on the rules of a form. -/
def report (form : Form) : Report :=
  let dangling := sortedNames form.danglingNames
  let forward := form.forwardFromSteps ++ form.forwardFromFields
  let selfReferences := sortedNames
    ((form.fieldReferences.filter fun (_, f, name) => name = f.name).map (·.2.2))
  let numeric := form.numericOnSteps
  let cycle := form.dependencies.findCycle?
  { formName := form.name
    stepCount := form.steps.length
    fieldCount := form.fields.length
    perParticipantSteps := form.steps.countP Step.perParticipant
    restrictedSteps := form.steps.countP fun s => !(rulesOf s.logic).isEmpty
    restrictedFields := form.fields.countP fun f => !(rulesOf f.logic).isEmpty
    ruleCount := form.ruleLists.flatten.length
    largestGroup := (form.ruleLists.map List.length).foldl max 0
    usage := countNames (form.stepReferences.map (·.2.2) ++ form.fieldReferences.map (·.2.2))
    dangling := dangling
    forward := forward
    selfReferences := selfReferences
    numericOnSteps := numeric
    cycle := cycle
    repeatedNames := sortedNames form.repeatedNames
    warnings := List.eraseDups <|
      namesWarning "Rules reference missing fields: " dangling ++
      forward.map ("Forward reference: " ++ ·) ++
      namesWarning "Fields conditioned on their own answer: " selfReferences ++
      numeric.map ("Numeric operator on step logic will be dropped: " ++ ·) ++
      (match cycle with
        | some names => ["Conditional dependency cycle: " ++ String.intercalate " -> " names]
        | none => []) }

end Form

end ConditionalForms
