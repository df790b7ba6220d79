import ConditionalForms.Fill.Visibility

/-!
# Issues of answers

The answers to the fields that are shown are checked: required ones must not be blank, and the
others must keep the constraints that the kind of their field supports.  Nothing is said about what
is not shown.
-/

namespace ConditionalForms

/-- The kinds of issues. -/
inductive IssueCode where
  | required
  | maxLength
  | notANumber
  | minValue
  | maxValue
  | invalidOption
deriving DecidableEq, Repr

/-- The name of a kind of issue. -/
def IssueCode.name : IssueCode → String
  | .required => "required"
  | .maxLength => "max_length"
  | .notANumber => "not_a_number"
  | .minValue => "min_value"
  | .maxValue => "max_value"
  | .invalidOption => "invalid_option"

/-- One problem with one answer, of a participant or of all. -/
structure Issue where
  field : String
  code : IssueCode
  message : String
  participant : Option Nat
deriving DecidableEq, Repr

/-- A problem found in the answer of a field, before it is told whose answer it is. -/
abbrev Finding := IssueCode × String

namespace Field

/-- An answer that counts as missing. -/
def isMissing : Value → Except Fault Bool
  | .list items => .ok items.isEmpty
  | v => v.isBlank

/-- The findings on the length of an answer. -/
def lengthFindings (f : Field) (v : Value) : Except Fault (List Finding) := do
  match f.maxLength with
  | none => return []
  | some limit =>
      if !f.kind.hasMaxLength then return []
      let text ← v.answerText
      if limit < text.length then
        return [(.maxLength, f.label ++ " must be at most " ++ (← Integer.write limit) ++
          " characters")]
      return []

/-- The finding on the lower bound. -/
def minFindings (f : Field) (x : Double) : Except Fault (List Finding) := do
  match f.minValue with
  | none => return []
  | some b =>
      if b.exceeds x then
        return [(.minValue, f.label ++ " must be at least " ++ (← b.toValue.plainText))]
      return []

/-- The finding on the upper bound. -/
def maxFindings (f : Field) (x : Double) : Except Fault (List Finding) := do
  match f.maxValue with
  | none => return []
  | some b =>
      if b.fallsBelow x then
        return [(.maxValue, f.label ++ " must be at most " ++ (← b.toValue.plainText))]
      return []

/-- The findings on an answer that must be a number. -/
def numberFindings (f : Field) (v : Value) : Except Fault (List Finding) := do
  if f.kind ≠ .number then return []
  let x ← v.measure
  let isBool := match v with
    | .bool _ => true
    | _ => false
  if isBool || x.isNaN then return [(.notANumber, f.label ++ " must be a number")]
  return (← f.minFindings x) ++ (← f.maxFindings x)

/-- The values chosen by an answer. -/
def choices : Value → List Value
  | .list items => items
  | v => [v]

/-- The findings on the choice of options. -/
def optionFindings (f : Field) (v : Value) : Except Fault (List Finding) := do
  if !f.kind.hasOptions || f.options.isEmpty then return []
  let unknown ← keep (fun c => do return !f.options.contains (← c.answerText)) (choices v)
  if unknown.isEmpty then return []
  let shown ← (Value.list unknown).answerText
  return [(.invalidOption, f.label ++ " has an invalid choice: " ++ shown)]

/-- The findings on an answer. -/
def findings (f : Field) (v : Value) : Except Fault (List Finding) := do
  if ← isMissing v then
    return if f.required then [(.required, f.label ++ " is required")] else []
  let length ← f.lengthFindings v
  let number ← f.numberFindings v
  let option ← f.optionFindings v
  return length ++ number ++ option

/-- The issues of the answer that a field has in a context. -/
def issues (f : Field) (ctx : Context) (participant : Option Nat) : Except Fault (List Issue) := do
  return (← f.findings (ctx.answers.get f.name)).map fun x => ⟨f.name, x.1, x.2, participant⟩

end Field

namespace Step

/-- The issues of the fields that a step shows to a participant or to all. -/
def issuesFor (s : Step) (sub : Submission) (participant : Option Nat) :
    Except Fault (List Issue) := do
  let fields ← s.shownFields sub participant
  let found ← fields.mapM (·.issues (s.contextIn sub participant) participant)
  return found.flatten

/-- The issues of a step. -/
def issues (s : Step) (sub : Submission) : Except Fault (List Issue) := do
  if s.perParticipant then
    let found ← (← s.shownTo sub).mapM fun i => s.issuesFor sub (some i)
    return found.flatten
  if ← s.isShown sub then s.issuesFor sub none else return []

end Step

namespace Form

/-- The issues of a submission, in the order of steps, participants and fields. -/
def issues (form : Form) (sub : Submission) : Except Fault (List Issue) := do
  return (← form.steps.mapM (·.issues sub)).flatten

end Form

end ConditionalForms
