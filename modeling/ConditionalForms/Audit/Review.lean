import ConditionalForms.Audit.Report
import ConditionalForms.Document.Save

/-!
# Reviews before saving

A form is reviewed before it is saved, and a document before it is handed on.  Errors block saving;
warnings do not.  The errors of a form are those of its normal form, as it will be saved; its
warnings are those of the report on the form as authored.
-/

namespace ConditionalForms

/-- The outcome of a review. -/
structure Review where
  errors : List String
  warnings : List String
deriving DecidableEq, Repr

/-- Nothing blocks saving. -/
def Review.isValid (r : Review) : Bool := r.errors.isEmpty

/-- A message under a condition. -/
def messageIf (condition : Bool) (message : String) : List String :=
  if condition then [message] else []

namespace Field

/-- The lower bound is above the upper bound. -/
def hasCrossedBounds (f : Field) : Bool :=
  match f.minValue, f.maxValue with
  | some low, some high => low.gt high
  | _, _ => false

/-- The errors of a field that stands at a place. -/
def errors (f : Field) (place : String) : List String :=
  messageIf (Text.isAllBlank f.label) (place ++ ": label is required") ++
  messageIf (f.kind.hasOptions && f.options.isEmpty)
    (place ++ ": '" ++ f.name ++ "' needs at least one option") ++
  messageIf f.hasCrossedBounds
    (place ++ ": '" ++ f.name ++ "' has min_value greater than max_value")

end Field

namespace Step

/-- The errors of the step at a position. -/
def errors (s : Step) (index : Nat) : List String :=
  messageIf s.fields.isEmpty
    ("Step " ++ toString (index + 1) ++ " must have at least one field") ++
  s.fields.zipIdx.flatMap fun (f, i) =>
    f.errors ("Step " ++ toString (index + 1) ++ ", field " ++ toString (i + 1))

end Step

namespace Form

/-- The errors about names that more than one field has, in ascending order of the names. -/
def repeatedNameErrors (form : Form) : List String :=
  (sortedNames form.repeatedNames).map fun name =>
    "Duplicate field name '" ++ name ++ "' used " ++ toString (form.fieldNames.count name) ++
      " times"

/-- The errors of a form in normal form. -/
def errors (form : Form) : Except Fault (List String) := do
  let program ← programNumber? (.text form.program)
  return messageIf (Text.isAllBlank form.name) "Form title is required" ++
    messageIf program.isNone "Valid program ID is required" ++
    messageIf form.steps.isEmpty "At least one step is required" ++
    messageIf form.fields.isEmpty "At least one field is required" ++
    (form.placedSteps.flatMap fun (i, s) => s.errors i) ++
    form.repeatedNameErrors

/-- The review of a form before it is saved. -/
def review (form : Form) : Except Fault Review := do
  let normal ← form.normalize
  let errors ← normal.errors
  return ⟨errors, form.report.warnings⟩

end Form

namespace Document

/-- The things that a member lists: the items of a list, the keys of an object, the characters of a
text.  A member that stands for nothing lists nothing, and any other one cannot be gone through. -/
def listed : Value → Except Fault (List Value)
  | .list items => .ok items
  | .object members => .ok (members.map fun m => m.1.toValue)
  | .text s => .ok (s.toList.map fun c => .text (String.singleton c))
  | v => if v.isTruthy then .error (.notIterable v.fullKindName) else .ok []

/-- A text that is not blank. -/
def isFilledText : Value → Bool
  | .text s => !Text.isAllBlank s
  | _ => false

/-- An integer. -/
def isInteger : Value → Bool
  | .int _ => true
  | _ => false

/-- The members that every field record must fill. -/
def requiredMembers : List String := ["field_name", "label", "field_type"]

/-- The errors of the field record at a position. -/
def recordErrors (v : Value) (index : Nat) : List String :=
  let place := "Field " ++ toString (index + 1) ++ ": "
  match v with
  | .object r => requiredMembers.flatMap fun name =>
      messageIf (!isFilledText (Record.get r name)) (place ++ name ++ " is required")
  | _ => [place ++ "not an object"]

/-- The errors of a document whose member `fields` lists some things. -/
def errors (document : Record) (entries : List Value) : List String :=
  messageIf (!isFilledText (document.get "title")) "Form title is required" ++
    messageIf (!isInteger (document.get "program")) "Valid program ID is required" ++
    messageIf (!(document.get "fields").isTruthy) "At least one field is required" ++
    messageIf (!(document.get "steps").isTruthy) "At least one step is required" ++
    entries.zipIdx.flatMap fun (v, i) => recordErrors v i

/-- The review of a document before it is handed on. -/
def review (document : Record) : Except Fault Review := do
  let entries ← listed (document.get "fields")
  return ⟨errors document entries, []⟩

end Document

end ConditionalForms
