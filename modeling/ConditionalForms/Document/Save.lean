import ConditionalForms.Form.Normal

/-!
# Saving a form

A saved form is a document of plain values.  All fields stand in one list, numbered so that the
number divided by `orderStride` is the position of the step; the steps stand beside it and refer to
their fields by name.  Only the constraints that the kind of a field supports are written.

**Definitions.**
* `Form.toDocument`: the document of a form, which is brought into normal form first.
* `Form.overfullSteps`: the steps whose fields do not fit between two order numbers of steps.
-/

namespace ConditionalForms

/-- The program number of a program text, absent when the text is no numeral. -/
def programNumber? (program : Value) : Except Fault (Option Int) := do
  match program with
  | .bool _ => return none
  | .int n => return some n
  | v =>
      let text ← if v.isTruthy then v.plainText else pure ""
      let digits := Text.trim text
      if Text.isNumeral digits then return some (← Integer.readNumeral digits) else return none

/-- A text, or null when it is empty. -/
def textOrNull (s : String) : Value := if s = "" then .null else .text s

/-- A list of texts, or null when it is empty. -/
def textsOrNull (texts : List String) : Value :=
  if texts.isEmpty then .null else .list (texts.map .text)

/-- A bound that may be missing. -/
def boundOrNull (b : Option Bound) : Value := (b.map Bound.toValue).getD .null

namespace Field

/-- The constraints that the kind of a field supports. -/
def constraints (f : Field) : List (String × Value) :=
  (if f.kind.hasOptions then [("options", textsOrNull f.options)] else []) ++
  (if f.kind.hasMaxLength then [("max_length", Value.ofInt? f.maxLength)] else []) ++
  (if f.kind.hasBounds then
    [("min_value", boundOrNull f.minValue), ("max_value", boundOrNull f.maxValue)] else []) ++
  (if f.kind.hasFileLimits then
    [("allowed_file_types", textsOrNull f.fileTypes), ("max_file_size", Value.ofInt? f.maxFileSize)]
    else [])

/-- The document entry of a field. -/
def toEntry (f : Field) (order : Nat) (stepKey : String) : Except Fault Record := do
  let logic ← RuleGroup.toValue f.logic
  return .ofNames ([("field_name", .text f.name), ("label", .text f.label),
      ("field_type", .text f.kind.documentName), ("is_required", .bool f.required),
      ("help_text", textOrNull f.helpText), ("order", .int order)] ++
    f.constraints ++
    [("conditional_logic", logic), ("column_span", .int f.span), ("step_key", .text stepKey)])

/-- The reference of a step to one of its fields. -/
def toReference (f : Field) : Value :=
  .object [("field_name", .text f.name), ("column_span", .int f.span)]

end Field

namespace Step

/-- The document entries of the fields of a step. -/
def fieldEntries (index : Nat) (s : Step) : Except Fault (List Value) :=
  mapFrom (fun i f => do return .object (← f.toEntry (orderNumber index i) s.key)) 0 s.fields

/-- The document entry of a step. -/
def toEntry (index : Nat) (s : Step) : Except Fault Value := do
  let logic ← RuleGroup.toValue s.logic
  return .object [("key", .text s.key), ("title", .text s.title),
    ("description", .text s.description), ("order", .int (index + 1)),
    ("per_participant", .bool s.perParticipant),
    ("layout", .object [("columns", .int s.columns)]),
    ("conditional_logic", logic), ("fields", .list (s.fields.map Field.toReference))]

/-- The fields of the step run into the order numbers of the next one. -/
def isOverfull (s : Step) : Bool := decide (orderStride ≤ s.fields.length)

/-- The notice about an overfull step. -/
def overfullNotice (s : Step) : String :=
  "Step " ++ Text.quote s.key ++ " has " ++ toString s.fields.length ++
    " fields; orders overflow into the next step's bucket"

end Step

namespace Form

/-- The document of a form that is in normal form. -/
def documentOfNormal (form : Form) : Except Fault Record := do
  let parts ← mapFrom (fun i s => do
    let entries ← s.fieldEntries i
    let entry ← s.toEntry i
    return (entries, entry)) 0 form.steps
  let program ← programNumber? (.text form.program)
  return [("program", Value.ofInt? program), ("title", .text form.name),
    ("description", .text form.description),
    ("layout_config", .object [("columns", .int form.columns)]),
    ("steps", .list (parts.map Prod.snd)), ("fields", .list (parts.flatMap Prod.fst))]

/-- The document that a form is saved as. -/
def toDocument (form : Form) : Except Fault Record := do
  documentOfNormal (← form.normalize)

/-- The overfull steps of a form in normal form. -/
def overfullSteps (form : Form) : List Step := form.steps.filter Step.isOverfull

/-- The document of a form with the notices about its overfull steps. -/
def save (form : Form) : Except Fault (Record × List String) := do
  let normal ← form.normalize
  let document ← normal.documentOfNormal
  return (document, normal.overfullSteps.map Step.overfullNotice)

end Form

end ConditionalForms
