import ConditionalForms.Form.Kind
import ConditionalForms.Rule.Basic
import ConditionalForms.Value.Number

/-!
# Forms

A form is a list of steps, each of them a page of fields.  A step is shown once, or once for every
participant.  Steps and fields may carry a restriction, a group of rules that decides whether they
are shown.

Fields are held in order within their steps; `Form.placedFields` lists them with the positions of
their steps.
-/

namespace ConditionalForms

/-- The width of a grid where none is given. -/
def defaultColumns : Int := 4

/-- One input of a form. -/
structure Field where
  id : String
  name : String
  label : String
  kind : FieldKind
  required : Bool
  helpText : String
  options : List String
  maxLength : Option Int
  minValue : Option Bound
  maxValue : Option Bound
  fileTypes : List String
  maxFileSize : Option Int
  span : Int
  logic : Option RuleGroup

namespace Field

/-- A text field without constraints. -/
def plain (id name label : String) : Field :=
  { id := id, name := name, label := label, kind := .text, required := false, helpText := "",
    options := [], maxLength := none, minValue := none, maxValue := none, fileTypes := [],
    maxFileSize := none, span := defaultColumns, logic := none }

end Field

/-- One page of a form. -/
structure Step where
  id : String
  key : String
  title : String
  description : String
  fields : List Field
  perParticipant : Bool
  columns : Int
  logic : Option RuleGroup

/-- A form of several steps. -/
structure Form where
  name : String
  description : String
  program : String
  columns : Int
  steps : List Step

namespace Step

/-- The first field with an identifier. -/
def field? (s : Step) (id : String) : Option Field := s.fields.find? fun f => f.id = id

end Step

namespace Form

/-- The form without steps. -/
def empty : Form := ⟨"", "", "", defaultColumns, []⟩

/-- The steps with their positions. -/
def placedSteps (form : Form) : List (Nat × Step) :=
  form.steps.zipIdx.map fun (s, i) => (i, s)

/-- The fields in order, each with the position of its step and the step. -/
def placedFields (form : Form) : List (Nat × Step × Field) :=
  form.placedSteps.flatMap fun (i, s) => s.fields.map fun f => (i, s, f)

/-- The fields in order. -/
def fields (form : Form) : List Field := form.steps.flatMap Step.fields

/-- The names of the fields in order. -/
def fieldNames (form : Form) : List String := form.fields.map Field.name

/-- The first step with an identifier or key. -/
def step? (form : Form) (id : String) : Option Step :=
  form.steps.find? fun s => s.id = id || s.key = id

/-- The first field with a name. -/
def fieldNamed? (form : Form) (name : String) : Option Field :=
  form.fields.find? fun f => f.name = name

/-- The position of the step that holds the first field with a name. -/
def stepOfField? (form : Form) (name : String) : Option Nat :=
  (form.placedFields.find? fun p => p.2.2.name = name).map Prod.fst

end Form

end ConditionalForms
