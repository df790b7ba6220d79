import ConditionalForms.Form.Basic
import ConditionalForms.Form.Grid
import ConditionalForms.Sequence

/-!
# Changes of attributes

A change gives one attribute of a form, a step or a field a new value.  An attribute that the
subject does not have makes the whole list of changes a fault, which names all such attributes.
Widths and spans may be given as any value; they are brought into range.
-/

namespace ConditionalForms

/-- A change of the form itself. -/
inductive FormChange where
  | name (s : String)
  | description (s : String)
  | program (s : String)
  | other (what : String)

/-- A change of a step. -/
inductive StepChange where
  | key (s : String)
  | title (s : String)
  | description (s : String)
  | perParticipant (b : Bool)
  | columns (v : Value)
  | logic (g : Option RuleGroup)
  | other (what : String)

/-- A change of a field.  The kind is given by its name, and a missing name asks for a derived
one. -/
inductive FieldChange where
  | name (s : Option String)
  | label (s : String)
  | kind (name : String)
  | required (b : Bool)
  | helpText (s : String)
  | options (texts : List String)
  | maxLength (n : Option Int)
  | minValue (b : Option Bound)
  | maxValue (b : Option Bound)
  | fileTypes (texts : List String)
  | maxFileSize (n : Option Int)
  | span (v : Value)
  | logic (g : Option RuleGroup)
  | other (what : String)

namespace FormChange

/-- The attribute that a form does not have. -/
def unknown? : FormChange → Option String
  | .other what => some what
  | _ => none

/-- The form after one change. -/
def apply (form : Form) : FormChange → Form
  | .name s => { form with name := s }
  | .description s => { form with description := s }
  | .program s => { form with program := s }
  | .other _ => form

end FormChange

namespace StepChange

/-- The attribute that a step does not have. -/
def unknown? : StepChange → Option String
  | .other what => some what
  | _ => none

/-- The width that a change asks for. -/
def columns? : StepChange → Option Value
  | .columns v => some v
  | _ => none

/-- The step after one change; its width is left for later. -/
def apply (s : Step) : StepChange → Step
  | .key t => { s with key := t }
  | .title t => { s with title := t }
  | .description t => { s with description := t }
  | .perParticipant b => { s with perParticipant := b }
  | .logic g => { s with logic := g }
  | .columns _ => s
  | .other _ => s

end StepChange

namespace FieldChange

/-- The attribute that a field does not have. -/
def unknown? : FieldChange → Option String
  | .other what => some what
  | _ => none

/-- The attribute that a new field does not take among its changes: its label and kind are given
apart. -/
def unknownToNew? : FieldChange → Option String
  | .other what => some what
  | .label _ => some "label"
  | .kind _ => some "type"
  | _ => none

/-- The name that a change asks for. -/
def name? : FieldChange → Option (Option String)
  | .name s => some s
  | _ => none

/-- The label that a change gives. -/
def label? : FieldChange → Option String
  | .label s => some s
  | _ => none

/-- The name of the kind that a change gives. -/
def kind? : FieldChange → Option String
  | .kind s => some s
  | _ => none

/-- The span that a change asks for. -/
def span? : FieldChange → Option Value
  | .span v => some v
  | _ => none

/-- The field after one change; its name, kind and span are left for later. -/
def apply (f : Field) : FieldChange → Field
  | .label s => { f with label := s }
  | .required b => { f with required := b }
  | .helpText s => { f with helpText := s }
  | .options texts => { f with options := texts }
  | .maxLength n => { f with maxLength := n }
  | .minValue b => { f with minValue := b }
  | .maxValue b => { f with maxValue := b }
  | .fileTypes texts => { f with fileTypes := texts }
  | .maxFileSize n => { f with maxFileSize := n }
  | .logic g => { f with logic := g }
  | .name _ => f
  | .kind _ => f
  | .span _ => f
  | .other _ => f

end FieldChange

/-- Refuses attributes that a subject does not have, naming them in ascending order. -/
def refuseUnknown (subject : Subject) (names : List String) : Except Fault Unit :=
  if names.isEmpty then .ok ()
  else .error (.unknownAttributes subject
    (names.eraseDups.mergeSort fun a b => decide (a ≤ b)))

/-- The last of the results that are there. -/
def lastOf? {α β : Type} (f : α → Option β) (xs : List α) : Option β :=
  (xs.filterMap f).getLast?

end ConditionalForms
