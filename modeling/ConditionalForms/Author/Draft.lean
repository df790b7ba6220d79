import ConditionalForms.Author.Edit
import ConditionalForms.Text.Quoted

/-!
# Drafts

A draft is a form being edited, with a count of the identifiers that were given out.  Every new step
or field takes the next one, whether or not it is added in the end.  An edit that fails leaves the
form as it was.

**Results.**
* `Draft.form_perform_of_error`: a failed edit leaves the form as it was.
-/

namespace ConditionalForms

/-- A form being edited. -/
structure Draft where
  form : Form
  issued : Nat

namespace Edit

/-- The word that the identifiers of what the edit adds start with. -/
def idStem : Edit → String
  | .addStep _ => "step"
  | _ => "field"

/-- The edit comes as far as taking an identifier. -/
def takesId (form : Form) : Edit → Bool
  | .addStep _ => true
  | .addField step _ _ changes => match form.stepForNewField step changes with
    | .ok _ => true
    | .error _ => false
  | _ => false

end Edit

namespace Draft

/-- The identifier with a number, written with twelve hexadecimal digits. -/
def idText (stem : String) (n : Nat) : String := stem ++ "-" ++ String.ofList (Text.hex 12 n)

/-- The count of identifiers given out once an edit was tried. -/
def issuedAfter (d : Draft) (e : Edit) : Nat :=
  if e.takesId d.form then d.issued + 1 else d.issued

/-- Makes one edit. -/
def perform (d : Draft) (e : Edit) : Draft × Option Fault :=
  match d.form.edit (idText e.idStem (d.issuedAfter e)) e with
  | .ok form => (⟨form, d.issuedAfter e⟩, none)
  | .error fault => (⟨d.form, d.issuedAfter e⟩, some fault)

/-- The draft after a run of edits. -/
def run (d : Draft) (edits : List Edit) : Draft :=
  edits.foldl (fun d e => (d.perform e).1) d

theorem form_perform_of_error (d : Draft) (e : Edit) (fault : Fault)
    (h : (d.perform e).2 = some fault) : (d.perform e).1.form = d.form := by
  unfold perform at h ⊢
  cases he : d.form.edit (idText e.idStem (d.issuedAfter e)) e with
  | ok form => simp [he] at h
  | error _ => rfl

end Draft

end ConditionalForms
