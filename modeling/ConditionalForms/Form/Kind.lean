import ConditionalForms.Form.Name

/-!
# Kinds of fields

The eleven kinds of fields, what each of them supports, and their two spellings: the one authors
use and the one documents use.  They differ for telephone numbers and for selections.

**Results.**
* `FieldKind.ofEitherName?_documentName`: every kind is read back from its document name.
-/

namespace ConditionalForms

/-- The kinds of fields. -/
inductive FieldKind where
  | text
  | email
  | tel
  | number
  | date
  | url
  | textarea
  | select
  | checkbox
  | radio
  | file
deriving DecidableEq, Repr

namespace FieldKind

/-- All kinds. -/
def all : List FieldKind :=
  [.text, .email, .tel, .number, .date, .url, .textarea, .select, .checkbox, .radio, .file]

/-- The name of a kind for authors. -/
def name : FieldKind → String
  | .text => "text"
  | .email => "email"
  | .tel => "tel"
  | .number => "number"
  | .date => "date"
  | .url => "url"
  | .textarea => "textarea"
  | .select => "select"
  | .checkbox => "checkbox"
  | .radio => "radio"
  | .file => "file"

/-- The name of a kind in documents. -/
def documentName : FieldKind → String
  | .tel => "phone"
  | .select => "dropdown"
  | k => k.name

/-- An answer is chosen from options. -/
def hasOptions : FieldKind → Bool
  | .select => true
  | .checkbox => true
  | .radio => true
  | _ => false

/-- An answer is a number between bounds. -/
def hasBounds : FieldKind → Bool
  | .number => true
  | _ => false

/-- An answer is a text of limited length. -/
def hasMaxLength : FieldKind → Bool
  | .text => true
  | .email => true
  | .tel => true
  | .url => true
  | .textarea => true
  | _ => false

/-- An answer is a file of limited type and size. -/
def hasFileLimits : FieldKind → Bool
  | .file => true
  | _ => false

/-- An answer is a list of options. -/
def isMultiple : FieldKind → Bool
  | .checkbox => true
  | _ => false

/-- The kind of an authoring name. -/
def ofName? (s : String) : Option FieldKind := all.find? fun k => k.name = s

/-- The kind of an authoring name that must be one. -/
def ofName (s : String) : Except Fault FieldKind :=
  match ofName? s with
  | some k => .ok k
  | none => .error (.unknownName .fieldKinds s)

/-- The kind of a name of either spelling, in any case and with blanks around it. -/
def ofEitherName? (s : String) : Option FieldKind :=
  let t := String.ofList ((Text.trim s).toList.flatMap Name.lower)
  all.find? fun k => k.name = t || k.documentName = t

theorem ofEitherName?_documentName (k : FieldKind) : ofEitherName? k.documentName = some k := by
  cases k <;> decide +kernel

end FieldKind
end ConditionalForms
