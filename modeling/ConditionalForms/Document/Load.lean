import ConditionalForms.Document.Save

/-!
# Loading a form

Documents come in three shapes, which are told apart by their `fields` and `steps` members.

* `structured`: the shape forms are saved in; steps refer to fields of one common list.
* `nested`: every step holds the full records of its fields.
* `flat`: there are only fields; steps are rebuilt from the order numbers.

The members of a document may have any kind.  What has no use is skipped or counts as missing; a
document or a list of members that is no such thing is a fault.  What is loaded is brought into
normal form afterwards.

**Definitions.**
* `Form.ofDocument`: the form of a document, with the warnings that loading gave.
-/

namespace ConditionalForms

/-- Something loaded, with the warnings that loading it gave. -/
structure Loaded (α : Type) where
  value : α
  warnings : List String

/-- The shapes of documents. -/
inductive Shape where
  | structured
  | nested
  | flat
deriving DecidableEq, Repr

namespace Shape

/-- The name of a shape. -/
def name : Shape → String
  | .structured => "structure"
  | .nested => "builder"
  | .flat => "flat"

/-- The shape of a document. -/
def ofRecord (r : Record) : Except Fault Shape :=
  match r.get "steps", r.get "fields" with
  | .list (_ :: _), .list _ => .ok .structured
  | steps, _ =>
      let isNested := match steps with
        | .list (_ :: _) => !r.has "fields"
        | _ => false
      if isNested then .ok .nested
      else if steps.isTruthy then .error .unknownShape
      else .ok .flat

end Shape

namespace Record

/-- The first value that is not null under the given names, or `default`. -/
def firstOf (r : Record) (names : List String) (default : Value) : Value :=
  match names with
  | [] => default
  | name :: rest => match r.get name with
    | .null => r.firstOf rest default
    | v => v

/-- The list under a name, empty for null. -/
def listOf (r : Record) (name : String) : Except Fault (List Value) :=
  match r.get name with
  | .null => .ok []
  | .list items => .ok items
  | v => .error (.memberNotList name v.kindName)

/-- The text of a member, empty when it stands for nothing. -/
def textOf (r : Record) (name : String) : Except Fault String :=
  let v := r.get name
  if v.isTruthy then v.plainText else .ok ""

end Record

namespace Value

/-- The texts of the items of a list, without null and empty ones; other values have none. -/
def texts : Value → Except Fault (List String)
  | .list items => (items.filter fun v => match v with
      | .null => false
      | .text s => s ≠ ""
      | _ => true).mapM plainText
  | _ => .ok []

end Value

/-- The program text of a document. -/
def programText (r : Record) : Except Fault String :=
  let program := match r.get "program" with
    | .object members => Record.get members "id"
    | v => v
  match program with
  | .null => .ok ""
  | v => v.plainText

namespace Field

/-- The label of a field record. -/
def labelOf (r : Record) : Except Fault String :=
  (r.firstOf ["label", "name"] (.text "Field")).plainText

/-- The kind given by a field record. -/
def kindValue (r : Record) : Value := r.firstOf ["field_type", "type"] (.text "text")

/-- The kind of a field record, absent when it is unknown. -/
def kindOf? (r : Record) : Option FieldKind :=
  match kindValue r with
  | .text s => FieldKind.ofEitherName? s
  | _ => none

/-- The warnings about a field record: its kind may be unknown. -/
def recordWarnings (r : Record) : Except Fault (List String) := do
  let label ← labelOf r
  match kindOf? r with
  | some _ => return []
  | none =>
      let kind ← (kindValue r).literal
      return ["Unknown field type " ++ kind ++ " for " ++ Text.quote label ++ "; loading as text"]

/-- The name of a field record, from its label or `fallback` when it has none. -/
def nameOf (r : Record) (label fallback : String) : Except Fault String := do
  return orElseText (Text.trim (← r.textOf "field_name")) (orElseText (Name.slug label) fallback)

/-- The field of a record, in a step of some columns. -/
def ofRecord (r : Record) (columns : Int) (fallback : String) : Except Fault Field := do
  let label ← labelOf r
  let name ← nameOf r label fallback
  let helpText ← (r.firstOf ["help_text", "helpText"] (.text "")).plainText
  let options ← (r.get "options").texts
  let maxLength ← (r.get "max_length").wholeBound?
  let minValue ← (r.get "min_value").bound?
  let maxValue ← (r.get "max_value").bound?
  let fileTypes ← (r.get "allowed_file_types").texts
  let maxFileSize ← (r.get "max_file_size").wholeBound?
  let span ← Grid.span (r.firstOf ["column_span", "columnSpan"] .null) columns
  let logic ← RuleGroup.ofValue? (r.firstOf ["conditional_logic", "conditionalLogic"] .null)
  return { id := name, name := name, label := label, kind := (kindOf? r).getD .text,
           required := (r.firstOf ["is_required", "required"] (.bool false)).isTruthy,
           helpText := helpText, options := options, maxLength := maxLength, minValue := minValue,
           maxValue := maxValue, fileTypes := fileTypes, maxFileSize := maxFileSize, span := span,
           logic := logic }

/-- The field of a record with the warnings about it. -/
def load (r : Record) (columns : Int) (fallback : String) : Except Fault (Loaded Field) := do
  let warnings ← recordWarnings r
  let field ← ofRecord r columns fallback
  return ⟨field, warnings⟩

end Field

namespace Step

/-- The columns of a step record, those of the form when it gives none. -/
def columnsOf (r : Record) (formColumns : Int) : Except Fault Int :=
  let given := match r.get "layout" with
    | .object layout => Record.get layout "columns"
    | _ => .null
  match given with
  | .null => Grid.columnCount (r.firstOf ["layoutColumns", "layout_columns"] (.int formColumns))
  | v => Grid.columnCount v

/-- The step of a record at a position, with the fields already loaded. -/
def ofRecord (r : Record) (index : Nat) (fields : List Field) (columns : Int) :
    Except Fault Step := do
  let given := r.firstOf ["key", "id"] (.text "")
  let key ← if given.isTruthy then given.plainText else pure (defaultKey index)
  let id ← (r.firstOf ["id"] (.text key)).plainText
  let title ← (r.firstOf ["title"] (.text (defaultTitle index))).plainText
  let description ← (r.firstOf ["description"] (.text "")).plainText
  let logic ← RuleGroup.ofValue? (r.firstOf ["conditional_logic", "conditionalLogic"] .null)
  return { id := id, key := key, title := title, description := description, fields := fields,
           perParticipant :=
             (r.firstOf ["per_participant", "perParticipant"] (.bool true)).isTruthy,
           columns := columns, logic := logic }

end Step

/-- Loads the records among some values, each with its position among all of them. -/
def loadRecords {α : Type} (load : Nat → Record → Except Fault (Loaded α)) :
    Nat → List Value → Except Fault (Loaded (List α))
  | _, [] => .ok ⟨[], []⟩
  | i, .object r :: rest => do
      let x ← load i r
      let xs ← loadRecords load (i + 1) rest
      return ⟨x.value :: xs.value, x.warnings ++ xs.warnings⟩
  | i, _ :: rest => loadRecords load (i + 1) rest

namespace Structured

/-- The named records of the common list of fields; the first one with a name counts. -/
def namedRecords : List Value → Except Fault (List (String × Record))
  | [] => .ok []
  | .object r :: rest => do
      let given := Record.get r "field_name"
      if given.isTruthy then
        let name ← given.plainText
        let named ← namedRecords rest
        return (name, r) :: named
      else namedRecords rest
  | _ :: rest => namedRecords rest

/-- The record that a reference stands for, with the span that the reference gives. -/
def referent (named : List (String × Record)) (name : String) (reference : Record) : Record :=
  let source := match named.find? fun p => p.1 = name with
    | some p => p.2
    | none => reference
  match reference.get "column_span" with
  | .null => source
  | span => source.set "column_span" span

/-- The field of a reference, with the name it refers to. -/
def loadReference (named : List (String × Record)) (columns : Int) (stepIndex fieldIndex : Nat)
    (reference : Record) : Except Fault (Loaded (String × Field)) := do
  let name ← reference.textOf "field_name"
  let loaded ← Field.load (referent named name reference) columns
    (Name.placeholder (orderNumber stepIndex fieldIndex))
  return ⟨(name, loaded.value), loaded.warnings⟩

/-- Steps under construction: the steps so far, the names that are placed and the warnings. -/
structure Progress where
  steps : List Step
  placed : List String
  warnings : List String

/-- Loads the steps with the fields that they refer to. -/
def loadSteps (named : List (String × Record)) (formColumns : Int) :
    Nat → Progress → List Value → Except Fault Progress
  | _, p, [] => .ok p
  | i, p, .object r :: rest => do
      let columns ← Step.columnsOf r formColumns
      let references ← Record.listOf r "fields"
      let fields ← loadRecords (loadReference named columns i) 0 references
      let step ← Step.ofRecord r p.steps.length (fields.value.map Prod.snd) columns
      loadSteps named formColumns (i + 1)
        ⟨p.steps ++ [step], p.placed ++ fields.value.map Prod.fst, p.warnings ++ fields.warnings⟩
        rest
  | i, p, _ :: rest => loadSteps named formColumns (i + 1) p rest

/-- The position of the step with a key. -/
def stepWithKey? (steps : List Step) (key : Value) : Option Nat :=
  match key with
  | .text k => steps.findIdx? fun s => s.key = k
  | _ => none

/-- The position of the step that an order number belongs to, if there is such a step. -/
def stepOfOrder? (steps : List Step) (order : Option Int) : Option Nat :=
  match order with
  | none => none
  | some n =>
      let bucket := n / (orderStride : Int)
      if 0 ≤ bucket ∧ bucket < steps.length then some bucket.toNat else none

/-- The position of the step that a field record outside all steps belongs to: the step with its
key, and otherwise the one of its order number. -/
def homeOf? (steps : List Step) (r : Record) : Except Fault (Option Nat) := do
  match stepWithKey? steps (r.get "step_key") with
  | some i => return some i
  | none => return stepOfOrder? steps (← (r.get "order").wholeBound?)

/-- The warning about a field record that belongs to no step. -/
def homelessWarning (r : Record) (name : String) : Except Fault String := do
  let shown ← if name = "" then (r.get "label").literal else pure (Text.quote name)
  return "Field " ++ shown ++ " belongs to no step; skipping it"

/-- Places one field record that no step refers to. -/
def placeRecord (p : Progress) (r : Record) : Except Fault Progress := do
  let name ← r.textOf "field_name"
  if p.placed.contains name then return p
  match ← homeOf? p.steps r with
  | none =>
      let warning ← homelessWarning r name
      return { p with warnings := p.warnings ++ [warning] }
  | some i => match p.steps[i]? with
    | none => return p
    | some step =>
        let loaded ← Field.load r step.columns (Name.placeholder (step.fields.length + 1))
        return ⟨p.steps.modify i fun s => { s with fields := s.fields ++ [loaded.value] },
          p.placed ++ [name], p.warnings ++ loaded.warnings⟩

/-- Places the field records that no step refers to, in order. -/
def placeRest : Progress → List Value → Except Fault Progress
  | p, [] => .ok p
  | p, .object r :: rest => do placeRest (← placeRecord p r) rest
  | p, _ :: rest => placeRest p rest

/-- Loads the steps of a structured document. -/
def load (r : Record) (formColumns : Int) : Except Fault (Loaded (List Step)) := do
  let entries ← r.listOf "fields"
  let named ← namedRecords entries
  let steps ← r.listOf "steps"
  let p ← loadSteps named formColumns 0 ⟨[], [], []⟩ steps
  let done ← placeRest p entries
  return ⟨done.steps, done.warnings⟩

end Structured

namespace Nested

/-- Loads the steps, each with the full records of its fields. -/
def loadSteps (formColumns : Int) :
    Nat → Loaded (List Step) → List Value → Except Fault (Loaded (List Step))
  | _, done, [] => .ok done
  | i, done, .object r :: rest => do
      let columns ← Step.columnsOf r formColumns
      let records ← Record.listOf r "fields"
      let fields ← loadRecords
        (fun j record => Field.load record columns (Name.placeholder (orderNumber i j))) 0 records
      let step ← Step.ofRecord r done.value.length fields.value columns
      loadSteps formColumns (i + 1) ⟨done.value ++ [step], done.warnings ++ fields.warnings⟩ rest
  | i, done, _ :: rest => loadSteps formColumns (i + 1) done rest

/-- Loads the steps of a nested document. -/
def load (r : Record) (formColumns : Int) : Except Fault (Loaded (List Step)) := do
  loadSteps formColumns 0 ⟨[], []⟩ (← r.listOf "steps")

end Nested

namespace Flat

/-- The order number of a field record, zero when it has none. -/
def orderOf (r : Record) : Except Fault Int := do
  return (← (r.get "order").wholeBound?).getD 0

/-- The records among some values, each with its order number. -/
def ordered : List Value → Except Fault (List (Int × Record))
  | [] => .ok []
  | .object r :: rest => do
      let n ← orderOf r
      let more ← ordered rest
      return (n, r) :: more
  | _ :: rest => ordered rest

/-- The bucket of an order number. -/
def bucketOf (n : Int) : Int := n / (orderStride : Int)

/-- Puts a record behind the others of its bucket, or into a bucket of its own. -/
def addToBucket (x : Int × Record) :
    List (Int × List (Int × Record)) → List (Int × List (Int × Record))
  | [] => [(bucketOf x.1, [x])]
  | (b, xs) :: rest =>
      if bucketOf x.1 = b then (b, xs ++ [x]) :: rest else (b, xs) :: addToBucket x rest

/-- The buckets of some records, in the order in which they come up. -/
def collectBuckets (xs : List (Int × Record)) : List (Int × List (Int × Record)) :=
  xs.foldl (fun buckets x => addToBucket x buckets) []

/-- The buckets in ascending order, each with its records in the order of their numbers. -/
def sortedBuckets (xs : List (Int × Record)) : List (Int × List (Int × Record)) :=
  ((collectBuckets xs).mergeSort fun g h => decide (g.1 ≤ h.1)).map fun g =>
    (g.1, g.2.mergeSort fun x y => decide (x.1 ≤ y.1))

/-- The same without the numbers. -/
def buckets (xs : List (Int × Record)) : List (Int × List Record) :=
  (sortedBuckets xs).map fun g => (g.1, g.2.map Prod.snd)

/-- Loads the fields of one bucket as a step. -/
def loadStep (formColumns : Int) (index : Nat) (bucket : Int) (records : List Record) :
    Except Fault (Loaded Step) := do
  let loaded ← mapFrom (fun i r => Field.load r formColumns
    (Name.placeholder (bucket * (orderStride : Int) + (i : Int) + 1))) 0 records
  let key := Step.defaultKey index
  return ⟨{ id := key, key := key, title := Step.defaultTitle index, description := "",
            fields := loaded.map Loaded.value, perParticipant := true, columns := formColumns,
            logic := none },
    loaded.flatMap Loaded.warnings⟩

/-- Loads the steps of a flat document. -/
def load (r : Record) (formColumns : Int) : Except Fault (Loaded (List Step)) := do
  let xs ← ordered (← r.listOf "fields")
  let steps ← mapFrom (fun i g => loadStep formColumns i g.1 g.2) 0 (buckets xs)
  return ⟨steps.map Loaded.value, steps.flatMap Loaded.warnings⟩

end Flat

/-- Loads the steps of a document of some shape. -/
def Shape.load (shape : Shape) : Record → Int → Except Fault (Loaded (List Step)) :=
  match shape with
  | .structured => Structured.load
  | .nested => Nested.load
  | .flat => Flat.load

/-- The warnings that a shape gives by itself: the ones that forms are no longer saved in. -/
def Shape.warnings (shape : Shape) : List String :=
  if shape = .structured then []
  else ["Loading form from legacy '" ++ shape.name ++ "' payload shape"]

namespace Form

/-- The columns of the form of a document. -/
def columnsOf (r : Record) : Except Fault Int :=
  let layout := ((r.get "layout_config").orElse (r.get "layoutConfig"))
  match layout with
  | .object members => Grid.columnCount (Record.firstOf members ["columns"] (.int defaultColumns))
  | _ => Grid.columnCount (.int defaultColumns)

/-- The form of a document before it is brought into normal form. -/
def ofRecord (r : Record) : Except Fault (Loaded Form) := do
  let columns ← columnsOf r
  let shape ← Shape.ofRecord r
  let steps ← shape.load r columns
  let name ← (r.firstOf ["title", "name"] (.text "")).plainText
  let description ← (r.firstOf ["description"] (.text "")).plainText
  let program ← programText r
  return ⟨⟨name, description, program, columns, steps.value⟩, shape.warnings ++ steps.warnings⟩

/-- The form of a document. -/
def ofDocument : Value → Except Fault (Loaded Form)
  | .object r => do
      let loaded ← ofRecord r
      let form ← loaded.value.normalize
      return ⟨form, loaded.warnings⟩
  | v => .error (.documentNotObject v.kindName)

end Form

end ConditionalForms
