import ConditionalForms.Form.Basic
import ConditionalForms.Form.Grid
import ConditionalForms.Rule.Clean
import ConditionalForms.Sequence

/-!
# Normal form of a form

Before a form is saved, and after one is loaded, it is brought into normal form: widths and spans
are in range, blank names, keys and titles are filled in, empty options are dropped and rules are
clean, those of steps without the numeric operators.  Repeated names are left as they are.
-/

namespace ConditionalForms

/-- The first of two texts unless it is empty. -/
def orElseText (s t : String) : String := if s = "" then t else s

/-- The distance between the order numbers of the first fields of two neighbouring steps. -/
def orderStride : Nat := 100

/-- The order number of a field, from the position of its step and its own. -/
def orderNumber (stepIndex fieldIndex : Nat) : Nat := stepIndex * orderStride + fieldIndex + 1

namespace Field

/-- The normal form of a field in a step of some columns; `number` is for a placeholder name. -/
def normalize (f : Field) (columns : Int) (number : Nat) : Except Fault Field := do
  let name := orElseText (Text.trim f.name) (orElseText (Name.slug f.label)
    (Name.placeholder number))
  let span ← Grid.span (.int f.span) columns
  let logic ← RuleGroup.cleanLogic Operator.allowedOnFields f.logic
  return { f with
    id := orElseText f.id name, name := name, options := f.options.filter (· ≠ ""),
    span := span, logic := logic }

end Field

namespace Step

/-- The title of a step that has none. -/
def defaultTitle (index : Nat) : String := "Step " ++ toString (index + 1)

/-- The key of a step that has none. -/
def defaultKey (index : Nat) : String := "step-" ++ toString (index + 1)

/-- The normal form of the step at a position. -/
def normalize (index : Nat) (s : Step) : Except Fault Step := do
  let key := orElseText s.key (orElseText s.id (defaultKey index))
  let columns ← Grid.columnCount (.int s.columns)
  let fields ← mapFrom (fun i f => f.normalize columns (orderNumber index i)) 0 s.fields
  let logic ← RuleGroup.cleanLogic Operator.allowedOnSteps s.logic
  return { s with
    id := orElseText s.id key, key := key, title := orElseText s.title (defaultTitle index),
    fields := fields, columns := columns, logic := logic }

end Step

namespace Form

/-- The normal form of a form. -/
def normalize (form : Form) : Except Fault Form := do
  let steps ← mapFrom Step.normalize 0 form.steps
  let columns ← Grid.columnCount (.int form.columns)
  return { form with steps := steps, columns := columns }

end Form

end ConditionalForms
