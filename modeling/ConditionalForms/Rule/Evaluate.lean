import ConditionalForms.Rule.Basic
import ConditionalForms.Rule.Path
import ConditionalForms.Value.Number
import ConditionalForms.Value.Text

/-!
# Evaluation of rules

Equality and containment compare answer texts, the four orderings compare numeric forms and fail
when either side has none, and the two emptiness operators look at the answer text alone.

Every rule of a group is evaluated, so a rule that cannot be evaluated is a fault of its group
whatever the other rules say.
-/

namespace ConditionalForms

/-- The first list occurs in the second as a run of neighbours. -/
def occursIn (needle : List Char) : List Char → Bool
  | [] => needle.isEmpty
  | c :: cs => needle.isPrefixOf (c :: cs) || occursIn needle cs

namespace Value

/-- The answer text of the value is blank. -/
def isBlank (v : Value) : Except Fault Bool := do
  return Text.isAllBlank (← v.answerText)

/-- The answer text of `needle` is that of an item of a list, or occurs in that of another value. -/
def containsText (v needle : Value) : Except Fault Bool := do
  let wanted ← needle.answerText
  match v with
  | .list items => do
      let texts ← answerTexts items
      return texts.contains wanted
  | _ => do
      let hay ← v.answerText
      return occursIn wanted.toList hay.toList

/-- Compares numeric forms; false when either side has none. -/
def compareMeasures (test : Double → Double → Bool) (v w : Value) : Except Fault Bool := do
  let x ← v.measure
  let y ← w.measure
  return test x y

end Value

namespace Operator

/-- An operator applied to the value at a path and the operand of a rule. -/
def apply (op : Operator) (left right : Value) : Except Fault Bool :=
  match op with
  | .isEmpty => left.isBlank
  | .notEmpty => do return !(← left.isBlank)
  | .equals => do
      let l ← left.answerText
      let r ← right.answerText
      return l == r
  | .notEquals => do
      let l ← left.answerText
      let r ← right.answerText
      return l != r
  | .contains => left.containsText right
  | .greater => left.compareMeasures (fun x y => y.lt x) right
  | .greaterEqual => left.compareMeasures (fun x y => y.le x) right
  | .less => left.compareMeasures Double.lt right
  | .lessEqual => left.compareMeasures Double.le right

end Operator

namespace Rule

/-- The rule is satisfied in a context. -/
def holds (r : Rule) (ctx : Context) : Except Fault Bool := do
  let v ← Path.resolve r.path ctx
  r.operator.apply v r.operand

end Rule

namespace RuleGroup

/-- The group is satisfied in a context; a group without rules always is. -/
def holds (g : RuleGroup) (ctx : Context) : Except Fault Bool := do
  if g.rules.isEmpty then return true
  let results ← g.rules.mapM (·.holds ctx)
  match g.mode with
  | .all => return results.all id
  | .any => return results.any id

/-- The restriction is satisfied in a context; no restriction always is. -/
def allows (logic : Option RuleGroup) (ctx : Context) : Except Fault Bool :=
  match logic with
  | none => .ok true
  | some g => g.holds ctx

end RuleGroup

end ConditionalForms
