import ConditionalForms.Rule.Basic
import ConditionalForms.Sequence
import ConditionalForms.Text.Blank
import ConditionalForms.Value.Text

/-!
# Clean rules

Rules come from documents and authors in any state.  Reading them is tolerant: what is no rule is
skipped.  Cleaning drops the rules with a blank path, an operator outside the allowed ones or an
operand that is needed and empty, and a group that loses all its rules becomes no restriction.

A cleaned rule has a trimmed path; its operand is a nonempty text, or null when the operator takes
none.
-/

namespace ConditionalForms

/-- The operand of a rule as a text; null is empty. -/
def Value.operandText (v : Value) : Except Fault Value := do
  return .text (← v.answerText)

namespace Rule

/-- Reads a rule from a document; an entry without a path or a known operator is none. -/
def ofValue? : Value → Except Fault (Option Rule)
  | .object members => do
      let path := match Record.get members "field" with
        | .text s => Text.trim s
        | _ => ""
      let operator? := match Record.get members "op" with
        | .text s => Operator.ofSymbol? s
        | _ => none
      match operator? with
      | none => return none
      | some op =>
          if path = "" then return none
          let operand ← if op.needsOperand then (Record.get members "value").operandText
            else pure .null
          return some ⟨path, op, operand⟩
  | _ => .ok none

/-- The clean form of a rule, absent when the rule is dropped. -/
def clean? (allowed : Operator → Bool) (r : Rule) : Except Fault (Option Rule) := do
  let path := Text.trim r.path
  if path = "" ∨ !allowed r.operator then return none
  if r.operator.needsOperand then
    let operand ← r.operand.answerText
    if operand = "" then return none
    return some ⟨path, r.operator, .text operand⟩
  return some ⟨path, r.operator, .null⟩

end Rule

namespace RuleGroup

/-- A group of rules, or no restriction when there are none. -/
def ofRules? (mode : Mode) (rules : List Rule) : Option RuleGroup :=
  if rules.isEmpty then none else some ⟨mode, rules⟩

/-- Reads a restriction from a document. -/
def ofValue? : Value → Except Fault (Option RuleGroup)
  | .object members => match Record.get members "rules" with
    | .list entries => do
        let rules ← collect Rule.ofValue? entries
        let mode := match Record.get members "mode" with
          | .text s => if s = "any" then Mode.any else .all
          | _ => .all
        return ofRules? mode rules
    | _ => .ok none
  | _ => .ok none

/-- The clean form of a group under the allowed operators. -/
def clean? (allowed : Operator → Bool) (g : RuleGroup) : Except Fault (Option RuleGroup) := do
  return ofRules? g.mode (← collect (Rule.clean? allowed) g.rules)

/-- The clean form of a restriction. -/
def cleanLogic (allowed : Operator → Bool) : Option RuleGroup → Except Fault (Option RuleGroup)
  | none => .ok none
  | some g => g.clean? allowed

/-- A rule as a member of a document; a missing operand is left out. -/
def ruleToValue (r : Rule) : Value :=
  .object (("field", .text r.path) :: ("op", .text r.operator.symbol) ::
    if r.operand.isNull then [] else [("value", r.operand)])

/-- A restriction as a member of a document, null when nothing is left after cleaning. -/
def toValue (logic : Option RuleGroup) : Except Fault Value := do
  match ← cleanLogic Operator.allowedOnFields logic with
  | none => return .null
  | some g =>
      return .object [("mode", .text g.mode.symbol), ("rules", .list (g.rules.map ruleToValue))]

end RuleGroup

end ConditionalForms
