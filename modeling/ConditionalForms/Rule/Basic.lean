import ConditionalForms.Rule.Operator
import ConditionalForms.Value.Basic

/-!
# Rules and groups of rules

A rule names an answer by a path, an operator and an operand.  A group is a flat list of rules under
one mode; groups do not nest.  A step or a field carries at most one group, and none means no
restriction.
-/

namespace ConditionalForms

/-- One comparison of an answer, found by its path, with an operand. -/
structure Rule where
  path : String
  operator : Operator
  operand : Value

/-- A change of some parts of a rule. -/
structure RuleChange where
  path? : Option String
  operator? : Option Operator
  operand? : Option Value

/-- The rule with the given parts replaced. -/
def Rule.change (r : Rule) (c : RuleChange) : Rule :=
  ⟨c.path?.getD r.path, c.operator?.getD r.operator, c.operand?.getD r.operand⟩

/-- Rules under one mode. -/
structure RuleGroup where
  mode : Mode
  rules : List Rule

/-- Applies a function to the item at a position, if there is one. -/
def changeAt {α : Type} (f : α → α) (index : Int) (xs : List α) : List α :=
  match index with
  | .ofNat i => xs.modify i f
  | .negSucc _ => xs

/-- Leaves out the item at a position, if there is one. -/
def dropAt {α : Type} (index : Int) (xs : List α) : List α :=
  match index with
  | .ofNat i => xs.eraseIdx i
  | .negSucc _ => xs

namespace RuleGroup

/-- The group has no rules. -/
def isEmpty (g : RuleGroup) : Bool := g.rules.isEmpty

/-- The group with a further rule at its end. -/
def add (g : RuleGroup) (r : Rule) : RuleGroup := { g with rules := g.rules ++ [r] }

/-- The group without the rule at a position; no rule has a negative position. -/
def removeAt (g : RuleGroup) (index : Int) : RuleGroup :=
  { g with rules := dropAt index g.rules }

/-- The group with the rule at a position changed. -/
def changeRule (g : RuleGroup) (index : Int) (c : RuleChange) : RuleGroup :=
  { g with rules := changeAt (·.change c) index g.rules }

end RuleGroup

end ConditionalForms
