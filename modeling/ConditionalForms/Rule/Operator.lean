import ConditionalForms.Fault

/-!
# Operators of rules

The nine comparisons that a rule may make.  Two of them look at the answer alone and take no
operand; four of them compare numbers and are reserved for the rules of fields.

**Results.**
* `Operator.ofSymbol?_symbol`: every operator is read back from its symbol.
-/

namespace ConditionalForms

/-- A comparison of an answer with an operand. -/
inductive Operator where
  | equals
  | notEquals
  | contains
  | isEmpty
  | notEmpty
  | greater
  | greaterEqual
  | less
  | lessEqual
deriving DecidableEq, Repr

namespace Operator

/-- All operators. -/
def all : List Operator :=
  [.equals, .notEquals, .contains, .isEmpty, .notEmpty, .greater, .greaterEqual, .less, .lessEqual]

/-- The spelling of an operator in documents. -/
def symbol : Operator → String
  | .equals => "equals"
  | .notEquals => "not_equals"
  | .contains => "contains"
  | .isEmpty => "is_empty"
  | .notEmpty => "not_empty"
  | .greater => ">"
  | .greaterEqual => ">="
  | .less => "<"
  | .lessEqual => "<="

/-- The operator of a spelling. -/
def ofSymbol? (s : String) : Option Operator := all.find? fun op => op.symbol = s

/-- The operator of a spelling that must be one. -/
def ofSymbol (s : String) : Except Fault Operator :=
  match ofSymbol? s with
  | some op => .ok op
  | none => .error (.unknownName .operators s)

/-- The operator compares with an operand. -/
def needsOperand : Operator → Bool
  | .isEmpty => false
  | .notEmpty => false
  | _ => true

/-- The operator compares numbers. -/
def isNumeric : Operator → Bool
  | .greater => true
  | .greaterEqual => true
  | .less => true
  | .lessEqual => true
  | _ => false

/-- The rules of a field may use every operator. -/
def allowedOnFields : Operator → Bool := fun _ => true

/-- The rules of a step may not compare numbers. -/
def allowedOnSteps (op : Operator) : Bool := !op.isNumeric

theorem ofSymbol?_symbol (op : Operator) : ofSymbol? op.symbol = some op := by
  cases op <;> decide

end Operator

/-- How the results of the rules of a group are put together. -/
inductive Mode where
  | all
  | any
deriving DecidableEq, Repr

namespace Mode

/-- The spelling of a mode in documents. -/
def symbol : Mode → String
  | .all => "all"
  | .any => "any"

/-- The mode of a spelling that must be one. -/
def ofSymbol (s : String) : Except Fault Mode :=
  if s = "all" then .ok .all
  else if s = "any" then .ok .any
  else .error (.unknownName .modes s)

end Mode

end ConditionalForms
