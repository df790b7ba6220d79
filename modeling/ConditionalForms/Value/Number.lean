import ConditionalForms.Number.Integer
import ConditionalForms.Number.Literal
import ConditionalForms.Value.Basic

/-!
# Numeric readings of values

Three readings of a value as a number.  `measure` is the one of rules and answers: a plain decimal
text counts, and what has no numeric form is a NaN.  `extent` is the one of grid widths, where null
counts as zero.  `bound?` is the one of saved constraints, where what is no finite number is
missing and a whole number is held as an integer.
-/

namespace ConditionalForms

/-- A bound of a number field. -/
inductive Bound where
  | int (n : Int)
  | float (x : Double)
deriving DecidableEq

namespace Bound

/-- The bound as a value. -/
def toValue : Bound → Value
  | .int n => .int n
  | .float x => .float x

/-- The first bound is strictly greater, compared exactly. -/
def gt : Bound → Bound → Bool
  | .int m, .int n => decide (n < m)
  | .int m, .float y => y.ltInt m
  | .float x, .int n => Double.intLt n x
  | .float x, .float y => y.lt x

/-- A number is strictly below the bound. -/
def exceeds (x : Double) : Bound → Bool
  | .int n => x.ltInt n
  | .float y => x.lt y

/-- A number is strictly above the bound. -/
def fallsBelow (x : Double) : Bound → Bool
  | .int n => Double.intLt n x
  | .float y => y.lt x

end Bound

namespace Value

/-- The double that a value converts to, absent when its kind or its text has none. -/
def double? : Value → Except Fault (Option Double)
  | .bool b => .ok (some (if b then Double.one else Double.zero))
  | .int n => do return some (← Integer.toDouble n)
  | .float x => .ok (some x)
  | .text s => .ok (Double.ofText? s)
  | _ => .ok none

/-- The numeric form of an answer or an operand, a NaN when there is none.  Texts count as plain
decimal literals only: without digit separators and without names of infinities. -/
def measure : Value → Except Fault Double
  | .bool b => .ok (if b then Double.one else Double.zero)
  | .int n => Integer.toDouble n
  | .float x => .ok x
  | .text s =>
      let t := Text.trim s
      if t = "" ∨ t.toList.contains '_' then .ok .nan
      else match Double.ofText? t with
        | some x => .ok (if x.isFinite then x else .nan)
        | none => .ok .nan
  | _ => .ok .nan

/-- The size that a value asks for: null is zero, and what has no numeric form is a NaN. -/
def extent : Value → Except Fault Double
  | .null => .ok Double.zero
  | v => do return (← v.double?).getD .nan

/-- The number that a saved constraint gives; truth values and what is not finite count as
missing. -/
def bound? : Value → Except Fault (Option Bound)
  | .null => .ok none
  | .bool _ => .ok none
  | v => do
      match ← v.double? with
      | none => return none
      | some x =>
          if !x.isFinite then return none
          match x.integer? with
          | some n => return some (.int n)
          | none => return some (.float x)

/-- The integer part of the number that a saved constraint gives. -/
def wholeBound? (v : Value) : Except Fault (Option Int) := do
  match ← v.bound? with
  | none => return none
  | some (.int n) => return some n
  | some (.float x) => return x.truncate?

end Value

end ConditionalForms
