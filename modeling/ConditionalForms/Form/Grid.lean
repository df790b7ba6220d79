import ConditionalForms.Value.Number

/-!
# The grid of a form

A form, each of its steps and each field take columns of a grid.  A width is between one and four
columns, and a field spans between one column and all columns of its step.  Authors and documents
may give any value for a width; both functions bring it into range.

An integer beyond the finite doubles has no numeric form to bring into range and is a fault.
-/

namespace ConditionalForms
namespace Grid

/-- The greatest width of a grid. -/
def maxColumns : Int := 4

/-- The whole number of columns that a positive finite size holds. -/
def wholeColumns? (x : Double) : Option Int :=
  if x.isFinite && Double.zero.lt x then x.floor? else none

/-- A grid width between one and the greatest; what is not positive and finite gives one. -/
def columnCount (v : Value) : Except Fault Int := do
  match wholeColumns? (← v.extent) with
  | some n => return min maxColumns (max 1 n)
  | none => return 1

/-- A span between one and the number of columns; what is not positive and finite spans them all. -/
def span (v : Value) (columns : Int) : Except Fault Int := do
  match wholeColumns? (← v.extent) with
  | some n => return min columns (max 1 n)
  | none => return max 1 columns

end Grid
end ConditionalForms
