import ConditionalForms.Fault
import ConditionalForms.Number.Double
import ConditionalForms.Text.Digit

/-!
# Integer text

Integers of any size are held, but at most `Integer.digitLimit` digits of one are read from a text
or written to it.

**Results.**
* `Integer.write_eq_ok_iff`: exactly the integers within the limit are written.
-/

namespace ConditionalForms
namespace Integer

/-- The number of digits that may be converted between an integer and its text. -/
def digitLimit : Nat := 4300

/-- The decimal text of an integer. -/
def decimalText (n : Int) : String :=
  let digits := Nat.toDigits 10 n.natAbs
  String.ofList (if n < 0 then '-' :: digits else digits)

/-- Writes an integer in decimal, within the digit limit. -/
def write (n : Int) : Except Fault String :=
  if digitLimit < (Nat.toDigits 10 n.natAbs).length then .error .integerTooLongToWrite
  else .ok (decimalText n)

/-- The values of the decimal digits that a text starts with, up to the first other character. -/
def leadingDigits : List Char → List Nat
  | [] => []
  | c :: cs => match Text.decimalValue? c with
    | some d => d :: leadingDigits cs
    | none => []

/-- Reads a text of digits.  The limit is on the leading decimal digits and comes before the demand
that nothing follows them. -/
def readNumeral (s : String) : Except Fault Int :=
  let ds := leadingDigits s.toList
  if digitLimit < ds.length then .error (.integerTooLongToRead ds.length)
  else if ds.length < s.length ∨ ds = [] then .error (.notDecimal s)
  else .ok (Text.natOfDigits ds)

/-- The double nearest to an integer; an integer beyond the finite doubles is a fault. -/
def toDouble (n : Int) : Except Fault Double :=
  match Double.ofInt? n with
  | some x => .ok x
  | none => .error .integerBeyondDouble

theorem write_eq_ok_iff (n : Int) :
    (∃ s, write n = .ok s) ↔ (Nat.toDigits 10 n.natAbs).length ≤ digitLimit := by
  unfold write
  split
  · rename_i h
    exact ⟨fun ⟨_, hs⟩ => by simp at hs, fun hle => absurd h (by omega)⟩
  · rename_i h
    exact ⟨fun _ => by omega, fun _ => ⟨_, rfl⟩⟩

end Integer
end ConditionalForms
