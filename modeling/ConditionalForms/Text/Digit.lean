import ConditionalForms.Text.Ranges

/-!
# Digits of all scripts

A decimal digit is a character of the general category Nd (Unicode 14): 66 runs of ten characters,
each run counting up from its zero.  A digit in the wider sense is a decimal digit or one of the
128 further characters with a digit value, such as the superscripts.

**Results.**
* `isDigit_of_isDecimal`: decimal digits are digits.
-/

namespace ConditionalForms
namespace Text

/-- The code points of the zeros of all scripts. -/
def zeros : List Nat :=
  [48, 1632, 1776, 1984, 2406, 2534, 2662, 2790, 2918, 3046, 3174, 3302, 3430, 3558, 3664, 3792,
   3872, 4160, 4240, 6112, 6160, 6470, 6608, 6784, 6800, 6992, 7088, 7232, 7248, 42528, 43216,
   43264, 43472, 43504, 43600, 44016, 65296, 66720, 68912, 69734, 69872, 69942, 70096, 70384,
   70736, 70864, 71248, 71360, 71472, 71904, 72016, 72784, 73040, 73120, 92768, 92864, 93008,
   120782, 120792, 120802, 120812, 120822, 123200, 123632, 125264, 130032]

/-- The digits that are not decimal digits. -/
def otherDigits : Ranges :=
  [(178, 179), (185, 185), (4969, 4977), (6618, 6618), (8304, 8304), (8308, 8313), (8320, 8329),
   (9312, 9320), (9332, 9340), (9352, 9360), (9450, 9450), (9461, 9469), (9471, 9471),
   (10102, 10110), (10112, 10120), (10122, 10130), (68160, 68163), (69216, 69224),
   (69714, 69722), (127232, 127242)]

/-- The value of a decimal digit of any script. -/
def decimalValue? (c : Char) : Option Nat :=
  (zeros.find? fun z => decide (z ≤ c.toNat) && decide (c.toNat < z + 10)).map (c.toNat - ·)

/-- A decimal digit of any script. -/
def isDecimal (c : Char) : Bool := (decimalValue? c).isSome

/-- A digit in the wider sense. -/
def isDigit (c : Char) : Bool := isDecimal c || otherDigits.contains c.toNat

/-- A nonempty text of digits in the wider sense. -/
def isNumeral (s : String) : Bool := !s.isEmpty && s.toList.all isDigit

/-- The number written by decimal digit values, most significant first. -/
def natOfDigits (ds : List Nat) : Nat := ds.foldl (fun n d => 10 * n + d) 0

example : otherDigits.count = 128 := by decide

example : decimalValue? '7' = some 7 ∧ isDecimal '²' = false ∧ isDigit '²' = true := by decide

theorem isDigit_of_isDecimal (c : Char) (h : isDecimal c = true) : isDigit c = true := by
  simp [isDigit, h]

end Text
end ConditionalForms
