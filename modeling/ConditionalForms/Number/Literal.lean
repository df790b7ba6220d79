import ConditionalForms.Number.Shortest
import ConditionalForms.Text.Blank
import ConditionalForms.Text.Digit

/-!
# Reading numbers from text

A number text is an optional sign and a decimal literal with an optional exponent, or one of the
words for infinity and NaN in any case.  Blanks around it are ignored, decimal digits of any script
stand for their values, and an underscore may separate two digits.

**Results.**
* `Double.ofText?` reads such a text and rounds it to the nearest double; a literal beyond the
  finite range reads as an infinity.
-/

namespace ConditionalForms

namespace Literal

/-- The characters that number texts are read through: blanks beyond ASCII become spaces, decimal
digits of any script become ASCII digits, and other characters beyond ASCII cannot occur. -/
def asciiForm (c : Char) : Char :=
  if c.toNat < 127 then c
  else if Text.isBlank c then ' '
  else match Text.decimalValue? c with
    | some d => Char.ofNat (48 + d)
    | none => '?'

/-- The blanks that may surround a number text once it is in ASCII form. -/
def isOuterBlank (c : Char) : Bool :=
  c == ' ' || (decide (9 ≤ c.toNat) && decide (c.toNat ≤ 13))

/-- The ASCII decimal digits. -/
def isAsciiDigit (c : Char) : Bool := decide (48 ≤ c.toNat) && decide (c.toNat ≤ 57)

/-- The value of an ASCII digit. -/
def digitValue (c : Char) : Nat := c.toNat - 48

/-- The value of a hexadecimal digit. -/
def hexValue? (c : Char) : Option Nat :=
  if isAsciiDigit c then some (digitValue c)
  else if 'a'.toNat ≤ c.toNat ∧ c.toNat ≤ 'f'.toNat then some (c.toNat - 'a'.toNat + 10)
  else if 'A'.toNat ≤ c.toNat ∧ c.toNat ≤ 'F'.toNat then some (c.toNat - 'A'.toNat + 10)
  else none

/-- The number that hexadecimal digits write. -/
def hexNumber? (cs : List Char) : Option Nat :=
  cs.foldlM (fun n c => (hexValue? c).map (16 * n + ·)) 0

/-- The underscores of a text stand between digits only; `before` tells whether a digit precedes. -/
def separatorsFit : Bool → List Char → Bool
  | _, [] => true
  | before, '_' :: rest =>
      before && (match rest with
        | d :: _ => isAsciiDigit d
        | [] => false) && separatorsFit false rest
  | _, c :: rest => separatorsFit (isAsciiDigit c) rest

/-- The text without its digit separators, if they are well placed. -/
def dropSeparators? (cs : List Char) : Option (List Char) :=
  if separatorsFit false cs then some (cs.filter (· ≠ '_')) else none

/-- A sign in front of a text, and what follows it. -/
def takeSign : List Char → Bool × List Char
  | '-' :: cs => (true, cs)
  | '+' :: cs => (false, cs)
  | cs => (false, cs)

/-- The value of a run of ASCII digits. -/
def natOf (ds : List Char) : Nat := Text.natOfDigits (ds.map digitValue)

/-- The exponent after a mantissa: nothing, or a letter, an optional sign and digits. -/
def exponent? : List Char → Option Int
  | [] => some 0
  | e :: cs =>
      if e = 'e' ∨ e = 'E' then
        let (negative, ds) := takeSign cs
        if ds ≠ [] ∧ ds.all isAsciiDigit then
          some (if negative then -(natOf ds : Int) else natOf ds)
        else none
      else none

/-- An unsigned decimal literal. -/
def decimal? (cs : List Char) : Option Decimal :=
  let whole := cs.takeWhile isAsciiDigit
  let (fraction, rest) := match cs.dropWhile isAsciiDigit with
    | '.' :: more => (more.takeWhile isAsciiDigit, more.dropWhile isAsciiDigit)
    | other => ([], other)
  if whole = [] ∧ fraction = [] then none
  else (exponent? rest).map fun e => ⟨natOf (whole ++ fraction), e - fraction.length⟩

/-- The words that name no finite number, in lower case. -/
def word? (negative : Bool) (cs : List Char) : Option Double :=
  let w := String.ofList (cs.map Char.toLower)
  if w = "inf" ∨ w = "infinity" then some (.infinite negative)
  else if w = "nan" then some .nan
  else none

end Literal

namespace Double

/-- The double nearest to a signed decimal. -/
def ofDecimal (negative : Bool) (x : Decimal) : Double :=
  ofRank negative x.rank

/-- Reads a number text; absent when it is none. -/
def ofText? (s : String) : Option Double :=
  let inner := Text.trimList Literal.isOuterBlank (s.toList.map Literal.asciiForm)
  (Literal.dropSeparators? inner).bind fun cs =>
    let (negative, body) := Literal.takeSign cs
    match Literal.decimal? body with
    | some x => some (ofDecimal negative x)
    | none => Literal.word? negative body

end Double

end ConditionalForms
