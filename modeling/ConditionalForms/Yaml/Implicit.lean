import ConditionalForms.Number.Integer
import ConditionalForms.Number.Literal
import ConditionalForms.Value.Basic

/-!
# What plain scalars stand for

A plain scalar without a tag stands for null, a truth value, a number or a date if it is written
like one, by the rules of version 1.1 of the format: whole numbers in base two, eight, ten, sixteen
and sixty, numbers with a point in base ten and sixty, and underscores among the digits.

**Definitions.**
* `Implicit.ofText`: the kind of thing that a plain scalar stands for.
* `Implicit.readInteger`, `Implicit.readDouble`, `Implicit.readDate`: the things themselves.
-/

namespace ConditionalForms
namespace Yaml

/-- The kinds of things that plain scalars stand for. -/
inductive Implicit where
  | text
  | null
  | bool
  | int
  | float
  | date
  | merge
  | default
deriving DecidableEq, Repr

namespace Implicit

/-- The spellings of null. -/
def nullWords : List String := ["", "~", "null", "Null", "NULL"]

/-- The spellings of true. -/
def trueWords : List String := ["yes", "Yes", "YES", "true", "True", "TRUE", "on", "On", "ON"]

/-- The spellings of false. -/
def falseWords : List String := ["no", "No", "NO", "false", "False", "FALSE", "off", "Off", "OFF"]

/-- A digit or an underscore. -/
def isDigitOrGap (c : Char) : Bool := Literal.isAsciiDigit c || c == '_'

/-- A digit of a base, or an underscore. -/
def isBaseDigit (base : Nat) (c : Char) : Bool :=
  c == '_' || (Literal.isAsciiDigit c && decide (Literal.digitValue c < base)) ||
    (base == 16 && ((decide ('a'.toNat ≤ c.toNat) && decide (c.toNat ≤ 'f'.toNat)) ||
      (decide ('A'.toNat ≤ c.toNat) && decide (c.toNat ≤ 'F'.toNat))))

/-- One or more characters of a class. -/
def isRun (p : Char → Bool) (cs : List Char) : Bool := !cs.isEmpty && cs.all p

/-- Digits and underscores that start with a digit. -/
def isGrouped (cs : List Char) : Bool :=
  match cs with
  | c :: rest => Literal.isAsciiDigit c && rest.all isDigitOrGap
  | [] => false

/-- Splits at every colon. -/
def parts (cs : List Char) : List (List Char) :=
  cs.foldr (fun c acc => if c = ':' then [] :: acc else match acc with
    | part :: rest => (c :: part) :: rest
    | [] => [[c]]) [[]]

/-- A part in base sixty: one or two digits, below sixty. -/
def isSixtieth (cs : List Char) : Bool :=
  match cs with
  | [a] => Literal.isAsciiDigit a
  | [a, b] => decide ('0'.toNat ≤ a.toNat) && decide (a.toNat ≤ '5'.toNat) &&
      Literal.isAsciiDigit b
  | _ => false

/-- A whole number without its sign. -/
def isUnsignedInt (cs : List Char) : Bool :=
  (match cs with
    | '0' :: 'b' :: rest => isRun (isBaseDigit 2) rest
    | '0' :: 'x' :: rest => isRun (isBaseDigit 16) rest
    | ['0'] => true
    | '0' :: rest => isRun (isBaseDigit 8) rest
    | _ => isGrouped cs) ||
  (match parts cs with
    | first :: second :: rest =>
        isGrouped first && first.head? ≠ some '0' && (second :: rest).all isSixtieth
    | _ => false)

/-- A whole number. -/
def isInt (cs : List Char) : Bool := isUnsignedInt (Literal.takeSign cs).2

/-- An exponent, which has a sign, or nothing. -/
def isExponent (cs : List Char) : Bool :=
  match cs with
  | [] => true
  | e :: sign :: digits => (e == 'e' || e == 'E') && (sign == '-' || sign == '+') &&
      isRun Literal.isAsciiDigit digits
  | _ => false

/-- A fraction behind its point, and an exponent. -/
def isFraction (cs : List Char) : Bool := isExponent (cs.dropWhile isDigitOrGap)

/-- A number in base sixty with a point. -/
def isSixtyFloat (cs : List Char) : Bool :=
  let whole := cs.takeWhile (· ≠ '.')
  match cs.dropWhile (· ≠ '.') with
  | '.' :: fraction => fraction.all isDigitOrGap && (match parts whole with
      | first :: second :: rest => isGrouped first && (second :: rest).all isSixtieth
      | _ => false)
  | _ => false

/-- A number with a point. -/
def isFloat (cs : List Char) : Bool :=
  let unsigned := (Literal.takeSign cs).2
  let whole := unsigned.takeWhile isDigitOrGap
  (isGrouped whole && (match unsigned.dropWhile isDigitOrGap with
      | '.' :: rest => isFraction rest
      | _ => false)) ||
  (match cs with
    | '.' :: d :: rest => Literal.isAsciiDigit d && isFraction rest
    | _ => false) ||
  isSixtyFloat unsigned ||
  [".inf", ".Inf", ".INF"].contains (String.ofList unsigned) ||
  [".nan", ".NaN", ".NAN"].contains (String.ofList cs)

/-- The number of the digits in front, which are between `least` and `most`, and what follows. -/
def digits? (least most : Nat) (cs : List Char) : Option (Nat × List Char) :=
  let ds := (cs.take most).takeWhile Literal.isAsciiDigit
  if ds.length < least then none else some (Literal.natOf ds, cs.drop ds.length)

/-- What follows a given character. -/
def after? (x : Char) (cs : List Char) : Option (List Char) :=
  match cs with
  | c :: rest => if c = x then some rest else none
  | [] => none

/-- A fraction of a second in millionths: its first six digits. -/
def microseconds (cs : List Char) : Nat × List Char :=
  match cs with
  | '.' :: rest =>
      let ds := rest.takeWhile Literal.isAsciiDigit
      let six := ds.take 6
      (Literal.natOf (six ++ List.replicate (6 - six.length) '0'), rest.drop ds.length)
  | _ => (0, cs)

/-- A distance from universal time in minutes, or nothing. -/
def offset? (cs : List Char) : Option (Option Int) :=
  match cs.dropWhile fun c => c == ' ' || c == '\t' with
  | [] => if cs.isEmpty then some none else none
  | ['Z'] => some (some 0)
  | sign :: rest => do
      if sign ≠ '-' ∧ sign ≠ '+' then none
      let (hours, rest) ← digits? 1 2 rest
      let minutes ← match rest with
        | [] => some 0
        | _ => do
            let (minutes, rest) ← digits? 2 2 (← after? ':' rest)
            if rest.isEmpty then some minutes else none
      let total : Int := hours * 60 + minutes
      return some (if sign = '-' then -total else total)

/-- The time of day behind a date, in any of the forms. -/
def clock? (cs : List Char) : Option Clock := do
  let isGap (c : Char) : Bool := c == ' ' || c == '\t'
  let rest ← match cs with
    | [] => none
    | c :: rest =>
        if c = 'T' ∨ c = 't' then some rest
        else if isGap c then some (cs.dropWhile isGap) else none
  let (hour, rest) ← digits? 1 2 rest
  let (minute, rest) ← digits? 2 2 (← after? ':' rest)
  let (second, rest) ← digits? 2 2 (← after? ':' rest)
  let (fraction, rest) := microseconds rest
  return ⟨hour, minute, second, fraction, ← offset? rest⟩

/-- The parts of a date, whether or not the calendar has it. -/
def date? (cs : List Char) : Option Date := do
  let (year, rest) ← digits? 4 4 cs
  let afterYear ← after? '-' rest
  let (month, rest) ← digits? 1 2 afterYear
  let afterMonth ← after? '-' rest
  let (day, rest) ← digits? 1 2 afterMonth
  if rest.isEmpty then
    if cs.length = 10 then return ⟨year, month, day, none⟩ else none
  else return ⟨year, month, day, some (← clock? rest)⟩

/-- The kind of thing that a plain scalar stands for. -/
def ofText (s : String) : Implicit :=
  let cs := s.toList
  if trueWords.contains s || falseWords.contains s then .bool
  else if isFloat cs then .float
  else if isInt cs then .int
  else if s = "<<" then .merge
  else if nullWords.contains s then .null
  else if (date? cs).isSome then .date
  else if s = "=" then .default
  else .text

/-- The value of a digit in a base of up to sixteen. -/
def baseDigitValue (c : Char) : Nat :=
  if Literal.isAsciiDigit c then Literal.digitValue c else c.toLower.toNat - 'a'.toNat + 10

/-- The number that digits of a base write. -/
def natOfBase (base : Nat) (cs : List Char) : Except Fault Nat :=
  let ds := cs.filter (· ≠ '_')
  if ds.isEmpty then .error (.notInBase base "")
  else .ok (ds.foldl (fun n c => base * n + baseDigitValue c) 0)

/-- The number that decimal digits write, within the digit limit. -/
def natOfDecimal (cs : List Char) : Except Fault Nat :=
  let ds := cs.filter (· ≠ '_')
  if Integer.digitLimit < ds.length then .error (.integerTooLongToRead ds.length)
  else .ok (Literal.natOf ds)

/-- A whole number without its sign. -/
def unsignedInteger (cs : List Char) : Except Fault Nat :=
  match cs.filter (· ≠ '_') with
  | ['0'] => .ok 0
  | '0' :: 'b' :: ds => natOfBase 2 ds
  | '0' :: 'x' :: ds => natOfBase 16 ds
  | '0' :: ds => natOfBase 8 ds
  | ds => do
      let numbers ← (parts ds).mapM natOfDecimal
      return numbers.foldl (fun n d => 60 * n + d) 0

/-- The whole number that a scalar stands for. -/
def readInteger (s : String) : Except Fault Int := do
  let (negative, unsigned) := Literal.takeSign s.toList
  return Double.signed negative (← unsignedInteger unsigned)

/-- The magnitude that a part of a number with a point stands for. -/
def partRank (cs : List Char) : Nat :=
  match Literal.decimal? cs with
  | some x => x.rank
  | none => 0

/-- Adds the parts of a number in base sixty, the last part first, to the magnitude of the parts
before.  Every part counts as much as `weight`, which has to be a double itself, and every step is
rounded. -/
def addSixtieths (total weight : Nat) : List (List Char) → Except Fault Nat
  | [] => .ok total
  | part :: rest =>
      let rank := Magnitude.ofRatio weight 1
      if magnitudeCount ≤ rank then .error .integerBeyondDouble
      else addSixtieths (Magnitude.sum total (Magnitude.product (partRank part) rank))
        (60 * weight) rest

/-- The number with a point that a scalar stands for. -/
def readDouble (s : String) : Except Fault Double :=
  let (negative, unsigned) := Literal.takeSign (s.toList.filter (· ≠ '_'))
  let lower := String.ofList (unsigned.map Char.toLower)
  if lower = ".inf" then .ok (.infinite negative)
  else if lower = ".nan" then .ok .nan
  else match parts unsigned with
    | [_] => .ok (Double.ofRank negative (partRank unsigned))
    | all => do return Double.ofRank negative (← addSixtieths 0 1 all.reverse)

/-- The date that a scalar stands for, if there is such a date. -/
def readDate (s : String) : Except Fault Date :=
  match date? s.toList with
  | none => .error .malformedYaml
  | some d => do
      d.check
      return d

/-- The truth value that a scalar stands for. -/
def readTruth (s : String) : Bool := trueWords.contains s

end Implicit

end Yaml
end ConditionalForms
