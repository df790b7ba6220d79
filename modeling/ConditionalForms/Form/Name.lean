import ConditionalForms.Number.Integer
import ConditionalForms.Text.Blank

/-!
# Names of fields

A field is known by its name, under which its answer is kept and rules refer to it.  A name is
derived from the label of the field, as its *slug*, unless an author types one.  A label without a
slug gives a numbered placeholder, and a number is added to a name that is taken.

**Definitions.**
* `slug`: lower case ASCII letters, digits and single dashes.
* `isDerived`: the name looks as if it was derived from the label.
* `firstFree`: a name, or that name with the least free number from two on.
-/

namespace ConditionalForms
namespace Name

/-- The lower case of a character as far as ASCII letters come of it.  Beyond ASCII these are only
the capital I with a dot, which keeps its dot as a mark of its own, and the Kelvin sign. -/
def lower (c : Char) : List Char :=
  if c = '\u0130' then ['i', '\u0307']
  else if c = '\u212a' then ['k']
  else [c.toLower]

/-- The characters of a slug. -/
def isSlugChar (c : Char) : Bool :=
  (decide ('a'.toNat ≤ c.toNat) && decide (c.toNat ≤ 'z'.toNat)) ||
    (decide ('0'.toNat ≤ c.toNat) && decide (c.toNat ≤ '9'.toNat)) || c == '-'

/-- Leaves one dash of every run of dashes. -/
def singleDashes : List Char → List Char
  | [] => []
  | c :: cs => if c = '-' ∧ cs.head? = some '-' then singleDashes cs else c :: singleDashes cs

/-- What stands for a character of a label in its slug: a dash for a blank, nothing for a character
that slugs do not have. -/
def slugPart (c : Char) : List Char :=
  if Text.isBlank c then ['-'] else if isSlugChar c then [c] else []

/-- The slug of a label: lower case, trimmed, reduced to the characters of slugs, with a dash for
every run of blanks and dashes. -/
def slug (label : String) : String :=
  let letters := Text.trimList Text.isBlank (label.toList.flatMap lower)
  String.ofList (singleDashes (letters.flatMap slugPart))

/-- The stem of numbered placeholder names. -/
def placeholderStem : String := "field"

/-- The placeholder name of a number. -/
def placeholder (n : Int) : String := placeholderStem ++ "-" ++ Integer.decimalText n

/-- A stem with a number behind a dash. -/
def numbered (stem : String) (n : Nat) : String := stem ++ "-" ++ String.ofList (Nat.toDigits 10 n)

/-- One or more decimal digits of any script. -/
def isNumber (cs : List Char) : Bool := !cs.isEmpty && cs.all Text.isDecimal

/-- The part of a list behind a given beginning. -/
def after? : List Char → List Char → Option (List Char)
  | [], cs => some cs
  | _ :: _, [] => none
  | b :: bs, c :: cs => if b = c then after? bs cs else none

/-- The name is the stem with a number behind a dash. -/
def isNumbered (stem name : String) : Bool :=
  match after? (stem ++ "-").toList name.toList with
  | some rest => isNumber rest
  | none => false

/-- A text without one line feed at its end. -/
def dropLineEnd (s : String) : String :=
  match s.toList.getLast? with
  | some '\n' => String.ofList s.toList.dropLast
  | _ => s

/-- A numbered placeholder; one line feed at its end does not count. -/
def isPlaceholder (name : String) : Bool := isNumbered placeholderStem (dropLineEnd name)

/-- The name was derived and not typed, as far as one can tell: it is blank, a placeholder, or the
slug of the label with or without a number. -/
def isDerived (name label : String) : Bool :=
  if Text.isAllBlank name then true
  else if isPlaceholder name then true
  else
    let s := slug label
    s ≠ "" && (name = s || isNumbered s name)

/-- The first free name among the stem with the numbers from `n` on, looking at no more than `fuel`
of them. -/
def freeFrom (stem : String) (taken : List String) : Nat → Nat → String
  | 0, n => numbered stem n
  | fuel + 1, n =>
      if taken.contains (numbered stem n) then freeFrom stem taken fuel (n + 1)
      else numbered stem n

/-- The stem itself if it is free, and otherwise the stem with the least free number from two on.
One of the first `taken.length + 1` numbers is free. -/
def firstFree (stem : String) (taken : List String) : String :=
  if taken.contains stem then freeFrom stem taken taken.length 2 else stem

end Name
end ConditionalForms
