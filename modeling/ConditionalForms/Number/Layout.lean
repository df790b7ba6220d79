import ConditionalForms.Number.Shortest

/-!
# Written form of doubles

A finite double is written from its shortest decimal, positionally while the leading digit stands
between the fourth decimal place and the sixteenth digit before the point, and with an exponent
outside that range.  A positional form always has a decimal point.

**Layouts.**  `Layout.plain` is the form shown to users, `Layout.json` and `Layout.yaml` are the
forms of the two text formats.  They share the digits and differ in the spelling of the values
that are no numbers and in the mantissa before an exponent.
-/

namespace ConditionalForms

/-- The decisions that a written form of doubles takes beyond the digits. -/
structure Layout where
  /-- The least decimal exponent that is written positionally. -/
  least : Int
  /-- The greatest decimal exponent that is written positionally. -/
  greatest : Int
  /-- What follows a mantissa of one digit before its exponent. -/
  afterLoneDigit : String
  /-- The spelling of a NaN. -/
  notANumber : String
  /-- The spelling of positive infinity. -/
  infinity : String
  /-- The spelling of negative infinity. -/
  minusInfinity : String

namespace Layout

/-- The form shown to users. -/
def plain : Layout := ⟨-4, 15, "", "nan", "inf", "-inf"⟩

/-- The form of JSON texts. -/
def json : Layout := ⟨-4, 15, "", "NaN", "Infinity", "-Infinity"⟩

/-- The form of YAML texts, where a mantissa needs a point to be read as a number. -/
def yaml : Layout := ⟨-4, 15, ".0", ".nan", ".inf", "-.inf"⟩

/-- An exponent with its sign and at least two digits. -/
def exponentText (e : Int) : List Char :=
  let digits := Nat.toDigits 10 e.natAbs
  (if e < 0 then '-' else '+') :: (if digits.length < 2 then '0' :: digits else digits)

/-- The digits of `x` with a decimal point among them or zeros around them. -/
def positional (x : Decimal) : List Char :=
  let digits := Nat.toDigits 10 x.digits
  let point : Int := digits.length + x.scale
  if 0 ≤ x.scale then digits ++ List.replicate x.scale.toNat '0' ++ ['.', '0']
  else if 0 < point then digits.take point.toNat ++ '.' :: digits.drop point.toNat
  else '0' :: '.' :: List.replicate (-point).toNat '0' ++ digits

/-- One digit, the remaining digits after a point, and the exponent. -/
def scientific (l : Layout) (x : Decimal) : List Char :=
  let digits := Nat.toDigits 10 x.digits
  let e : Int := digits.length + x.scale - 1
  let mantissa := match digits with
    | [] => []
    | [d] => d :: l.afterLoneDigit.toList
    | d :: rest => d :: '.' :: rest
  mantissa ++ 'e' :: exponentText e

/-- The written form of a magnitude. -/
def magnitude (l : Layout) (rank : Nat) : List Char :=
  let x := Decimal.shortest rank
  let e : Int := (Nat.toDigits 10 x.digits).length + x.scale - 1
  if l.least ≤ e ∧ e ≤ l.greatest then positional x else l.scientific x

/-- The written form of a double. -/
def write (l : Layout) : Double → String
  | .nan => l.notANumber
  | .infinite negative => if negative then l.minusInfinity else l.infinity
  | .finite negative rank =>
      String.ofList (if negative then '-' :: l.magnitude rank else l.magnitude rank)

end Layout

end ConditionalForms
