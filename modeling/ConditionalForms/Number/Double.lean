/-!
# Double precision numbers

A finite double is a sign together with the *rank* of its magnitude: its place in the list of all
finite magnitudes, smallest first.  Rank `0` is zero, rank `1` the least subnormal number, and the
order of magnitudes is the order of ranks, so that comparing two doubles is comparing two integers.

**Conventions.**  A magnitude is `significand * 2 ^ exponent` with `significand < 2 ^ 53` and
`-1074 ≤ exponent ≤ 971`.  Ranks below `blockSize` are the subnormal numbers; above it, every block
of so many ranks shares one exponent.

**Results.**
* `order` is a total order key: `lt` and `le` read it, and only a NaN has none.
* `Magnitude.ofRatio` rounds an exact quotient to the nearest magnitude, a tie going to the even
  significand.
-/

namespace ConditionalForms

/-- The number of ranks that share an exponent: `2 ^ 52`. -/
abbrev blockSize : Nat := 4503599627370496

/-- The number of finite magnitudes: 2047 blocks. -/
abbrev magnitudeCount : Nat := 2047 * blockSize

/-- A power, one where the exponent is negative. -/
def power (base : Nat) (e : Int) : Nat := Nat.pow base e.toNat

/-- A double precision number. -/
inductive Double where
  | nan
  | infinite (negative : Bool)
  | finite (negative : Bool) (rank : Fin magnitudeCount)
deriving DecidableEq

namespace Magnitude

/-- The integer that multiplies the power of two. -/
def significand (rank : Nat) : Nat :=
  if rank < blockSize then rank else blockSize + rank % blockSize

/-- The power of two, as its exponent. -/
def exponent (rank : Nat) : Int :=
  if rank < blockSize then -1074 else (rank / blockSize : Nat) - 1075

/-- The numerator of a magnitude written as an exact quotient. -/
def numerator (rank : Nat) : Nat :=
  significand rank * power 2 (exponent rank)

/-- The denominator of a magnitude written as an exact quotient. -/
def denominator (rank : Nat) : Nat :=
  power 2 (-exponent rank)

/-- The quotient `n / d` rounded to the nearest integer, a half going to the even neighbour. -/
def roundHalfEven (n d : Nat) : Nat :=
  let q := n / d
  let r := n % d
  if 2 * r < d then q
  else if d < 2 * r then q + 1
  else if q % 2 = 0 then q else q + 1

/-- The greatest `k` with `2 ^ k ≤ n / d`, for positive `n` and `d`. -/
def floorLog2 (n d : Nat) : Int :=
  let k : Int := (n.log2 : Int) - d.log2
  if d * power 2 k ≤ n * power 2 (-k) then k else k - 1

/-- The rank of the magnitude nearest to `n / d`; at least `magnitudeCount` when it overflows. -/
def ofRatio (n d : Nat) : Nat :=
  if n = 0 then 0
  else
    let e : Int := max (-1074) (floorLog2 n d - 52)
    let m := roundHalfEven (n * power 2 (-e)) (d * power 2 e)
    m + (e + 1074).toNat * blockSize

/-- The rank of the magnitude nearest to a sum of two. -/
def sum (r s : Nat) : Nat :=
  ofRatio (numerator r * denominator s + numerator s * denominator r)
    (denominator r * denominator s)

/-- The rank of the magnitude nearest to a product of two. -/
def product (r s : Nat) : Nat :=
  ofRatio (numerator r * numerator s) (denominator r * denominator s)

end Magnitude

namespace Double

/-- The double of a given sign and rank, infinite when the rank is beyond the finite ones. -/
def ofRank (negative : Bool) (rank : Nat) : Double :=
  if h : rank < magnitudeCount then .finite negative ⟨rank, h⟩ else .infinite negative

/-- The double nearest to the quotient `n / d` with the given sign. -/
def ofRatio (negative : Bool) (n d : Nat) : Double :=
  ofRank negative (Magnitude.ofRatio n d)

/-- The double nearest to an integer, absent when the integer is out of range. -/
def ofInt? (n : Int) : Option Double :=
  match ofRatio (decide (n < 0)) n.natAbs 1 with
  | .finite s r => some (.finite s r)
  | _ => none

/-- Positive zero. -/
def zero : Double := ofRatio false 0 1

/-- One. -/
def one : Double := ofRatio false 1 1

/-- Neither NaN nor infinite. -/
def isFinite : Double → Bool
  | .finite _ _ => true
  | _ => false

/-- The not-a-number value. -/
def isNaN : Double → Bool
  | .nan => true
  | _ => false

/-- The place of a number on the line of all doubles, where the two zeros share one; a NaN has
none. -/
def order : Double → Option Int
  | .nan => none
  | .infinite negative => some (if negative then -(magnitudeCount : Int) else magnitudeCount)
  | .finite negative rank => some (if negative then -(rank.val : Int) else rank.val)

/-- Strictly less; false when either side is a NaN. -/
def lt (a b : Double) : Bool :=
  match a.order, b.order with
  | some x, some y => decide (x < y)
  | _, _ => false

/-- Less or equal; false when either side is a NaN. -/
def le (a b : Double) : Bool :=
  match a.order, b.order with
  | some x, some y => decide (x ≤ y)
  | _, _ => false

/-- Numerically equal; false when either side is a NaN. -/
def eq (a b : Double) : Bool :=
  match a.order, b.order with
  | some x, some y => decide (x = y)
  | _, _ => false

/-- A signed integer from a sign and a size. -/
def signed (negative : Bool) (n : Nat) : Int :=
  if negative then -(n : Int) else n

/-- A finite double as an exact quotient of an integer by a positive integer. -/
def ratio? : Double → Option (Int × Nat)
  | .finite negative rank =>
      some (signed negative (Magnitude.numerator rank), Magnitude.denominator rank)
  | _ => none

/-- The value of a double that is an integer. -/
def integer? (x : Double) : Option Int :=
  match x.ratio? with
  | some (n, d) => if n % (d : Int) = 0 then some (n / (d : Int)) else none
  | none => none

/-- The greatest integer not above a finite double. -/
def floor? (x : Double) : Option Int :=
  x.ratio?.map fun (n, d) => n / (d : Int)

/-- The integer part of a finite double, toward zero. -/
def truncate? (x : Double) : Option Int :=
  x.ratio?.map fun (n, d) => n.tdiv (d : Int)

/-- An integer is strictly less than a double, compared exactly. -/
def intLt (n : Int) : Double → Bool
  | .nan => false
  | .infinite negative => !negative
  | x => match x.ratio? with
    | some (a, d) => decide (n * (d : Int) < a)
    | none => false

/-- A double is strictly less than an integer, compared exactly. -/
def ltInt (x : Double) (n : Int) : Bool :=
  match x with
  | .nan => false
  | .infinite negative => negative
  | x => match x.ratio? with
    | some (a, d) => decide (a < n * (d : Int))
    | none => false

/-- An integer and a double are the same number, compared exactly. -/
def eqInt (x : Double) (n : Int) : Bool :=
  x.integer? == some n

end Double

end ConditionalForms
