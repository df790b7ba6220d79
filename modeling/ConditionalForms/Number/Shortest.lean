import ConditionalForms.Number.Double

/-!
# The shortest decimal that reads back

A finite magnitude is written with the fewest decimal digits that round to it again; among decimals
of that length the nearest one is taken, and of two equally near the one with the even last digit.

**Method.**  For a digit count `k` the decimals with `k` digits around a value `v` form a grid of
step `10 ^ g`.  If any point of the grid rounds to `v`, one of the two neighbours of `v` on the
grid does.  So the two neighbours are read back for `k = 1, …, 17`, and the first grid with a hit
wins.
-/

namespace ConditionalForms

/-- A decimal `digits * 10 ^ scale`. -/
structure Decimal where
  digits : Nat
  scale : Int
deriving DecidableEq, Repr

namespace Decimal

/-- The number of decimal digits of a natural number; zero has none. -/
def digitCount (n : Nat) : Nat :=
  if n = 0 then 0 else (Nat.toDigits 10 n).length

/-- The rank of the magnitude nearest to a decimal, far scales being settled by size alone. -/
def rank (x : Decimal) : Nat :=
  if x.digits = 0 then 0
  else
    let top : Int := digitCount x.digits + x.scale
    if top > 310 then magnitudeCount
    else if top < -400 then 0
    else Magnitude.ofRatio (x.digits * power 10 x.scale) (power 10 (-x.scale))

/-- The number of digits before the decimal point of `n / d`; negative or zero for leading zeros. -/
def pointPosition (n d : Nat) : Int :=
  if d ≤ n then digitCount (n / d)
  else 1 - (digitCount ((d - 1) / n) : Int)

/-- The neighbours of `n / d` on the grid of step `10 ^ g`: the lower one, and whether the upper one
is nearer (`gt`), as near (`eq`) or farther (`lt`). -/
def gridBelow (n d : Nat) (g : Int) : Nat × Ordering :=
  let num := n * power 10 (-g)
  let den := d * power 10 g
  (num / den, compare (2 * (num % den)) den)

/-- The decimal with `k` digits that rounds to the magnitude `r`, if there is one. -/
def onGrid? (r k : Nat) : Option Decimal :=
  let n := Magnitude.numerator r
  let d := Magnitude.denominator r
  let g := pointPosition n d - k
  let (low, near) := gridBelow n d g
  let below : Decimal := ⟨low, g⟩
  let above : Decimal := ⟨low + 1, g⟩
  let upperFirst := near == .gt || (near == .eq && low % 2 == 1)
  let (first, second) := if upperFirst then (above, below) else (below, above)
  if first.rank = r then some first
  else if second.rank = r then some second
  else none

/-- The first result of `onGrid?` among the next `fuel` digit counts after `k`. -/
def search (r : Nat) : Nat → Nat → Option Decimal
  | 0, _ => none
  | fuel + 1, k => match onGrid? r (k + 1) with
    | some x => some x
    | none => search r fuel (k + 1)

/-- Moves trailing zeros of the digits into the scale, at most `fuel` of them. -/
def dropZeros : Nat → Decimal → Decimal
  | 0, x => x
  | fuel + 1, x =>
      if x.digits ≠ 0 ∧ x.digits % 10 = 0 then dropZeros fuel ⟨x.digits / 10, x.scale + 1⟩ else x

/-- The shortest decimal that reads back as the magnitude `r`; seventeen digits always suffice. -/
def shortest (r : Nat) : Decimal :=
  if r = 0 then ⟨0, 0⟩
  else dropZeros 20 ((search r 17 0).getD
    ⟨Magnitude.numerator r * power 5 (-Magnitude.exponent r),
      min 0 (Magnitude.exponent r)⟩)

end Decimal

end ConditionalForms
