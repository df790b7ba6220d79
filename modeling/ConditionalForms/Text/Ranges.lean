/-!
# Character classes as ranges

A class of characters is a list of closed ranges of code points, ascending and apart.  `contains`
looks a code point up, and `count` is the size of the class.
-/

namespace ConditionalForms

/-- A class of code points: closed ranges, ascending and apart. -/
abbrev Ranges := List (Nat × Nat)

namespace Ranges

/-- Membership of a code point. -/
def contains (rs : Ranges) (n : Nat) : Bool :=
  rs.any fun r => decide (r.1 ≤ n) && decide (n ≤ r.2)

/-- The number of code points in the class. -/
def count (rs : Ranges) : Nat :=
  rs.foldl (fun n r => n + (r.2 + 1 - r.1)) 0

end Ranges

end ConditionalForms
