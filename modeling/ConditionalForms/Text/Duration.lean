/-!
# Text of durations

A duration is a number of minutes.  Its literal names the whole days, of which there may be fewer
than none, and the seconds that are left over of a day; a part that is zero is left out.
-/

namespace ConditionalForms
namespace Duration

/-- The named parts of a duration. -/
def parts (minutes : Int) : List (String × Int) :=
  [("days", minutes / 1440), ("seconds", minutes % 1440 * 60)].filter fun p => p.2 ≠ 0

/-- A duration written as a literal. -/
def literal (minutes : Int) : String :=
  "datetime.timedelta(" ++
    String.intercalate ", " ((parts minutes).map fun p => p.1 ++ "=" ++ toString p.2) ++ ")"

end Duration
end ConditionalForms
