import ConditionalForms.Fault

/-!
# Dates

A date is a day of the calendar, or a moment of it that a clock shows.  A clock may say how far it
is from universal time; two moments that do so are the same when they are the same in universal
time.  All other dates are the same only when they are written alike.

**Definitions.**
* `Date.check` refuses what the calendar or the clock does not have.
* `Date.same` is the sameness of dates.
* `Date.text`, `Date.literal` are the two texts of a date.
-/

namespace ConditionalForms

/-- A time of day, with its distance from universal time in minutes if that is known. -/
structure Clock where
  hour : Nat
  minute : Nat
  second : Nat
  microsecond : Nat
  offset : Option Int
deriving DecidableEq, Repr

/-- A day of the calendar, or a moment of it. -/
structure Date where
  year : Nat
  month : Nat
  day : Nat
  clock : Option Clock
deriving DecidableEq, Repr

namespace Calendar

/-- A year with a leap day. -/
def isLeap (year : Nat) : Bool :=
  year % 4 == 0 && (year % 100 != 0 || year % 400 == 0)

/-- The number of days of a month. -/
def daysOf (year month : Nat) : Nat :=
  if month = 2 then if isLeap year then 29 else 28
  else if month = 4 ∨ month = 6 ∨ month = 9 ∨ month = 11 then 30
  else 31

/-- The number of days of the years before a year. -/
def daysBeforeYear (year : Nat) : Nat :=
  let past := year - 1
  365 * past + past / 4 - past / 100 + past / 400

/-- The number of days of a year before a month. -/
def daysBeforeMonth (year month : Nat) : Nat :=
  (List.range (month - 1)).foldl (fun n m => n + daysOf year (m + 1)) 0

end Calendar

namespace Clock

/-- The time since midnight in millionths of a second. -/
def sinceMidnight (c : Clock) : Nat :=
  ((c.hour * 60 + c.minute) * 60 + c.second) * 1000000 + c.microsecond

/-- Refuses times that no clock shows. -/
def check (c : Clock) : Except Fault Unit :=
  if 23 < c.hour then .error .noSuchHour
  else if 59 < c.minute then .error .noSuchMinute
  else if 59 < c.second then .error .noSuchSecond
  else .ok ()

/-- Refuses distances from universal time of a day or more. -/
def checkOffset (c : Clock) : Except Fault Unit :=
  match c.offset with
  | some minutes =>
      if 1440 ≤ minutes.natAbs then .error (.offsetOutOfRange minutes) else .ok ()
  | none => .ok ()

end Clock

namespace Date

/-- Refuses days that the calendar does not have. -/
def checkDay (d : Date) : Except Fault Unit :=
  if d.year = 0 then .error (.noSuchYear d.year)
  else if d.month = 0 ∨ 12 < d.month then .error .noSuchMonth
  else if d.day = 0 ∨ Calendar.daysOf d.year d.month < d.day then .error .noSuchDay
  else .ok ()

/-- Refuses what is no date.  The distance from universal time is looked at first, then the day, and
then the time of day. -/
def check (d : Date) : Except Fault Unit :=
  match d.clock with
  | none => d.checkDay
  | some c => do
      c.checkOffset
      d.checkDay
      c.check

/-- The moment of a date in universal time, in millionths of a second; absent when the date does not
say how far it is from universal time. -/
def moment? (d : Date) : Option Int := do
  let c ← d.clock
  let minutes ← c.offset
  let days := Calendar.daysBeforeYear d.year + Calendar.daysBeforeMonth d.year d.month + d.day
  return (days : Int) * 86400000000 + c.sinceMidnight - minutes * 60000000

/-- Two dates are the same. -/
def same (d e : Date) : Bool :=
  match d.moment?, e.moment? with
  | some m, some n => m = n
  | _, _ => d = e

/-- A number padded with zeros to a width. -/
def padded (width n : Nat) : String :=
  let digits := Nat.toDigits 10 n
  String.ofList (List.replicate (width - digits.length) '0' ++ digits)

/-- A distance from universal time, as a sign, hours and minutes. -/
def offsetText (minutes : Int) : String :=
  (if minutes < 0 then "-" else "+") ++ padded 2 (minutes.natAbs / 60) ++ ":" ++
    padded 2 (minutes.natAbs % 60)

/-- A time of day, with a fraction of the second if there is one. -/
def clockText (c : Clock) : String :=
  padded 2 c.hour ++ ":" ++ padded 2 c.minute ++ ":" ++ padded 2 c.second ++
    (if c.microsecond = 0 then "" else "." ++ padded 6 c.microsecond) ++
    (match c.offset with
      | some minutes => offsetText minutes
      | none => "")

/-- Year, month and day with dashes between them, and the time of day behind a space. -/
def text (d : Date) : String :=
  padded 4 d.year ++ "-" ++ padded 2 d.month ++ "-" ++ padded 2 d.day ++
    (match d.clock with
      | some c => " " ++ clockText c
      | none => "")

/-- A distance from universal time written as a literal. -/
def offsetLiteral (minutes : Int) : String :=
  if minutes = 0 then "datetime.timezone.utc"
  else "datetime.timezone(" ++ Duration.literal minutes ++ ")"

/-- The parts of a time of day in a literal; seconds and fractions are left out when zero. -/
def clockLiterals (c : Clock) : List String :=
  [toString c.hour, toString c.minute] ++
    (if c.microsecond ≠ 0 then [toString c.second, toString c.microsecond]
      else if c.second ≠ 0 then [toString c.second] else []) ++
    (match c.offset with
      | some minutes => ["tzinfo=" ++ offsetLiteral minutes]
      | none => [])

/-- A date written as a literal. -/
def literal (d : Date) : String :=
  let day := [toString d.year, toString d.month, toString d.day]
  match d.clock with
  | some c => "datetime.datetime(" ++ String.intercalate ", " (day ++ clockLiterals c) ++ ")"
  | none => "datetime.date(" ++ String.intercalate ", " day ++ ")"

/-- A clock two hours ahead of universal time shows noon when universal time is ten. -/
example : same ⟨2024, 1, 1, some ⟨12, 0, 0, 0, some 120⟩⟩ ⟨2024, 1, 1, some ⟨10, 0, 0, 0, some 0⟩⟩ =
    true := by decide

end Date

end ConditionalForms
