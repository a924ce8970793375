import MarketFeed.Text.Digits

/-!
# Instants

An `Instant` counts milliseconds from the start of 1970 in universal time.  Its `Date` in the
Gregorian calendar, extended to all years, is found by walking the years of a cycle of 400 years and
the months of a year (`locate`).  `Instant.text` is the long form of an instant, to the millisecond
where there is one, and `Instant.minuteText` the short form, to the minute.
-/

namespace MarketFeed

/-- A day of the calendar, with months and days counted from one. -/
structure Date where
  year : Nat
  month : Nat
  day : Nat
  deriving DecidableEq, Repr

namespace Date

/-- Whether a year has a leap day. -/
def isLeap (year : Nat) : Bool := year % 4 == 0 && (year % 100 != 0 || year % 400 == 0)

/-- The number of days in a year. -/
def yearLength (year : Nat) : Nat := if isLeap year then 366 else 365

/-- The number of days in each month of a year. -/
def monthLengths (year : Nat) : List Nat :=
  [31, if isLeap year then 29 else 28, 31, 30, 31, 30, 31, 31, 30, 31, 30, 31]

/-- The number of days in 400 years. -/
def cycleLength : Nat := 146097

/-- The place of `n` among stretches of the given lengths: how many lie before it, and how far into
its own it is. -/
def locate : List Nat → Nat → Nat × Nat
  | [], n => (0, n)
  | length :: lengths, n =>
    if n < length then (0, n)
    else
      let (i, rest) := locate lengths (n - length)
      (i + 1, rest)

/-- The date a number of days after the first day of the year zero. -/
def ofDays (days : Nat) : Date :=
  let (yearOfCycle, dayOfYear) := locate ((List.range 400).map yearLength) (days % cycleLength)
  let year := 400 * (days / cycleLength) + yearOfCycle
  let (month, day) := locate (monthLengths year) dayOfYear
  ⟨year, month + 1, day + 1⟩

/-- A date as year, month and day.  A year above 9999 has a plus sign. -/
def text (d : Date) : String :=
  (if 9999 < d.year then "+" ++ Text.ofNat d.year else Text.ofNatPadded 4 d.year)
    ++ "-" ++ Text.ofNatPadded 2 d.month ++ "-" ++ Text.ofNatPadded 2 d.day

end Date

/-- The last millisecond of the last representable day. -/
def lastMilli : Nat := 8210266876799999

/-- A number of milliseconds from the start of 1970. -/
structure Instant where
  millis : Nat
  millis_le : millis ≤ lastMilli
  deriving DecidableEq

namespace Instant

/-- The instant with a number of milliseconds, if it is representable. -/
def ofMillis? (millis : Nat) : Option Instant :=
  if h : millis ≤ lastMilli then some ⟨millis, h⟩ else none

/-- The days from the first day of the year zero to the first day of 1970. -/
def epochDays : Nat := 719528

/-- The milliseconds of a day. -/
def dayMillis : Nat := 86400000

/-- The date of an instant. -/
def date (t : Instant) : Date := Date.ofDays (epochDays + t.millis / dayMillis)

/-- The milliseconds since midnight. -/
def ofDay (t : Instant) : Nat := t.millis % dayMillis

/-- Hour and minute of an instant. -/
def clock (t : Instant) : String :=
  Text.ofNatPadded 2 (t.ofDay / 3600000) ++ ":" ++ Text.ofNatPadded 2 (t.ofDay / 60000 % 60)

/-- The fraction of a second, unless it is zero. -/
def fraction (t : Instant) : String :=
  if t.ofDay % 1000 = 0 then "" else "." ++ Text.ofNatPadded 3 (t.ofDay % 1000)

/-- The long form of an instant. -/
def text (t : Instant) : String :=
  t.date.text ++ "T" ++ t.clock ++ ":" ++ Text.ofNatPadded 2 (t.ofDay / 1000 % 60) ++ t.fraction
    ++ "Z"

/-- The short form of an instant. -/
def minuteText (t : Instant) : String := t.date.text ++ " " ++ t.clock ++ " UTC"

end Instant

end MarketFeed
