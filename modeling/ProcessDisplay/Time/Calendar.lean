import ProcessDisplay.Time.Instant

/-!
# Dates and times of day

An instant is read in the Gregorian calendar without a time zone offset.
Years of 400 have the same number of days, so a day is found within its
cycle of 400 years, counted from the first of March.
-/

namespace ProcessDisplay.Time

/-- A day of the calendar. -/
structure Date where
  /-- The year; year zero precedes year one. -/
  year : Int
  /-- The month, from one on. -/
  month : Nat
  /-- The day of the month, from one on. -/
  day : Nat
  deriving DecidableEq, Repr

/-- The days of 400 years. -/
def daysPerCycle : Nat := 146097

/-- The days from the first of March of year zero to the Unix epoch. -/
def daysToEpoch : Int := 719468

/-- The day that lies a number of days after the Unix epoch. -/
def Date.ofDays (days : Int) : Date :=
  let shifted := days + daysToEpoch
  let cycle := shifted.fdiv daysPerCycle
  let dayOfCycle := (shifted - cycle * daysPerCycle).toNat
  let yearOfCycle :=
    (dayOfCycle - dayOfCycle / 1460 + dayOfCycle / 36524 - dayOfCycle / 146096) / 365
  let dayOfYear := dayOfCycle - (365 * yearOfCycle + yearOfCycle / 4 - yearOfCycle / 100)
  let monthFromMarch := (5 * dayOfYear + 2) / 153
  let day := dayOfYear - (153 * monthFromMarch + 2) / 5 + 1
  let month := if monthFromMarch < 10 then monthFromMarch + 3 else monthFromMarch - 9
  ⟨cycle * 400 + yearOfCycle + (if month ≤ 2 then 1 else 0), month, day⟩

/-- The number of days from the Unix epoch to a day. -/
def Date.toDays (d : Date) : Int :=
  let year := if d.month ≤ 2 then d.year - 1 else d.year
  let cycle := year.fdiv 400
  let yearOfCycle := (year - cycle * 400).toNat
  let monthFromMarch := if d.month > 2 then d.month - 3 else d.month + 9
  let dayOfYear := (153 * monthFromMarch + 2) / 5 + d.day - 1
  let dayOfCycle := yearOfCycle * 365 + yearOfCycle / 4 - yearOfCycle / 100 + dayOfYear
  cycle * daysPerCycle + dayOfCycle - daysToEpoch

/-- An instant in the terms of a calendar and a clock. -/
structure Moment where
  /-- The days since the Unix epoch. -/
  days : Int
  /-- The seconds since midnight. -/
  secondOfDay : Nat
  /-- The nanoseconds since the last whole second. -/
  nanos : Nat

namespace Moment

/-- The moment of an instant. -/
def ofInstant (instant : Instant) : Moment :=
  let seconds := instant.fdiv nanosPerSecond
  let days := seconds.fdiv secondsPerDay
  ⟨days, (seconds - days * secondsPerDay).toNat, (instant - seconds * nanosPerSecond).toNat⟩

/-- The day. -/
def date (m : Moment) : Date := Date.ofDays m.days

/-- The hour of the day. -/
def hour (m : Moment) : Nat := m.secondOfDay / 3600

/-- The hour on a clock with twelve hours. -/
def hourOfTwelve (m : Moment) : Nat := if m.hour % 12 = 0 then 12 else m.hour % 12

/-- Whether it is noon or later. -/
def isAfternoon (m : Moment) : Bool := m.hour ≥ 12

/-- The minute of the hour. -/
def minute (m : Moment) : Nat := m.secondOfDay / 60 % 60

/-- The second of the minute. -/
def second (m : Moment) : Nat := m.secondOfDay % 60

/-- The seconds since the Unix epoch. -/
def timestamp (m : Moment) : Int := m.days * secondsPerDay + m.secondOfDay

/-- The days since the last Monday; the Unix epoch was a Thursday. -/
def sinceMonday (m : Moment) : Nat := ((m.days + 3).fmod 7).toNat

/-- The days since the last Sunday. -/
def sinceSunday (m : Moment) : Nat := ((m.days + 4).fmod 7).toNat

/-- The day of the year, from one on. -/
def ordinal (m : Moment) : Nat :=
  (m.days - (Date.toDays ⟨m.date.year, 1, 1⟩)).toNat + 1

/-- The Thursday of the week from Monday to Sunday. -/
def thursday (m : Moment) : Moment := { m with days := m.days + 3 - m.sinceMonday }

/-- The year that the week belongs to: that of its Thursday. -/
def weekYear (m : Moment) : Int := m.thursday.date.year

/-- The number of the week within its year, from one on. -/
def week (m : Moment) : Nat := (m.thursday.ordinal - 1) / 7 + 1

/-- The number of Sundays up to the day in its year. -/
def sundays (m : Moment) : Nat := (m.ordinal + 6 - m.sinceSunday) / 7

/-- The number of Mondays up to the day in its year. -/
def mondays (m : Moment) : Nat := (m.ordinal + 6 - m.sinceMonday) / 7

/-- The quarter of the year, from one on. -/
def quarter (m : Moment) : Nat := (m.date.month - 1) / 3 + 1

end Moment

end ProcessDisplay.Time
