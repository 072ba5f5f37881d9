import ProcessDisplay.Outcome

/-!
# Clocks and instants

A clock counts nanoseconds since a display started; an instant counts
nanoseconds since the Unix epoch. The instant of a clock position is the
start of the display plus the clock. A clock beyond 64-bit milliseconds has
no offset, and an instant beyond the last day of the calendar ends the
program.
-/

namespace ProcessDisplay.Time

/-- Nanoseconds since a display started. -/
abbrev Clock := Nat

/-- Nanoseconds since the Unix epoch. -/
abbrev Instant := Int

/-- Nanoseconds in a millisecond. -/
def nanosPerMilli : Nat := 1000000

/-- Nanoseconds in a second. -/
def nanosPerSecond : Nat := 1000000000

/-- Seconds in a day. -/
def secondsPerDay : Nat := 86400

/-- The last instant of the calendar, at the end of the day 262142-12-31. -/
def lastInstant : Instant := 8210266876799 * 1000000000 + 999999999

/-- The longest offset that is added to an instant: the greatest 64-bit number of milliseconds. -/
def longestOffset : Nat := 9223372036854775807 * nanosPerMilli

/-- The offset that a clock position stands for. -/
def offsetOf (clock : Clock) : Nat := if clock ≤ longestOffset then clock else 0

/-- The instant of a clock position of a display that started at `epoch`. -/
def instantAt (epoch : Instant) (clock : Clock) : Outcome Instant :=
  let instant := epoch + offsetOf clock
  if instant ≤ lastInstant then .done instant else .crash

/-- Whole milliseconds since the Unix epoch, rounded down. -/
def millis (instant : Instant) : Int := instant.fdiv nanosPerMilli

/-- Seconds since the Unix epoch as a number with millisecond resolution. -/
def seconds (instant : Instant) : Float := Float.ofInt (millis instant) / 1000.0

end ProcessDisplay.Time
