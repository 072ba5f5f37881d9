import ProcessDisplay.Decimal.Binary
import ProcessDisplay.Time.Instant
import ProcessDisplay.Value.Basic

/-!
# Emission schedules

A schedule decides at every clock position whether its generator emits. A
periodic schedule emits at its first position and then whenever its interval
has passed since the last emission. The first emission is the initial value
if there is one. Without an interval nothing follows the first position.
-/

namespace ProcessDisplay.Generator

/-- When a generator emits. -/
structure Schedule where
  /-- The least time between two emissions, in nanoseconds. -/
  interval : Option Time.Clock
  /-- A value that stands for the first emission. -/
  initial : Option Value := none
  /-- The clock position of the last emission, or of the first position. -/
  lastEmission : Option Time.Clock := none

/-- What a schedule decides. -/
inductive Tick where
  /-- The initial value is emitted. -/
  | initial (value : Value)
  /-- A sample is generated. -/
  | generate
  /-- Nothing is emitted. -/
  | idle

/-- The longest interval, in seconds, is below this one, 2⁶⁴. -/
def intervalBound : Nat := 18446744073709551616

/-- A number of seconds as an interval: the nearest number of nanoseconds, a
half to the even one. Only a positive finite number that fits is an interval. -/
def intervalOfSeconds (seconds : Float) : Option Time.Clock :=
  if seconds.isFinite && seconds > 0.0 then
    let x := Decimal.Binary.ofFloat seconds
    let nanos := ((Decimal.Quotient.ofScaled x.mantissa x.exponent).perTen (-9)).nearest
    if nanos < intervalBound * Time.nanosPerSecond then some nanos else none
  else none

namespace Schedule

/-- A periodic schedule with an interval in seconds. -/
def every (seconds : Float) : Schedule := { interval := intervalOfSeconds seconds }

/-- A schedule that at most emits an initial value. -/
def once (value : Option Value) : Schedule := { interval := none, initial := value }

/-- A schedule whose first emission is an initial value. -/
def withInitial (s : Schedule) (value : Value) : Schedule := { s with initial := some value }

/-- The decision at a clock position and the schedule after it. -/
def poll (s : Schedule) (clock : Time.Clock) : Tick × Schedule :=
  match s.lastEmission with
  | none =>
    let after := { s with lastEmission := some clock, initial := none }
    match s.initial with
    | some value => (.initial value, after)
    | none => (if s.interval.isSome then .generate else .idle, after)
  | some last =>
    match s.interval with
    | some interval =>
      if clock - last ≥ interval then (.generate, { s with lastEmission := some clock })
      else (.idle, s)
    | none => (.idle, s)

end Schedule

end ProcessDisplay.Generator
