import ProcessDisplay.Generator.Ramp
import ProcessDisplay.Generator.Random
import ProcessDisplay.Generator.Schedule
import ProcessDisplay.Time.Pattern
import ProcessDisplay.Value.Sample
import ProcessDisplay.VariableName

/-!
# Sample generators

A generator emits samples over time. Its schedule says when, its source says
what. An application adds sources of its own as functions of the number of
samples so far and the present instant.
-/

namespace ProcessDisplay

namespace Generator

/-- What a generator emits. -/
inductive Source where
  /-- Nothing besides the initial value of the schedule. -/
  | silent
  /-- The present date and time as text. -/
  | clock (pattern : List Time.PatternItem)
  /-- Uniform noise between two bounds. -/
  | noise (low high : Float) (random : Random)
  /-- Normally distributed noise. -/
  | gaussian (average deviation : Float) (random : Random)
  /-- A ramp. -/
  | ramp (r : Ramp Float)
  /-- A sine wave with a number of samples per cycle, and the samples so far. -/
  | sine (low high perCycle count : Float)
  /-- A source of the application, and the samples so far. It is assumed that
  the source comes behind a schedule like every other one, and that a sample
  depends on nothing but the number of samples before it and the instant. -/
  | custom (emit : Nat → Time.Instant → Option Sample) (count : Nat)

/-- The pattern of the clock where no other is given or the given one is refused. -/
def defaultPattern : String := "%Y-%m-%d %H:%M:%S"

/-- The items of a pattern, or those of the default pattern. -/
def patternOrDefault (pattern : String) : List Time.PatternItem :=
  ((Time.parsePattern? pattern).or (Time.parsePattern? defaultPattern)).getD []

/-- A normally distributed draw by the polar method: a point is drawn until
it lies within the unit circle. The bound on the attempts is never met in
practice; the average stands in for it. -/
def standardNormal : Nat → Random → Float × Random
  | 0, r => (0.0, r)
  | attempts + 1, r =>
    let (u, r) := r.between (-1.0) 1.0
    let (v, r) := r.between (-1.0) 1.0
    let s := u * u + v * v
    if s > 0.0 && s < 1.0 then (u * (-2.0 * s.log / s).sqrt, r) else standardNormal attempts r

/-- The attempts of a normally distributed draw. -/
def normalAttempts : Nat := 10000

/-- The ratio of a circle's circumference to its diameter. -/
def pi : Float := 3.141592653589793

/-- The value of a sine wave at a sample. -/
def sineValue (low high perCycle count : Float) : Float :=
  (count * 2.0 * pi / perCycle).sin * ((high - low) / 2.0) + (high + low) / 2.0

namespace Source

/-- The sample at an instant, if there is one, and the source after it. -/
def generate (source : Source) (now : Time.Instant) : Outcome (Option Sample × Source) :=
  match source with
  | silent => .done (none, silent)
  | clock pattern => do
    let text ← Time.render (Time.Moment.ofInstant now) pattern
    return (some { value := .text text, time := now }, clock pattern)
  | noise low high random =>
    let (x, random) := random.between low high
    .done (some { value := .number x, time := now }, noise low high random)
  | gaussian average deviation random =>
    let (z, random) := standardNormal normalAttempts random
    .done (some { value := .number (average + z * deviation), time := now },
      gaussian average deviation random)
  | ramp r =>
    let r := r.advance
    .done (some { value := .number r.current, time := now }, ramp r)
  | sine low high perCycle count =>
    .done (some { value := .number (sineValue low high perCycle count), time := now },
      sine low high perCycle (count + 1.0))
  | custom emit count => .done (emit count now, custom emit (count + 1))

/-- The limits that the variable of a source shows. -/
def limits : Source → Option Limits
  | silent | clock _ | custom _ _ => none
  | noise low high _ => some (Limits.display low high)
  | gaussian average deviation _ =>
    some (Limits.display (average - 4.0 * deviation) (average + 4.0 * deviation))
  | ramp r => some (Limits.display r.low r.high)
  | sine low high _ _ =>
    let range := high - low
    some
      { lowerDisplay := some low
        lowerAlarm := some (low + range * 0.1)
        lowerWarning := some (low + range * 0.2)
        upperWarning := some (low + range * 0.8)
        upperAlarm := some (low + range * 0.9)
        upperDisplay := some high }

end Source

end Generator

open Generator in
/-- A time-driven producer of samples. -/
structure Generator where
  /-- When samples are emitted. -/
  schedule : Schedule
  /-- What is emitted. -/
  source : Source

namespace Generator

/-- The sample at a clock position, if one is due, and the generator after it. -/
def step (g : Generator) (clock : Time.Clock) (now : Time.Instant) :
    Outcome (Option Sample × Generator) :=
  let (tick, schedule) := g.schedule.poll clock
  match tick with
  | .initial value => .done (some { value, time := now }, { g with schedule })
  | .idle => .done (none, { g with schedule })
  | .generate => do
    let (sample, source) ← g.source.generate now
    return (sample, ⟨schedule, source⟩)

/-- A generator that emits one value at its first position. -/
def constant (value : Value) : Generator := ⟨Schedule.once (some value), .silent⟩

/-- A generator that never emits. -/
def empty : Generator := ⟨Schedule.once none, .silent⟩

/-- The clock, with a pattern and an interval in seconds. -/
def clock (pattern : String) (seconds : Float) : Generator :=
  ⟨Schedule.every seconds, .clock (patternOrDefault pattern)⟩

/-- The numbers that arguments spell, each with a default; surplus arguments are ignored. -/
def resolveArguments : List String → List Float → List Float
  | _, [] => []
  | [], defaults => defaults
  | argument :: rest, default :: defaults =>
    (Decimal.number? argument.toList).getD default :: resolveArguments rest defaults

/-- The bounds and the interval of noise without arguments. -/
def noiseDefaults : List Float := [-5.0, 5.0, 1.0]

/-- The average, the deviation and the interval of normal noise without arguments. -/
def gaussianDefaults : List Float := [0.0, 1.0, 0.1]

/-- The bounds, the step and the interval of a ramp without arguments. -/
def rampDefaults : List Float := [-5.0, 5.0, 1.0, 1.0]

/-- The bounds, the samples per cycle and the interval of a sine wave without arguments. -/
def sineDefaults : List Float := [-5.0, 5.0, 10.0, 1.0]

/-- The generator of a simulated signal. -/
def ofSignal (kind : SignalKind) (arguments : List String) (seed : UInt64) : Generator :=
  match kind with
  | .noise =>
    match resolveArguments arguments noiseDefaults with
    | [low, high, seconds] => ⟨Schedule.every seconds, .noise low high (Random.ofSeed seed)⟩
    | _ => empty
  | .gaussianNoise =>
    match resolveArguments arguments gaussianDefaults with
    | [average, deviation, seconds] =>
      ⟨Schedule.every seconds, .gaussian average deviation (Random.ofSeed seed)⟩
    | _ => empty
  | .ramp =>
    match resolveArguments arguments rampDefaults with
    | [low, high, step, seconds] =>
      ⟨Schedule.every seconds, .ramp (Ramp.start low high step)⟩
    | _ => empty
  | .sine =>
    match resolveArguments arguments sineDefaults with
    | [low, high, perCycle, seconds] => ⟨Schedule.every seconds, .sine low high perCycle 0.0⟩
    | _ => empty

end Generator

end ProcessDisplay
