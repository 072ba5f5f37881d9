/-!
# Pseudo-random numbers

A generator of 64 bits that shifts its state and combines it with itself. A
zero state would never change, so the zero seed is replaced. Draws are
uniform in the closed unit interval.
-/

namespace ProcessDisplay.Generator

/-- An odd constant: the step between the seeds of generators, and the stand-in for a zero seed. -/
def goldenStep : UInt64 := 0x9E3779B97F4A7C15

/-- The state of a random generator. -/
structure Random where
  /-- The 64 bits of the state. -/
  state : UInt64
  deriving DecidableEq, Repr

namespace Random

/-- The generator of a seed. -/
def ofSeed (seed : UInt64) : Random := ⟨if seed = 0 then goldenStep else seed⟩

/-- The state after a state. -/
def following (s : UInt64) : UInt64 :=
  let s := s ^^^ (s <<< 13)
  let s := s ^^^ (s >>> 7)
  s ^^^ (s <<< 17)

/-- The generator after one draw. -/
def advance (r : Random) : Random := ⟨following r.state⟩

/-- A state as a number of the unit interval. -/
def unitValue (s : UInt64) : Float := s.toFloat / (0xFFFFFFFFFFFFFFFF : UInt64).toFloat

/-- A draw from the unit interval and the generator after it. -/
def draw (r : Random) : Float × Random := (unitValue r.advance.state, r.advance)

/-- A draw between two bounds and the generator after it. -/
def between (r : Random) (low high : Float) : Float × Random :=
  (low + r.draw.1 * (high - low), r.draw.2)

end Random

end ProcessDisplay.Generator
