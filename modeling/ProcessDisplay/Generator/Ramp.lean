/-!
# Ramps

A ramp repeats from one end of a range to the other in equal steps. It
starts one step before its first end, so the first value is that end itself;
a value beyond the other end is replaced by the first end. The arithmetic is
a parameter: displays use binary numbers, and laws of the ramp are stated
over exact ones.
-/

namespace ProcessDisplay.Generator

/-- A ramp over numbers of a kind. -/
structure Ramp (α : Type) where
  /-- The lower end of the range. -/
  low : α
  /-- The upper end of the range. -/
  high : α
  /-- The step between two values. -/
  step : α
  /-- The last value, or the one before the first. -/
  current : α

namespace Ramp

variable {α : Type}

/-- The ramp before its first value. -/
def start [OfNat α 0] [Sub α] [LE α] [DecidableLE α] (low high step : α) : Ramp α :=
  ⟨low, high, step, if 0 ≤ step then low - step else high - step⟩

/-- The value after a value. -/
def following [Add α] [LT α] [DecidableLT α] (r : Ramp α) : α :=
  let next := r.current + r.step
  if r.high < next then r.low else if next < r.low then r.high else next

/-- The ramp at its next value. -/
def advance [Add α] [LT α] [DecidableLT α] (r : Ramp α) : Ramp α :=
  { r with current := r.following }

/-- The ramp at its value of a number, counted from zero. -/
def atIndex [Add α] [LT α] [DecidableLT α] (r : Ramp α) : Nat → Ramp α
  | 0 => r.advance
  | n + 1 => (atIndex r n).advance

end Ramp

end ProcessDisplay.Generator
