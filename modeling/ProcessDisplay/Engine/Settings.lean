import ProcessDisplay.Generator.Basic
import ProcessDisplay.Script.Limits
import ProcessDisplay.Trace.Buffer

/-!
# Settings of an engine

The settings bound the work of scripts and expressions and give defaults to
traces, to noise and to the clock.
-/

namespace ProcessDisplay.Engine

/-- The settings of an engine. -/
structure Settings where
  /-- The limits of scripts and expressions. -/
  limits : Script.Limits := {}
  /-- The number of points of a trace that does not say. -/
  traceCapacity : Nat := Trace.defaultCapacity
  /-- The seed of noise; without one the start time is the seed. -/
  seed : Option UInt64 := none
  /-- The pattern of the clock. -/
  clockPattern : String := Generator.defaultPattern
  /-- The interval of the clock in seconds. -/
  clockSeconds : Float := 1.0

/-- Whether settings are equal; an interval that is no number equals none. -/
def Settings.same (a b : Settings) : Bool :=
  a.limits = b.limits && a.traceCapacity = b.traceCapacity && a.seed = b.seed &&
    a.clockPattern = b.clockPattern && a.clockSeconds == b.clockSeconds

instance : BEq Settings := ⟨Settings.same⟩

end ProcessDisplay.Engine
