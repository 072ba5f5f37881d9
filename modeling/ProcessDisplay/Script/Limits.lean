/-!
# Limits on scripts and expressions

Every limit bounds one resource of a single evaluation or of a source text,
so that a runaway script ends with a failure. Zero stands for no limit,
except for the nesting of calls.
-/

namespace ProcessDisplay.Script

/-- Limits that hold for every formula, rule and script of a display. -/
structure Limits where
  /-- The most operations that one evaluation performs. -/
  operations : Nat := 100000
  /-- The deepest nesting of calls to functions of the script. -/
  callLevels : Nat := 32
  /-- The deepest nesting of a source text. -/
  depth : Nat := 64
  /-- The longest text in bytes. -/
  textSize : Nat := 10000
  /-- The most elements of an array or a map. -/
  items : Nat := 10000
  deriving DecidableEq, Repr

/-- Whether an amount goes beyond a limit. -/
def exceeds (amount limit : Nat) : Bool := limit ≠ 0 && amount > limit

end ProcessDisplay.Script
