import ProcessDisplay.Time.Instant
import ProcessDisplay.Value.Basic
import ProcessDisplay.Value.Severity

/-!
# Samples and limits

A sample is one update of one process variable: a value, its time and its
alarm severity. Limits describe the range in which a variable is displayed
and the thresholds of its alarms.
-/

namespace ProcessDisplay

/-- One value update. -/
structure Sample where
  /-- The new value. -/
  value : Value
  /-- When the value was produced. -/
  time : Time.Instant
  /-- The alarm severity that comes with the value. -/
  severity : Severity := .noAlarm

/-- Display, alarm and warning limits. -/
structure Limits where
  /-- The lower end of the display range. -/
  lowerDisplay : Option Float := none
  /-- Values below are alarms. -/
  lowerAlarm : Option Float := none
  /-- Values below are warnings. -/
  lowerWarning : Option Float := none
  /-- Values above are warnings. -/
  upperWarning : Option Float := none
  /-- Values above are alarms. -/
  upperAlarm : Option Float := none
  /-- The upper end of the display range. -/
  upperDisplay : Option Float := none

/-- Limits that only give a display range. -/
def Limits.display (low high : Float) : Limits :=
  { lowerDisplay := some low, upperDisplay := some high }

end ProcessDisplay
