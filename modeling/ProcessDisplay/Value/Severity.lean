/-!
# Alarm severities

The severities are ordered from no alarm to undefined; the order is that of
their codes.
-/

namespace ProcessDisplay

/-- The alarm severity of a process variable. -/
inductive Severity where
  /-- No alarm. -/
  | noAlarm
  /-- A warning. -/
  | minor
  /-- An alarm. -/
  | major
  /-- The value is not valid. -/
  | invalid
  /-- No value has been received. -/
  | undefined
  deriving DecidableEq, Repr

/-- Before any value the severity is undefined. -/
instance : Inhabited Severity := ⟨.undefined⟩

namespace Severity

/-- The numeric code that rules and scripts see. -/
def code : Severity → Nat
  | noAlarm => 0
  | minor => 1
  | major => 2
  | invalid => 3
  | undefined => 4

/-- The written form. -/
def text : Severity → String
  | noAlarm => "NONE"
  | minor => "MINOR"
  | major => "MAJOR"
  | invalid => "INVALID"
  | undefined => "UNDEFINED"

/-- The more severe of two severities. -/
protected def max (a b : Severity) : Severity := if a.code ≤ b.code then b else a

/-- The less severe of two severities. -/
protected def min (a b : Severity) : Severity := if a.code ≤ b.code then a else b

/-- The most severe of a list, if it is not empty. -/
def greatest? : List Severity → Option Severity
  | [] => none
  | first :: rest => some (rest.foldl Severity.max first)

/-- The least severe of a list, if it is not empty. -/
def least? : List Severity → Option Severity
  | [] => none
  | first :: rest => some (rest.foldl Severity.min first)

/-- The most severe of a list, or no alarm for an empty one. -/
def worst (severities : List Severity) : Severity := (greatest? severities).getD noAlarm

end Severity

end ProcessDisplay
