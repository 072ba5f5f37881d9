import ProcessDisplay.Value.Sample

/-!
# Process variables

A variable is a named cell. It has no value until its first sample and
reports whether a sample changed its value or its severity. Units see it
through a snapshot.
-/

namespace ProcessDisplay

/-- Where a variable gets its values from. -/
inductive VariableKind where
  /-- From the display, with the literal it was declared with. -/
  | localVariable (initializer : Option String)
  /-- From a generator. -/
  | simulated
  /-- From a formula. -/
  | formula
  deriving DecidableEq, Repr

/-- What a unit sees of a variable. -/
structure Snapshot where
  /-- The name of the variable. -/
  name : String
  /-- Its value, if it has one. -/
  value : Option Value
  /-- Its severity. -/
  severity : Severity
  /-- The number of places of its text. -/
  precision : Option Nat := none
  /-- The time of its value. -/
  time : Option Time.Instant := none
  deriving DecidableEq

namespace Snapshot

/-- The numeric view. -/
def number (s : Snapshot) : Float :=
  match s.value with
  | some v => v.toNumber
  | none => Value.notNumber

/-- The integer view. -/
def integer (s : Snapshot) : Int :=
  match s.value with
  | some v => v.toInteger
  | none => 0

/-- The text view. -/
def text (s : Snapshot) : String :=
  match s.value with
  | some v => v.toText s.precision
  | none => ""

end Snapshot

/-- A process variable. -/
structure Variable where
  /-- The registry key. -/
  name : String
  /-- Where the values come from. -/
  kind : VariableKind
  /-- The current value. -/
  value : Option Value := none
  /-- The time of the current value. -/
  time : Option Time.Instant := none
  /-- The current severity. -/
  severity : Severity := .undefined
  /-- The limits that are shown with the variable. -/
  limits : Limits := {}
  /-- The number of places of its text. -/
  precision : Option Nat := none

namespace Variable

/-- Whether the display may write the variable. -/
def isWritable (v : Variable) : Bool :=
  match v.kind with
  | .localVariable _ => true
  | _ => false

/-- Whether the variable has received no sample yet. -/
def isDisconnected (v : Variable) : Bool := v.value.isNone

/-- Whether the present value is known to equal another one. -/
def holds (v : Variable) (value : Value) : Bool :=
  match v.value with
  | some present => present == value
  | none => false

/-- The variable after a sample, and whether its value or severity changed. -/
def apply (v : Variable) (sample : Sample) : Variable × Bool :=
  ({ v with value := some sample.value, time := some sample.time, severity := sample.severity },
    !v.holds sample.value || v.severity != sample.severity)

/-- The numeric view. -/
def number (v : Variable) : Float :=
  match v.value with
  | some value => value.toNumber
  | none => Value.notNumber

/-- The text view. -/
def text (v : Variable) : String :=
  match v.value with
  | some value => value.toText v.precision
  | none => ""

/-- What a unit sees. -/
def snapshot (v : Variable) : Snapshot :=
  ⟨v.name, v.value, v.severity, v.precision, v.time⟩

end Variable

end ProcessDisplay
