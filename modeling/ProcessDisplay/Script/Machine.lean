import ProcessDisplay.Script.Language
import ProcessDisplay.Script.Library

/-!
# The state of an evaluation

An evaluation has the variables in scope and the number of operations so
far. It ends early with a signal: a fault, a thrown value or a jump. The
state at that moment is kept, so what was done before stays done. Calls of
the host are steps of its course.
-/

namespace ProcessDisplay.Script

/-- The state of an evaluation. -/
structure Machine where
  /-- The variables, the innermost first. -/
  scope : List Slot
  /-- The operations performed so far. -/
  operations : Nat := 0

/-- Why an evaluation ends before its end. -/
inductive Signal where
  /-- A fault of the language. -/
  | fault (f : Fault)
  /-- A thrown value. -/
  | thrown (d : Datum)
  /-- The end of a loop. -/
  | leaveLoop (d : Datum)
  /-- The next round of a loop. -/
  | nextRound
  /-- The end of a function or script. -/
  | giveBack (d : Datum)

/-- An evaluation that may end early and keeps its state in any case. -/
abbrev Run (α : Type) := ExceptT Signal (StateT Machine Course) α

namespace Run

/-- Ends with a fault. -/
def fail (f : Fault) : Run α := throw (.fault f)

/-- Ends the program. -/
def crash : Run α := fun _ => .crashes

/-- The value of a computation, or its fault. -/
def lift (result : Except Fault α) : Run α :=
  match result with
  | .ok a => pure a
  | .error f => fail f

/-- Performs one operation. -/
def charge (limits : Limits) : Run Unit := do
  let m ← get
  set { m with operations := m.operations + 1 }
  if exceeds (m.operations + 1) limits.operations then fail .tooManyOperations

/-- An evaluation whose new variables are dropped at its end, however it ends. -/
def enclosed (body : Run α) : Run α := fun m => do
  let (result, after) ← body m
  return (result, { after with scope := after.scope.drop (after.scope.length - m.scope.length) })

/-- An evaluation with variables of its own, after which the present ones are back. -/
def isolated (scope : List Slot) (body : Run α) : Run α := fun m => do
  let (result, after) ← body { m with scope }
  return (result, { after with scope := m.scope })

/-- Adds a variable. -/
def declare (name : String) (isConstant : Bool) (value : Datum) : Run Unit :=
  modify fun m => { m with scope := ⟨name, isConstant, value⟩ :: m.scope }

/-- The innermost variable of a name. -/
def slot (name : String) : Run Slot := do
  match (← get).scope.find? fun s => s.name = name with
  | some s => return s
  | none => fail (.unknownVariable name)

/-- Variables with a new value for the innermost one of a name. -/
def assigned (name : String) (value : Datum) : List Slot → List Slot
  | [] => []
  | s :: rest =>
    if s.name = name then { s with value } :: rest else s :: assigned name value rest

/-- Gives the innermost variable of a name a new value. -/
def assign (name : String) (value : Datum) : Run Unit :=
  modify fun m => { m with scope := assigned name value m.scope }

/-- How an evaluation goes on with a reply of the host. A failure of the host
is thrown. -/
def received (m : Machine) : Reply → Except Signal (Option Datum) × Machine
  | none => (.ok none, m)
  | some (.ok d) => (.ok (some d), m)
  | some (.error text) => (.error (.thrown (.text text)), m)

/-- The result of a function of the host, if the host has it. -/
def ask (name : String) (arguments : List Datum) : Run (Option Datum) := fun m =>
  .calls name arguments fun reply => .ends (received m reply)

/-- Repeats a round as long as it asks for another one. -/
def repeatWhile (round : Run Bool) : Nat → Run Unit
  | 0 => crash
  | fuel + 1 => do
    if ← round then repeatWhile round fuel

/-- Performs a round for every element of a list until one asks to stop. -/
def forItems (round : Nat → Datum → Run Bool) : Nat → List Datum → Run Unit
  | _, [] => pure ()
  | count, item :: rest => do
    if ← round count item then forItems round (count + 1) rest

/-- Performs a round for every integer from one on until one asks to stop. -/
def forIntegers (round : Nat → Datum → Run Bool) : Nat → Nat → Int → Run Unit
  | _, 0, _ => pure ()
  | count, left + 1, n => do
    if ← round count (.integer n) then forIntegers round (count + 1) left (n + 1)

end Run

end ProcessDisplay.Script
