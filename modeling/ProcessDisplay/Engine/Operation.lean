import ProcessDisplay.Engine.Tick
import ProcessDisplay.Trace.Edit

/-!
# Operations on an engine

An application drives an engine and the widgets of its display by a fixed
set of operations. A run is a list of operations; it ends early if one of
them ends the program.
-/

namespace ProcessDisplay.Engine

variable {C : FormulaCompiler} {R : ScriptInterpreter}

/-- What an application does with an engine. -/
inductive Operation where
  /-- The variable of a name is found or created. -/
  | create (name : String)
  /-- A variable with a custom generator is added. -/
  | registerGenerator (name : String) (generator : Generator)
  /-- A value is written to a variable. -/
  | setValue (name : String) (value : Value)
  /-- A rule is registered for a widget. -/
  | addRule (widget : Nat) (d : RuleDeclaration)
  /-- A script is registered for a widget. -/
  | addScript (widget : Nat) (d : ScriptDeclaration)
  /-- A trace is created. -/
  | createTrace (request : TraceRequest)
  /-- The display is ticked to a clock position. -/
  | tick (clock : Time.Clock) (wall : Time.Instant)
  /-- The display is dropped and a new one starts at an instant. -/
  | reset (epoch : Time.Instant)
  /-- A property of a widget is set from outside. -/
  | assign (widget : Nat) (property : String) (value : Value)
  /-- A trace is edited from outside. -/
  | editTrace (trace : Nat) (edit : Trace.Edit)
  /-- The recorded failures are taken. -/
  | takeErrors
  /-- The recorded messages are taken. -/
  | takeMessages

/-- What an operation answers. -/
inductive Answer where
  /-- The position of what was found or added, or a refusal. -/
  | position (result : Except Failure Nat)
  /-- Success or a refusal. -/
  | settled (result : Except Failure Unit)
  /-- What happened in a tick. -/
  | ticked (report : TickReport)
  /-- The histories to be disconnected. -/
  | released (histories : List Trace.History)
  /-- What an edit of a trace did, if the trace exists. -/
  | edited (result : Option Trace.Edited)
  /-- The recorded failures. -/
  | errors (failures : List UnitFailure)
  /-- The recorded messages. -/
  | messages (messages : List Script.Message)

namespace Stage

/-- The stage after an action on its engine. -/
def act (s : Stage C R) (action : Action C R α) (answer : Except Failure α → Answer) :
    Outcome (Answer × Stage C R) := do
  let (result, engine) ← action s.engine
  return (answer result, { s with engine })

/-- The stage with another value of a property of a widget. -/
def assign (s : Stage C R) (widget : Nat) (property : String) (value : Value) :
    Except Failure Unit × Stage C R :=
  match (s.panel.widget widget).assign property value with
  | .ok w => (.ok (), { s with panel := s.panel.set widget w })
  | .error failure => (.error failure, s)

/-- The stage after an edit of a trace. -/
def editTrace (s : Stage C R) (trace : Nat) (edit : Trace.Edit) :
    Option Trace.Edited × Stage C R :=
  let state := s.engine.state
  match state.traces[trace]? with
  | none => (none, s)
  | some unit =>
    let edited := unit.buffer.edit edit
    let traces := state.traces.set trace { unit with buffer := edited.buffer }
    (some edited, { s with engine := s.engine.withState { state with traces } })

/-- The answer to an operation and the stage after it. -/
def perform (s : Stage C R) : Operation → Outcome (Answer × Stage C R)
  | .create name => s.act (create name) .position
  | .registerGenerator name generator => s.act (registerGenerator name generator) .position
  | .setValue name value => s.act (setValue name value) .settled
  | .addRule widget d => s.act (addRule s.panel widget d) .position
  | .addScript widget d => s.act (addScript widget d) .position
  | .createTrace request => s.act (createTrace request) .position
  | .tick clock wall => do
    let (s, report) ← s.tick clock wall
    return (.ticked report, s)
  | .reset epoch =>
    let (engine, released) := s.engine.reset epoch
    .done (.released released, { s with engine })
  | .assign widget property value =>
    let (result, s) := s.assign widget property value
    .done (.settled result, s)
  | .editTrace trace edit =>
    let (result, s) := s.editTrace trace edit
    .done (.edited result, s)
  | .takeErrors =>
    let (failures, engine) := s.engine.takeErrors
    .done (.errors failures, { s with engine })
  | .takeMessages =>
    let (messages, engine) := s.engine.takeMessages
    .done (.messages messages, { s with engine })

/-- The answers to operations in order and the stage after them. -/
def run (s : Stage C R) : List Operation → Outcome (List Answer × Stage C R)
  | [] => .done ([], s)
  | operation :: rest => do
    let (answer, s) ← s.perform operation
    let (answers, s) ← s.run rest
    return (answer :: answers, s)

end Stage

end ProcessDisplay.Engine
