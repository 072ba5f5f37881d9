import ProcessDisplay.Document.Display
import ProcessDisplay.Engine.Operation

/-!
# Displays on an engine

The declarations of a display are registered in order: variables, then for
every widget its rules and scripts, then traces. The first refusal ends the
registration; what was registered before stays.
-/

namespace ProcessDisplay.Document

open Engine

variable {C : FormulaCompiler} {R : ScriptInterpreter}

/-- The widget of a declaration. -/
def WidgetDeclaration.widget (d : WidgetDeclaration) : Widget :=
  d.properties.foldl (fun w entry => w.define entry.1 entry.2.kind entry.2.default) ⟨d.name, []⟩

/-- The widgets of a display. -/
def Display.panel (d : Display) : Panel := d.widgets.map WidgetDeclaration.widget

/-- An action within something larger. -/
def inContext (context : String) (action : Action C R α) : Action C R α := fun e => do
  let (result, e) ← action e
  return (Failure.inContext context result, e)

/-- Registers the rules and scripts of the widget at a position. -/
def WidgetDeclaration.register (d : WidgetDeclaration) (panel : Panel) (position : Nat) :
    Action C R Unit := do
  let context := "widget '" ++ d.name ++ "'"
  d.rules.forM fun rule => do
    let _ ← inContext context (addRule panel position rule)
  d.scripts.forM fun script => do
    let _ ← inContext context (addScript position script)

/-- What a trace is fed with, where a capacity stands in for one that is not given. -/
def TraceDeclaration.request (d : TraceDeclaration) (capacity : Nat) : TraceRequest where
  vertical := d.vertical
  horizontal := d.horizontal
  settings :=
    { capacity := d.capacity.getD capacity, mode := d.mode, horizontal := d.source
      sorted := d.sorted }

/-- Creates a trace and returns its name and position. -/
def TraceDeclaration.register (d : TraceDeclaration) : Action C R (String × Nat) := do
  let capacity := (← Action.current).settings.traceCapacity
  let position ← inContext ("trace '" ++ d.name ++ "'") (createTrace (d.request capacity))
  return (d.name, position)

/-- Registers a display and returns the names and positions of its traces. -/
def Display.register (d : Display) : Action C R (List (String × Nat)) := do
  d.vars.forM fun name => do
    let _ ← create name
  d.widgets.zipIdx.forM fun (widget, position) => widget.register d.panel position
  d.traces.mapM TraceDeclaration.register

/-- The clock position of a tick. -/
def RunSettings.clock (r : RunSettings) (tick : Nat) : Time.Clock := tick * r.period

/-- What was seen of a tick. -/
structure TickView where
  /-- Whether the display has to be redrawn. -/
  changed : Bool
  /-- The variables after the tick. -/
  vars : List Variable
  /-- The widgets after the tick. -/
  panel : Panel
  /-- The failures of the tick. -/
  errors : List UnitFailure
  /-- The messages of the tick. -/
  messages : List Script.Message

/-- The stage after a tick whose failures and messages are taken. -/
def tickOnce (r : RunSettings) (wall : Time.Instant) (tick : Nat) (s : Stage C R) :
    Outcome (Stage C R × TickView) := do
  let (s, report) ← s.tick (r.clock tick) wall
  let (errors, engine) := s.engine.takeErrors
  let (messages, engine) := engine.takeMessages
  return (⟨engine, s.panel⟩, ⟨report.changed, engine.state.vars, s.panel, errors, messages⟩)

/-- The stage after some ticks from a number on, and what was seen of them,
added to what was seen before, the latest first. -/
def runTicks (r : RunSettings) (wall : Time.Instant) :
    Nat → Nat → Stage C R → List TickView → Outcome (Stage C R × List TickView)
  | 0, _, s, seen => .done (s, seen)
  | count + 1, tick, s, seen =>
    match tickOnce r wall tick s with
    | .crash => .crash
    | .done (s, view) => runTicks r wall count (tick + 1) s (view :: seen)

/-- The stage after some ticks from a number on, when nobody looks at them. -/
def runUnseen (r : RunSettings) (wall : Time.Instant) :
    Nat → Nat → Stage C R → Outcome (Stage C R)
  | 0, _, s => .done s
  | count + 1, tick, s =>
    match tickOnce r wall tick s with
    | .crash => .crash
    | .done (s, _) => runUnseen r wall count (tick + 1) s

/-- A display registered with an engine, or the refusal and the engine it left. -/
def Display.start (d : Display) (e : Engine C R) :
    Outcome (Except Failure (List (String × Nat)) × Stage C R) := do
  let (result, e) ← d.register e
  return (result, ⟨e, d.panel⟩)

end ProcessDisplay.Document
