import ProcessDisplay.Engine.Propagation
import ProcessDisplay.Engine.Registration

/-!
# Ticks

A tick takes the variables that changed since the last one, advances every
generator, propagates the changes through the formulas, feeds the traces and
runs the units that have to run: those that are new and those with a changed
trigger, rules before scripts, each kind in the order of registration. What
a script writes is seen by formulas, traces and units at the next tick. The
failure of a unit is recorded and stops nothing else.
-/

namespace ProcessDisplay.Engine

variable {C : FormulaCompiler} {R : ScriptInterpreter}

/-- The generators, their variables and what they changed. -/
structure Advance where
  /-- The generators after the tick. -/
  generators : List GeneratorSlot := []
  /-- The variables after the samples. -/
  vars : List Variable
  /-- The variables that changed, in order. -/
  changed : List VariableId := []

/-- The variables after a sample for one of them. -/
def Advance.sample (a : Advance) (id : VariableId) (sample : Sample) : Advance :=
  match a.vars[id]? with
  | some v =>
    let (after, changed) := v.apply sample
    { a with
      vars := a.vars.set id after
      changed := if changed then a.changed ++ [id] else a.changed }
  | none => a

/-- Advances generators in order to a clock position. -/
def advance (clock : Time.Clock) (now : Time.Instant) :
    List GeneratorSlot → Advance → Outcome Advance
  | [], a => .done a
  | slot :: rest, a => do
    let (sample, generator) ← slot.generator.step clock now
    let a := { a with generators := a.generators ++ [{ slot with generator }] }
    match sample with
    | some s => advance clock now rest (a.sample slot.variableId s)
    | none => advance clock now rest a

/-- The trace with the value of a changed variable as horizontal value. -/
def TraceUnit.feedHorizontal (t : TraceUnit) (vars : List Variable) (dirty : VariableSet) :
    Trace.Buffer :=
  match t.horizontal with
  | none => t.buffer
  | some id =>
    if dirty.contains id then
      match vars[id]?.bind Variable.value with
      | some value => t.buffer.stageX value
      | none => t.buffer
    else t.buffer

/-- The trace with the values of changed variables. Both coordinates are
staged before the commit, so a tick adds at most one point. -/
def TraceUnit.feed (t : TraceUnit) (vars : List Variable) (dirty : VariableSet)
    (now wall : Time.Instant) : TraceUnit :=
  let b := t.feedHorizontal vars dirty
  let b :=
    if dirty.contains t.vertical then
      match vars[t.vertical]? with
      | some v =>
        match v.value with
        | some value => b.stageY value (v.time.getD now)
        | none => b
      | none => b
    else b
  { t with buffer := (b.commit wall).1 }

/-- The state with the traces fed by changed variables. -/
def State.feed (s : State C) (dirty : VariableSet) (wall : Time.Instant) : State C :=
  { s with traces := s.traces.map fun t => t.feed s.vars dirty s.now wall }

/-- The units that have to run: the new ones and those with a changed trigger. -/
def State.due (s : State C) (dirty : VariableSet) : UnitSet :=
  (dirty.flatMap s.triggers.dependents).foldl
    (fun set unit => if unit.isFormula then set else set.add unit) s.fresh

/-- A run of a rule or script. -/
structure UnitRun where
  /-- The unit. -/
  unit : UnitRef
  /-- The snapshots of its inputs that it received. -/
  snapshots : List Snapshot

/-- An engine and the widgets of its display. -/
structure Stage (C : FormulaCompiler) (R : ScriptInterpreter) where
  /-- The engine. -/
  engine : Engine C R
  /-- The widgets. -/
  panel : Panel

/-- The stage after a run of a rule. -/
def Stage.runRule (s : Stage C R) (unit : RuleUnit) (snapshots : List Snapshot) :
    Outcome (Stage C R) := do
  match ← unit.rule.execute Rule.expressionEvaluation snapshots (s.panel.widget unit.widget) with
  | .ok widget => return { s with panel := s.panel.set unit.widget widget }
  | .error failure =>
    return { s with engine := s.engine.record ("rule '" ++ unit.rule.name ++ "'") failure }

/-- The failure of a script that may have stopped. -/
def recordResult (e : Engine C R) (label : String) (result : Except Failure Unit) : Engine C R :=
  match result with
  | .ok _ => e
  | .error failure => e.record label failure

/-- The engine after a write of a script. A refused write is recorded. -/
def applyWrite (label : String) (inputs : List VariableId) (e : Engine C R)
    (write : Nat × Value) : Engine C R :=
  match inputs[write.1]? with
  | none => e.record label (.script (.noInput write.1))
  | some id =>
    match e.state.write id write.2 with
    | .ok state => e.withState state
    | .error failure => e.record label failure

/-- The stage after a run of a script. Its writes and messages take effect
also if it stopped. -/
def Stage.runScript (s : Stage C R) (unit : ScriptUnit) (snapshots : List Snapshot) :
    Outcome (Stage C R) := do
  let label := "script '" ++ unit.name ++ "'"
  let ((result, context), memory) ← R.run s.engine.memory unit.body
    { script := unit.name, widget := s.panel.widget unit.widget, snapshots }
  let e := { s.engine with memory }
  let e := context.writes.foldl (applyWrite label unit.inputs) (e.recordResult label result)
  return ⟨{ e with messages := e.messages ++ context.messages },
    s.panel.set unit.widget context.widget⟩

/-- The inputs of a unit. -/
def State.inputsOf (s : State C) : UnitRef → List VariableId
  | .formula _ => []
  | .rule id => (s.rules[id]?.map RuleUnit.inputs).getD []
  | .script id => (s.scripts[id]?.map ScriptUnit.inputs).getD []

/-- The stage after a run of a unit with the present snapshots of its inputs,
and the run. -/
def Stage.runUnit (s : Stage C R) (unit : UnitRef) : Outcome (Stage C R × UnitRun) := do
  let state := s.engine.state
  let snapshots := state.snapshots (state.inputsOf unit)
  let after ← match unit with
    | .formula _ => .done s
    | .rule id =>
      match state.rules[id]? with
      | some rule => s.runRule rule snapshots
      | none => .done s
    | .script id =>
      match state.scripts[id]? with
      | some script => s.runScript script snapshots
      | none => .done s
  return (after, ⟨unit, snapshots⟩)

/-- The stage after runs of units in order, and the runs. -/
def Stage.runUnits (s : Stage C R) : List UnitRef → Outcome (Stage C R × List UnitRun)
  | [] => .done (s, [])
  | unit :: rest => do
    let (s, run) ← s.runUnit unit
    let (s, runs) ← s.runUnits rest
    return (s, run :: runs)

/-- What happened in a tick. -/
structure TickReport where
  /-- Whether the display has to be redrawn. -/
  changed : Bool
  /-- The variables that generators changed, in order. -/
  generated : List VariableId
  /-- The evaluations of formulas, in order. -/
  formulas : List FormulaRun
  /-- The variables that changed, as formulas left them. -/
  dirty : VariableSet
  /-- The runs of rules and scripts, in order. -/
  units : List UnitRun

/-- The engine at a clock position, with nothing pending any more. -/
def beginTick (e : Engine C R) (a : Advance) (now : Time.Instant) : Engine C R :=
  e.withState
    { e.state with
      now, vars := a.vars, generators := a.generators, pending := [], changed := false }

/-- A tick at a clock position and at an instant of the wall clock. -/
def Stage.tick (s : Stage C R) (clock : Time.Clock) (wall : Time.Instant) :
    Outcome (Stage C R × TickReport) := do
  let e := s.engine
  let now ← Time.instantAt e.state.epoch clock
  let a ← advance clock now e.state.generators { vars := e.state.vars }
  let p ← propagate (e.beginTick a now) (a.changed.foldl VariableSet.add e.state.pending)
  let state := p.engine.state.feed p.dirty wall
  let due := state.due p.dirty
  let (after, runs) ←
    Stage.runUnits ⟨p.engine.withState { state with fresh := [] }, s.panel⟩ due
  let changed := e.state.changed || !a.changed.isEmpty || !due.isEmpty
  return (after, ⟨changed, a.changed, p.runs, p.dirty, runs⟩)

end ProcessDisplay.Engine
