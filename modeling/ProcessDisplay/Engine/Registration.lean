import ProcessDisplay.Engine.Registry

/-!
# Registration of rules, scripts and traces

A unit is checked before any of its inputs is created, and the inputs are
created as a whole. A rule or script runs at the tick after its registration
and whenever one of its triggers changes.
-/

namespace ProcessDisplay

/-- The widgets of a display; a widget is known by its position. -/
abbrev Panel := List Widget

/-- The widget at a position; without one, a widget that has no properties. -/
def Panel.widget (panel : Panel) (position : Nat) : Widget := panel[position]?.getD ⟨"", []⟩

namespace Engine

variable {C : FormulaCompiler} {R : ScriptInterpreter}

/-- Finds or creates the variables of names in order. -/
def resolveAll (names : List String) : Action C R (List VariableId) :=
  names.mapM (resolve (C.nesting + 1))

/-- Finds or creates the variables of inputs, all of them or none. -/
def createInputs (inputs : List Input) : Action C R (List VariableId) := do
  let names := inputs.map Input.name
  Action.ofExcept (names.forM (← Action.current).state.checkName)
  transaction (resolveAll names)

/-- The variables that make a unit with some inputs run. -/
def triggersOf (inputs : List Input) (ids : List VariableId) : List VariableId :=
  (inputs.zip ids).filterMap fun input => if input.1.isTrigger then some input.2 else none

/-- Registers a rule for the widget at a position and returns its position. -/
def addRule (panel : Panel) (widget : Nat) (d : RuleDeclaration) : Action C R Nat := do
  let limits := (← Action.current).settings.limits
  let rule ← Action.ofExcept
    (Rule.compile (R.expression limits) d (panel.widget widget))
  let inputs ← createInputs d.inputs
  let position := (← Action.current).state.rules.length
  Action.update (·.addRule { rule, widget, inputs } (triggersOf d.inputs inputs))
  return position

/-- Checks the body of a script. -/
def validate (name body : String) : Action C R Unit := fun e =>
  let (result, memory) := R.validate e.memory body
  .done (Failure.inContext ("script '" ++ name ++ "'") result, { e with memory })

/-- Registers a script for the widget at a position and returns its position. -/
def addScript (widget : Nat) (d : ScriptDeclaration) : Action C R Nat := do
  validate d.name d.body
  let inputs ← createInputs d.inputs
  let position := (← Action.current).state.scripts.length
  Action.update
    (·.addScript { name := d.name, body := d.body, widget, inputs } (triggersOf d.inputs inputs))
  return position

/-- What a trace is fed with. -/
structure TraceRequest where
  /-- The name of the variable of the vertical coordinate. -/
  vertical : String
  /-- The name of the variable of the horizontal coordinate. -/
  horizontal : Option String := none
  /-- The settings of the trace. -/
  settings : Trace.Settings := {}
  deriving DecidableEq, Repr

/-- Whether a trace has what its settings need. -/
def TraceRequest.check (r : TraceRequest) : Except Failure Unit :=
  if r.settings.horizontal = .variable && r.horizontal.isNone then
    .error (.config (.noHorizontalName r.vertical))
  else .ok ()

/-- Creates a trace and returns its position. -/
def createTrace (r : TraceRequest) : Action C R Nat := do
  Action.ofExcept r.check
  let names := r.vertical :: r.horizontal.toList
  Action.ofExcept (names.forM (← Action.current).state.checkName)
  let ids ← transaction (resolveAll names)
  let position := (← Action.current).state.traces.length
  Action.update
    (·.addTrace
      { vertical := ids.headD invalidId, horizontal := ids.tail.head?
        buffer := Trace.Buffer.empty r.settings })
  return position

end Engine

end ProcessDisplay
