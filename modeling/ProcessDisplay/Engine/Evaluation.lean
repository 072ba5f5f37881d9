import ProcessDisplay.Engine.Basic

/-!
# Evaluation of formulas

A formula is supplied with the present states of its parameters. Once every
parameter has a value it is executed, and its variable gets the result with
the severity of the parameters. A failure is recorded and makes the variable
invalid.
-/

namespace ProcessDisplay

/-- The state of a variable as a formula receives it. -/
def DataSource.ofVariable (v : Variable) : DataSource :=
  match v.value with
  | some value => ⟨some value, v.severity, true⟩
  | none => {}

namespace Engine

variable {C : FormulaCompiler} {R : ScriptInterpreter}

/-- A formula with the present states of its parameters. -/
def State.supplied (s : State C) (unit : FormulaUnit C) : C.Formula :=
  ((C.parameters unit.formula).zip unit.parameters).foldl
    (fun f parameter =>
      match s.vars[parameter.2]? with
      | some v => C.supply f parameter.1 (DataSource.ofVariable v)
      | none => f)
    unit.formula

/-- The state with another compiled formula in a unit. -/
def State.setFormula (s : State C) (id : Nat) (unit : FormulaUnit C) (formula : C.Formula) :
    State C :=
  { s with formulas := s.formulas.set id { unit with formula } }

/-- The engine after a result for the variable of a formula, and whether the
variable changed. -/
def accept (e : Engine C R) (id : VariableId) (severity : Severity)
    (result : Except Failure Value) : Bool × Engine C R :=
  match result with
  | .ok value =>
    let (state, changed) := e.state.apply id { value, time := e.state.now, severity }
    (changed, e.withState state)
  | .error failure =>
    match e.state.vars[id]? with
    | none => (false, e)
    | some v =>
      (v.severity != .invalid,
        (e.record v.name failure).withState
          (e.state.setVariable id { v with severity := .invalid }))

/-- Evaluates a formula and says whether its variable changed. -/
def evaluateFormula (id : Nat) (e : Engine C R) : Outcome (Bool × Engine C R) :=
  match e.state.formulas[id]? with
  | none => .done (false, e)
  | some unit =>
    let formula := e.state.supplied unit
    if C.isReady formula then do
      let (result, executed) ← C.execute formula
      return (e.withState (e.state.setFormula id unit executed)).accept unit.variableId
        (C.severity formula) result
    else .done (false, e.withState (e.state.setFormula id unit formula))

end Engine

end ProcessDisplay
