import ProcessDisplay.Engine.Evaluation

/-!
# Propagation of changes through formulas

Changed variables wait in a queue. The formulas that a variable triggers are
evaluated, and a formula variable that changed joins the queue. Formulas read
only variables that were created before them, so the queue runs empty; the
bound below counts every path through the graph and is never met.
-/

namespace ProcessDisplay.Engine

variable {C : FormulaCompiler} {R : ScriptInterpreter}

/-- An evaluation of a formula during propagation. -/
structure FormulaRun where
  /-- The position of the formula. -/
  formula : Nat
  /-- Whether its variable changed. -/
  changed : Bool
  deriving DecidableEq, Repr

/-- A propagation under way. -/
structure Propagation (C : FormulaCompiler) (R : ScriptInterpreter) where
  /-- The engine so far. -/
  engine : Engine C R
  /-- The variables whose formulas are still to be evaluated. -/
  queue : List VariableId
  /-- All changed variables so far. -/
  dirty : VariableSet
  /-- The evaluations so far. -/
  runs : List FormulaRun := []

/-- The formulas among some units. -/
def formulasOf (units : List UnitRef) : List Nat :=
  units.filterMap fun
    | .formula id => some id
    | _ => none

namespace Propagation

/-- The propagation after the evaluation of a formula. -/
def visit (p : Propagation C R) (id : Nat) : Outcome (Propagation C R) := do
  let (changed, engine) ← evaluateFormula id p.engine
  let p := { p with engine, runs := p.runs ++ [⟨id, changed⟩] }
  match engine.state.formulas[id]? with
  | some unit =>
    return if changed then
      { p with queue := p.queue ++ [unit.variableId], dirty := p.dirty.add unit.variableId }
    else p
  | none => return p

/-- The propagation after the evaluation of formulas in order. -/
def visitAll (p : Propagation C R) : List Nat → Outcome (Propagation C R)
  | [] => .done p
  | id :: rest => do (← p.visit id).visitAll rest

/-- The propagation after the formulas of the first waiting variable. -/
def advance (p : Propagation C R) (first : VariableId) (rest : List VariableId) :
    Outcome (Propagation C R) :=
  { p with queue := rest }.visitAll (formulasOf (p.engine.state.triggers.dependents first))

/-- The propagation after at most so many variables of the queue. -/
def settle : Nat → Propagation C R → Outcome (Propagation C R)
  | 0, p => .done p
  | bound + 1, p =>
    match p.queue with
    | [] => .done p
    | first :: rest => do settle bound (← p.advance first rest)

/-- A number that no queue exceeds: every waiting variable counts for all
paths that may lead away from it. -/
def bound (s : State C) (queue : List VariableId) : Nat :=
  queue.foldr (fun id total => Nat.pow (s.formulas.length + 1) (s.vars.length - id) + total) 0

/-- The propagation of some changed variables at its start. -/
def begin (e : Engine C R) (dirty : VariableSet) : Propagation C R :=
  { engine := e, queue := dirty, dirty }

end Propagation

/-- The propagation of some changed variables at its end. -/
def propagate (e : Engine C R) (dirty : VariableSet) : Outcome (Propagation C R) :=
  (Propagation.begin e dirty).settle (Propagation.bound e.state dirty)

end ProcessDisplay.Engine
