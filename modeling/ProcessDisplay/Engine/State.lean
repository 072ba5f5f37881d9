import ProcessDisplay.Engine.Trigger
import ProcessDisplay.Formula.Compiler
import ProcessDisplay.Generator.Basic
import ProcessDisplay.Rule.Basic
import ProcessDisplay.Trace.Buffer
import ProcessDisplay.Variable

/-!
# The state of a display

All that belongs to one display: its variables with their names, the units
that react to them, the traces, the trigger graph and what has changed since
the last tick. Variables and units are known by their positions. A
construction that fails is undone by returning to the sizes of a checkpoint.
-/

namespace ProcessDisplay.Engine

/-- A list in ascending order with one more item, which is not repeated. -/
def insertOrdered [DecidableEq α] (before : α → α → Bool) (item : α) : List α → List α
  | [] => [item]
  | first :: rest =>
    if item = first then first :: rest
    else if before item first then item :: first :: rest
    else first :: insertOrdered before item rest

/-- A set of variables, in ascending order. -/
abbrev VariableSet := List VariableId

/-- A set with one more variable. -/
def VariableSet.add (set : VariableSet) (id : VariableId) : VariableSet :=
  insertOrdered (· < ·) id set

/-- A set of units, rules before scripts and each in the order of registration. -/
abbrev UnitSet := List UnitRef

/-- A set with one more unit. -/
def UnitSet.add (set : UnitSet) (unit : UnitRef) : UnitSet :=
  insertOrdered UnitRef.before unit set

/-- A generator and the variable that it drives. -/
structure GeneratorSlot where
  /-- The variable that gets the samples. -/
  variableId : VariableId
  /-- The generator. -/
  generator : Generator

/-- A formula and the variable that it computes. -/
structure FormulaUnit (C : FormulaCompiler) where
  /-- The variable that gets the results. -/
  variableId : VariableId
  /-- The variables of the parameters in order. -/
  parameters : List VariableId
  /-- The compiled formula. -/
  formula : C.Formula

/-- A rule with its widget and its inputs. -/
structure RuleUnit where
  /-- The compiled rule. -/
  rule : Rule Script.Expression
  /-- The position of the widget. -/
  widget : Nat
  /-- The variables of the inputs in order. -/
  inputs : List VariableId

/-- A script with its widget and its inputs. -/
structure ScriptUnit where
  /-- The name. -/
  name : String
  /-- The source text. -/
  body : String
  /-- The position of the widget. -/
  widget : Nat
  /-- The variables of the inputs in order. -/
  inputs : List VariableId

/-- A trace and the variables of its coordinates. -/
structure TraceUnit where
  /-- The variable of the vertical coordinate. -/
  vertical : VariableId
  /-- The variable of the horizontal coordinate. -/
  horizontal : Option VariableId
  /-- The points. -/
  buffer : Trace.Buffer

/-- The state of a display. -/
structure State (C : FormulaCompiler) where
  /-- The variables in the order of creation. -/
  vars : List Variable := []
  /-- The positions of the variables by name. -/
  names : List (String × VariableId) := []
  /-- The generators in the order of registration. -/
  generators : List GeneratorSlot := []
  /-- The formulas in the order of creation. -/
  formulas : List (FormulaUnit C) := []
  /-- The rules in the order of registration. -/
  rules : List RuleUnit := []
  /-- The scripts in the order of registration. -/
  scripts : List ScriptUnit := []
  /-- The traces in the order of creation. -/
  traces : List TraceUnit := []
  /-- What runs when a variable changes. -/
  triggers : TriggerGraph := {}
  /-- The variables that changed since the last tick. -/
  pending : VariableSet := []
  /-- The units that were registered since the last tick. -/
  fresh : UnitSet := []
  /-- Whether the display has to be redrawn. -/
  changed : Bool := false
  /-- The instant at which the display started. -/
  epoch : Time.Instant
  /-- The instant of the last tick. -/
  now : Time.Instant

namespace State

variable {C : FormulaCompiler}

/-- The state of a display that starts at an instant. -/
def start (C : FormulaCompiler) (epoch : Time.Instant) : State C := { epoch, now := epoch }

/-- The variable of a name, spelled as it is registered. -/
def lookup (s : State C) (name : String) : Option VariableId := s.names.lookup name

/-- The state with another variable at a position. -/
def setVariable (s : State C) (id : VariableId) (v : Variable) : State C :=
  { s with vars := s.vars.set id v }

/-- The position of the next variable. -/
def nextId (s : State C) : VariableId := s.vars.length

/-- The state with one more variable. -/
def insertVariable (s : State C) (v : Variable) : State C :=
  { s with
    vars := s.vars ++ [v]
    names := (v.name, s.nextId) :: s.names.filter (·.1 ≠ v.name) }

/-- The state after a sample for a variable, and whether the variable changed. -/
def apply (s : State C) (id : VariableId) (sample : Sample) : State C × Bool :=
  match s.vars[id]? with
  | some v =>
    let (after, changed) := v.apply sample
    (s.setVariable id after, changed)
  | none => (s, false)

/-- The state with a change to be propagated by the next tick. -/
def markPending (s : State C) (id : VariableId) : State C :=
  { s with pending := s.pending.add id, changed := true }

/-- Writes a value to a variable of the display. The display has to be
redrawn even if the value is the same. -/
def write (s : State C) (id : VariableId) (value : Value) : Except Failure (State C) :=
  match s.vars[id]? with
  | none => .error (.unknownName (variableLabel id))
  | some v =>
    if v.isWritable then
      let (s, changed) := s.apply id { value, time := s.now }
      .ok { s with changed := true, pending := if changed then s.pending.add id else s.pending }
    else .error (.notWritable v.name)

/-- The snapshots of some variables. -/
def snapshots (s : State C) (ids : List VariableId) : List Snapshot :=
  ids.filterMap fun id => s.vars[id]?.map Variable.snapshot

/-- The graph with an edge from each of some variables to a unit. -/
def connect (g : TriggerGraph) (sources : List VariableId) (unit : UnitRef) : TriggerGraph :=
  sources.foldl (fun g source => g.insert source unit) g

/-- The state with one more formula, which every parameter triggers. -/
def addFormula (s : State C) (unit : FormulaUnit C) : State C :=
  { s with
    triggers := connect s.triggers unit.parameters (.formula s.formulas.length)
    formulas := s.formulas ++ [unit] }

/-- The state with one more rule, which runs at the next tick. -/
def addRule (s : State C) (unit : RuleUnit) (triggers : List VariableId) : State C :=
  let ref := UnitRef.rule s.rules.length
  { s with
    triggers := connect s.triggers triggers ref
    rules := s.rules ++ [unit]
    fresh := s.fresh.add ref }

/-- The state with one more script, which runs at the next tick. -/
def addScript (s : State C) (unit : ScriptUnit) (triggers : List VariableId) : State C :=
  let ref := UnitRef.script s.scripts.length
  { s with
    triggers := connect s.triggers triggers ref
    scripts := s.scripts ++ [unit]
    fresh := s.fresh.add ref }

/-- The state with one more trace. -/
def addTrace (s : State C) (unit : TraceUnit) : State C := { s with traces := s.traces ++ [unit] }

/-- The sizes of a state before a construction. -/
structure Checkpoint where
  /-- The number of variables. -/
  vars : Nat
  /-- The number of generators. -/
  generators : Nat
  /-- The number of formulas. -/
  formulas : Nat
  /-- Whether the display had to be redrawn. -/
  changed : Bool

/-- The sizes of a state. -/
def checkpoint (s : State C) : Checkpoint :=
  ⟨s.vars.length, s.generators.length, s.formulas.length, s.changed⟩

/-- Whether an edge was there at a checkpoint. -/
def Checkpoint.keeps (c : Checkpoint) (source : VariableId) : UnitRef → Bool
  | .formula id => source < c.vars && id < c.formulas
  | _ => source < c.vars

/-- The state without the variables, generators and formulas that came after
a checkpoint. -/
def rollback (s : State C) (c : Checkpoint) : State C :=
  { s with
    vars := s.vars.take c.vars
    names := s.names.filter (·.2 < c.vars)
    generators := s.generators.take c.generators
    formulas := s.formulas.take c.formulas
    triggers := s.triggers.retain c.keeps
    pending := s.pending.filter (· < c.vars)
    changed := c.changed }

/-- How much a display holds. -/
structure Counts where
  /-- The number of variables. -/
  vars : Nat
  /-- The number of formulas. -/
  formulas : Nat
  /-- The number of rules. -/
  rules : Nat
  /-- The number of scripts. -/
  scripts : Nat
  /-- The number of traces. -/
  traces : Nat
  deriving DecidableEq, Repr

/-- How much the display holds. -/
def counts (s : State C) : Counts :=
  ⟨s.vars.length, s.formulas.length, s.rules.length, s.scripts.length, s.traces.length⟩

end State

end ProcessDisplay.Engine
