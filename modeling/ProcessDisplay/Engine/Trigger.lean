/-!
# Triggers

A unit is a formula, a rule or a script. An edge from a variable to a unit
says that a change of the variable makes the unit run. No edge occurs twice,
and edges keep the order in which they were added.
-/

namespace ProcessDisplay.Engine

/-- The position of a variable in the registry. -/
abbrev VariableId := Nat

/-- The position that stands for no variable. -/
def invalidId : VariableId := 4294967295

/-- The position of a variable as text. -/
def variableLabel (id : VariableId) : String :=
  if id = invalidId then "PvId(INVALID)" else "PvId(" ++ toString id ++ ")"

/-- What runs when variables change. -/
inductive UnitRef where
  /-- A formula by its position. -/
  | formula (id : Nat)
  /-- A rule by its position. -/
  | rule (id : Nat)
  /-- A script by its position. -/
  | script (id : Nat)
  deriving DecidableEq, Repr

/-- Whether a unit is a formula. -/
def UnitRef.isFormula : UnitRef → Bool
  | .formula _ => true
  | _ => false

/-- The place of a kind of unit in the order of units. -/
def UnitRef.rank : UnitRef → Nat
  | .formula _ => 0
  | .rule _ => 1
  | .script _ => 2

/-- The position of a unit among the units of its kind. -/
def UnitRef.index : UnitRef → Nat
  | .formula id | .rule id | .script id => id

/-- A unit as text. -/
def UnitRef.label : UnitRef → String
  | .formula id => "FormulaId(" ++ toString id ++ ")"
  | .rule id => "RuleId(" ++ toString id ++ ")"
  | .script id => "ScriptId(" ++ toString id ++ ")"

/-- The position of a trace as text. -/
def traceLabel (id : Nat) : String := "TraceId(" ++ toString id ++ ")"

/-- Whether a unit comes before another one: rules before scripts, and each
kind in the order of registration. -/
def UnitRef.before (a b : UnitRef) : Bool :=
  a.rank < b.rank || (a.rank = b.rank && a.index < b.index)

/-- The edges from variables to units. -/
structure TriggerGraph where
  /-- All edges in the order in which they were added. -/
  edges : List (VariableId × UnitRef) := []
  deriving DecidableEq, Repr

namespace TriggerGraph

/-- Adds an edge unless it exists, and says whether it was added. -/
def add (g : TriggerGraph) (source : VariableId) (unit : UnitRef) : TriggerGraph × Bool :=
  if (source, unit) ∈ g.edges then (g, false) else (⟨g.edges ++ [(source, unit)]⟩, true)

/-- The graph with one more edge. -/
def insert (g : TriggerGraph) (source : VariableId) (unit : UnitRef) : TriggerGraph :=
  (g.add source unit).1

/-- Keeps the edges with a property. -/
def retain (g : TriggerGraph) (keep : VariableId → UnitRef → Bool) : TriggerGraph :=
  ⟨g.edges.filter fun edge => keep edge.1 edge.2⟩

/-- The units that run when a variable changes. -/
def dependents (g : TriggerGraph) (source : VariableId) : List UnitRef :=
  g.edges.filterMap fun edge => if edge.1 = source then some edge.2 else none

/-- The number of edges. -/
def edgeCount (g : TriggerGraph) : Nat := g.edges.length

end TriggerGraph

end ProcessDisplay.Engine
