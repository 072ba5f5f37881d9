import ProcessDisplay.Formula.Reference
import ProcessDisplay.Script.Expression
import ProcessDisplay.Value.Severity

/-!
# Compiled formulas

The engine knows formulas only through a compiler: a source becomes a
formula with parameters, parameters receive the states of variables, and a
formula that is ready can be executed. The bundled compiler takes
expressions of a language in which references are quoted names.
-/

namespace ProcessDisplay

/-- The state of a variable as a formula receives it. -/
structure DataSource where
  /-- The value. -/
  value : Option Value := none
  /-- The severity. -/
  severity : Severity := .undefined
  /-- Whether the variable is connected. -/
  isConnected : Bool := false

/-- Whether a state can be computed with. -/
def DataSource.isReady (d : DataSource) : Bool := d.isConnected && d.value.isSome

/-- A language of formulas. -/
structure FormulaCompiler where
  /-- The compiled formulas, each with the state that it keeps for itself. -/
  Formula : Type
  /-- The formula that a source spells. It is assumed that it depends on the
  source alone, so that no compilation leaves anything behind for the next. -/
  compile : String → Except Failure Formula
  /-- The names of the variables that a formula reads. -/
  parameters : Formula → List String
  /-- A formula with the state of a variable. -/
  supply : Formula → String → DataSource → Formula
  /-- Whether every parameter has a value. -/
  isReady : Formula → Bool
  /-- The severity of the result. -/
  severity : Formula → Severity
  /-- The result, and the formula after it. -/
  execute : Formula → Outcome (Except Failure Value × Formula)
  /-- How deep formulas may stand within formulas; a deeper nesting ends the
  program. -/
  nesting : Nat

namespace Formula

/-- A formula of the bundled compiler. -/
structure ExpressionFormula where
  /-- The source text. -/
  source : String
  /-- The names of the references. -/
  parameters : List String
  /-- The states of the variables, one for each parameter. -/
  inputs : List DataSource
  /-- The expression. -/
  expression : Script.Expression

namespace ExpressionFormula

/-- The formula that a source spells. -/
def compile (L : Script.Language) (limits : Script.Limits) (source : String) :
    Except Failure ExpressionFormula :=
  match replaceReferences source with
  | .error fault => .error (.formula fault)
  | .ok (text, names) =>
    match L.expression limits text with
    | .error problem => .error (.formula (.malformed source problem))
    | .ok expression => .ok ⟨source, names, names.map fun _ => {}, expression⟩

/-- The formula with the state of a variable at the first parameter of its name. -/
def supply (f : ExpressionFormula) (name : String) (data : DataSource) : ExpressionFormula :=
  match f.parameters.idxOf? name with
  | some index => { f with inputs := f.inputs.set index data }
  | none => f

/-- Whether every parameter has a value. -/
def isReady (f : ExpressionFormula) : Bool := f.inputs.all DataSource.isReady

/-- The greatest severity of the parameters. -/
def severity (f : ExpressionFormula) : Severity :=
  Severity.worst (f.inputs.map DataSource.severity)

/-- The variables of the references from a position on, or the name of a
parameter without a value. -/
def slots : Nat → List (String × DataSource) → Except String (List Script.Slot)
  | _, [] => .ok []
  | index, (name, input) :: rest =>
    match input.value with
    | none => .error name
    | some value =>
      (slots (index + 1) rest).map fun more =>
        ⟨referenceName index, false, Script.Datum.ofValue value⟩ :: more

/-- The result of the formula. -/
def execute (f : ExpressionFormula) : Outcome (Except Failure Value) :=
  match slots 0 (f.parameters.zip f.inputs) with
  | .error name => .done (.error (.formula (.missingParameter f.source name)))
  | .ok scope => do
    match ← (f.expression.evaluate scope).1 with
    | .error fault => return .error (.formula (.evaluation f.source fault))
    | .ok d =>
      match d.value? with
      | some value => return .ok value
      | none => return .error (.formula (.noValue f.source))

end ExpressionFormula

end Formula

open Formula in
/-- The bundled compiler of a language. -/
def FormulaCompiler.expressions (L : Script.Language) (limits : Script.Limits) (nesting : Nat) :
    FormulaCompiler where
  Formula := ExpressionFormula
  compile := ExpressionFormula.compile L limits
  parameters := ExpressionFormula.parameters
  supply := ExpressionFormula.supply
  isReady := ExpressionFormula.isReady
  severity := ExpressionFormula.severity
  execute f := do return (← f.execute, f)
  nesting

end ProcessDisplay
