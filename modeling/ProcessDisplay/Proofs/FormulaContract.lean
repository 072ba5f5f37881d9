import Mathlib.Tactic.Common
import ProcessDisplay.Engine.Evaluation
import ProcessDisplay.Proofs.Agreement

/-!
# What a compiled formula promises

A language of formulas is a parameter of the engine. A compiled formula is
faithful when supplies and executions leave its list of parameters alone,
when readiness and severity are those of the data last supplied, and when
data that agree are computed to results that agree. Nothing is said about
what the result is, and a faithful formula may fail.
-/

namespace ProcessDisplay

namespace FormulaCompiler

/-- What becomes of a compiled formula through supplies and executions. -/
inductive Derives (C : FormulaCompiler) (origin : C.Formula) : C.Formula → Prop where
  /-- The formula as it was compiled. -/
  | compiled : C.Derives origin origin
  /-- A parameter was supplied. -/
  | supply {f : C.Formula} (h : C.Derives origin f) (name : String) (data : DataSource) :
    C.Derives origin (C.supply f name data)
  /-- The formula was executed, with any result. -/
  | execute {f f' : C.Formula} {result : Except Failure Value} (h : C.Derives origin f)
    (run : C.execute f = .done (result, f')) : C.Derives origin f'

/-- A formula whose parameters are all supplied, in order. -/
def supplyAll (C : FormulaCompiler) (f : C.Formula) (data : String → DataSource) : C.Formula :=
  (C.parameters f).foldl (fun g name => C.supply g name (data name)) f

/-- What supplies and executions preserve holds of every formula that derives
from one of which it holds. -/
theorem Derives.preserves {C : FormulaCompiler} {origin f : C.Formula} {P : C.Formula → Prop}
    (h : C.Derives origin f) (horigin : P origin)
    (hsupply : ∀ g name data, P g → P (C.supply g name data))
    (hexecute : ∀ g g' result, P g → C.execute g = .done (result, g') → P g') : P f := by
  induction h with
  | compiled => exact horigin
  | supply _ name data ih => exact hsupply _ name data ih
  | execute _ run ih => exact hexecute _ _ _ ih run

theorem Derives.trans {C : FormulaCompiler} {origin f g : C.Formula} (h : C.Derives origin f)
    (h' : C.Derives f g) : C.Derives origin g := by
  induction h' with
  | compiled => exact h
  | supply _ name data ih => exact ih.supply name data
  | execute _ run ih => exact ih.execute run

end FormulaCompiler

/-- Results agree when both are values that agree or both are failures. -/
def ResultsAgree : Except Failure Value → Except Failure Value → Prop
  | .ok v, .ok w => v.Agrees w
  | .error _, .error _ => True
  | _, _ => False

/-- Executions agree when they return results that agree, or neither returns. -/
def ExecutionsAgree {F : Type} : Outcome (Except Failure Value × F) →
    Outcome (Except Failure Value × F) → Prop
  | .done (first, _), .done (second, _) => ResultsAgree first second
  | .crash, .crash => True
  | _, _ => False

/-- An execution that agrees with one that returned has returned, too. -/
theorem ExecutionsAgree.of_done {F : Type} {result : Except Failure Value} {f : F}
    {execution : Outcome (Except Failure Value × F)}
    (h : ExecutionsAgree (.done (result, f)) execution) :
    ∃ result' f', execution = .done (result', f') ∧ ResultsAgree result result' := by
  cases execution with
  | done pair => exact ⟨pair.1, pair.2, rfl, h⟩
  | crash => exact h.elim

namespace FormulaCompiler

/-- What is documented of every compiled formula. -/
structure Faithful (C : FormulaCompiler) (origin : C.Formula) : Prop where
  /-- The names of the parameters are fixed when the formula is compiled. -/
  parameters : ∀ f, C.Derives origin f → C.parameters f = C.parameters origin
  /-- A formula is ready when the data last supplied for every parameter are. -/
  isReady : ∀ f, C.Derives origin f → ∀ data : String → DataSource,
    C.isReady (C.supplyAll f data) = (C.parameters origin).all fun name => (data name).isReady
  /-- The severity of a ready formula is the greatest one of the data last supplied. -/
  severity : ∀ f, C.Derives origin f → ∀ data : String → DataSource,
    (∀ name ∈ C.parameters origin, (data name).isReady = true) →
      C.severity (C.supplyAll f data) =
        Severity.worst ((C.parameters origin).map fun name => (data name).severity)
  /-- An execution depends on the data last supplied, and on nothing that
  agreement does not see. -/
  execute : ∀ f g, C.Derives origin f → C.Derives origin g → ∀ data data' : String → DataSource,
    (∀ name ∈ C.parameters origin, (data name).isReady = true) →
    (∀ name ∈ C.parameters origin, (data name).Agrees (data' name)) →
      ExecutionsAgree (C.execute (C.supplyAll f data)) (C.execute (C.supplyAll g data'))

end FormulaCompiler

namespace Engine.State

variable {C : FormulaCompiler}

/-- What a variable at a position supplies; without a variable, nothing. -/
def dataAt (s : State C) (id : VariableId) : DataSource :=
  match s.vars[id]? with
  | some v => .ofVariable v
  | none => {}

theorem dataAt_of_some {s : State C} {id : VariableId} {v : Variable} (h : s.vars[id]? = some v) :
    s.dataAt id = .ofVariable v := by
  rw [dataAt, h]

/-- Supplying a formula leads to a formula that derives from it. -/
theorem derives_supplied (s : State C) (unit : FormulaUnit C) :
    C.Derives unit.formula (s.supplied unit) := by
  unfold supplied
  have h : C.Derives unit.formula unit.formula := .compiled
  -- the induction is on the supplies still to come, from any formula derived so far
  revert h
  generalize (C.parameters unit.formula).zip unit.parameters = supplies
  suffices hall : ∀ f, C.Derives unit.formula f → C.Derives unit.formula (supplies.foldl
      (fun f parameter =>
        match s.vars[parameter.2]? with
        | some v => C.supply f parameter.1 (DataSource.ofVariable v)
        | none => f) f) from hall _
  induction supplies with
  | nil => exact fun f h => h
  | cons first rest ih =>
    intro f h
    rw [List.foldl_cons]
    apply ih
    cases s.vars[first.2]? with
    | some v => exact h.supply first.1 (DataSource.ofVariable v)
    | none => exact h

/-- A formula whose parameters stand for variables by name is supplied with
the data of those variables. -/
theorem supplied_eq_supplyAll {s : State C} {unit : FormulaUnit C} {place : String → VariableId}
    (hplace : unit.parameters = (C.parameters unit.formula).map place)
    (hrange : ∀ p ∈ unit.parameters, ∃ v, s.vars[p]? = some v) :
    s.supplied unit = C.supplyAll unit.formula fun name => s.dataAt (place name) := by
  unfold supplied FormulaCompiler.supplyAll
  rw [hplace] at hrange ⊢
  clear hplace
  generalize C.parameters unit.formula = names at *
  generalize unit.formula = f at *
  induction names generalizing f with
  | nil => rfl
  | cons name rest ih =>
    obtain ⟨v, hv⟩ := hrange (place name) (by simp)
    simp only [List.map_cons, List.zip_cons_cons, List.foldl_cons, hv, dataAt_of_some hv]
    exact ih (fun p hp => hrange p (List.mem_cons_of_mem _ hp)) _

end Engine.State

end ProcessDisplay
