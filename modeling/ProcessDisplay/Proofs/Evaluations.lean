import Mathlib.Tactic.Common
import ProcessDisplay.Proofs.FormulaContract
import ProcessDisplay.Proofs.Motion

/-!
# What an evaluation does

An evaluation of a formula replaces the compiled formula of one unit by one
that derives from it, replaces one variable, and appends failures. Where a
parameter has no value, the variable stays as it is; otherwise it reflects
the result of one execution. An evaluation that reports no change leaves a
variable that agrees.
-/

namespace ProcessDisplay

/-- A variable shows the result of an execution of its formula: the value and
the severity of the parameters, or that there is no valid value. -/
def Variable.Reflects (v : Variable) (severity : Severity) : Except Failure Value → Prop
  | .ok value => (∃ shown, v.value = some shown ∧ shown.Agrees value) ∧ v.severity = severity
  | .error _ => v.severity = .invalid

/-- What a variable shows is the same for results that agree. -/
theorem Variable.Reflects.of_agrees {v : Variable} {severity : Severity}
    {result result' : Except Failure Value} (h : v.Reflects severity result)
    (hagree : ResultsAgree result result') : v.Reflects severity result' := by
  cases result with
  | ok value =>
    cases result' with
    | ok value' =>
      obtain ⟨⟨shown, hshown, hvalue⟩, hseverity⟩ := h
      exact ⟨⟨shown, hshown, hvalue.trans hagree⟩, hseverity⟩
    | error failure => exact hagree.elim
  | error failure =>
    cases result' with
    | ok value' => exact hagree.elim
    | error failure' => exact h

namespace Engine

variable {C : FormulaCompiler} {R : ScriptInterpreter}

/-- An engine with another compiled formula in a unit, another variable for
it and some more failures. -/
def afterEvaluation (e : Engine C R) (id : Nat) (unit : FormulaUnit C) (f : C.Formula)
    (w : Variable) (errors : List UnitFailure) : Engine C R :=
  { e with
    state :=
      { e.state with
        formulas := e.state.formulas.set id { unit with formula := f }
        vars := e.state.vars.set unit.variableId w }
    errors := e.errors ++ errors }

/-- An evaluation of the formula at a position, which found a unit and its
variable, left another formula and another variable, and reported whether
the variable changed. -/
structure Evaluation (e : Engine C R) (unit : FormulaUnit C) (v : Variable) (f : C.Formula)
    (w : Variable) (changed : Bool) : Prop where
  /-- The variable keeps what every change leaves alone. -/
  becomes : v.Becomes w
  /-- The variable keeps its kind. -/
  kind : w.kind = v.kind
  /-- A change is reported unless the variable agrees. -/
  reported : changed = true ∨ v.Agrees w
  /-- The formula derives from the one that was there. -/
  derives : C.Derives unit.formula f
  /-- A formula that is not ready is not executed. -/
  waiting : C.isReady (e.state.supplied unit) = false → w = v
  /-- A formula that is ready is executed. -/
  executed : C.isReady (e.state.supplied unit) = true → ∃ result,
    C.execute (e.state.supplied unit) = .done (result, f) ∧
      w.Reflects (C.severity (e.state.supplied unit)) result

/-- The result of an execution reaches the variable of the formula. -/
theorem accept_spec {e : Engine C R} {id : VariableId} {v : Variable}
    (hv : e.state.vars[id]? = some v) (severity : Severity) (result : Except Failure Value) :
    ∃ w changed errors,
      e.accept id severity result =
        (changed, { e with
          state := { e.state with vars := e.state.vars.set id w }
          errors := e.errors ++ errors }) ∧
      v.Becomes w ∧ w.kind = v.kind ∧ (changed = true ∨ v.Agrees w) ∧
      w.Reflects severity result := by
  cases result with
  | ok value =>
    refine ⟨(v.apply { value, time := e.state.now, severity }).1,
      (v.apply { value, time := e.state.now, severity }).2, [], ?_, v.becomes_apply _, rfl, ?_, ?_⟩
    · simp [accept, State.apply_of_some hv, State.setVariable, withState]
    · by_cases hc : (v.apply { value, time := e.state.now, severity }).2 = true
      · exact Or.inl hc
      · exact Or.inr (Variable.agrees_apply (Bool.eq_false_iff.mpr hc))
    · exact ⟨⟨value, rfl, .refl value⟩, rfl⟩
  | error failure =>
    refine ⟨{ v with severity := .invalid }, v.severity != .invalid, [⟨v.name, failure⟩], ?_,
      v.becomes_severity _, rfl, ?_, rfl⟩
    · simp [accept, hv, State.setVariable, withState, record]
    · by_cases hs : v.severity = .invalid
      · exact Or.inr ⟨hs, .refl _⟩
      · exact Or.inl (by simpa using hs)

/-- An evaluation that returned, taken apart. -/
theorem evaluateFormula_spec {e e' : Engine C R} {id : Nat} {unit : FormulaUnit C} {v : Variable}
    {changed : Bool} (hunit : e.state.formulas[id]? = some unit)
    (hv : e.state.vars[unit.variableId]? = some v)
    (h : evaluateFormula id e = .done (changed, e')) :
    ∃ f w errors, Evaluation e unit v f w changed ∧ e' = afterEvaluation e id unit f w errors := by
  have hderives := e.state.derives_supplied unit
  simp only [evaluateFormula, hunit] at h
  by_cases hready : C.isReady (e.state.supplied unit) = true
  · rw [if_pos hready] at h
    obtain ⟨⟨result, f⟩, hrun, haccept⟩ := Outcome.bind_eq_done_iff.mp h
    obtain ⟨w, changed', errors, heq, hbecomes, hkind, hreported, hreflects⟩ :=
      accept_spec (e := e.withState (e.state.setFormula id unit f)) hv
        (C.severity (e.state.supplied unit)) result
    simp only [Outcome.pure_eq, Outcome.done.injEq, heq, Prod.mk.injEq] at haccept
    obtain ⟨rfl, rfl⟩ := haccept
    refine ⟨f, w, errors, ⟨hbecomes, hkind, hreported, hderives.execute hrun, ?_, ?_⟩, rfl⟩
    · intro hnot
      rw [hready] at hnot
      cases hnot
    · intro _
      exact ⟨result, hrun, hreflects⟩
  · rw [if_neg hready] at h
    simp only [Outcome.done.injEq, Prod.mk.injEq] at h
    obtain ⟨rfl, rfl⟩ := h
    refine ⟨e.state.supplied unit, v, [],
      ⟨.refl v, rfl, Or.inr (.refl v), hderives, fun _ => rfl, ?_⟩, ?_⟩
    · intro hyes
      exact absurd hyes hready
    · obtain ⟨hrange, hat⟩ := List.getElem?_eq_some_iff.mp hv
      have hsame : e.state.vars.set unit.variableId v = e.state.vars := by
        rw [← hat, List.set_getElem_self]
      simp [afterEvaluation, withState, State.setFormula, hsame]

/-- An evaluation of a formula that is not there. -/
theorem evaluateFormula_of_none {e : Engine C R} {id : Nat} (h : e.state.formulas[id]? = none) :
    evaluateFormula id e = .done (false, e) := by
  rw [evaluateFormula, h]

end Engine

end ProcessDisplay
