import Mathlib.Tactic.Common
import ProcessDisplay.Proofs.RedrawFlag
import ProcessDisplay.Proofs.Registrations

/-!
# Executions of units

A rule or script that has its turn in a tick is executed. The expressions of
the rule are evaluated, or the body of the script is run, on the snapshots
that the unit receives, and the next unit finds on the stage what came of it.
This is said here without reference to the loop that runs the units.
-/

namespace ProcessDisplay.Engine

variable {C : FormulaCompiler} {R : ScriptInterpreter}

/-- The stage after the execution of a rule: its widget is replaced, or its
failure is recorded. -/
def Stage.afterRule (s : Stage C R) (unit : RuleUnit) : Except Failure Widget → Stage C R
  | .ok widget => ⟨s.engine, s.panel.set unit.widget widget⟩
  | .error failure => ⟨s.engine.record ("rule '" ++ unit.rule.name ++ "'") failure, s.panel⟩

/-- What a rule does rests on its execution alone. -/
theorem runRule_eq (s : Stage C R) (unit : RuleUnit) (snapshots : List Snapshot) :
    s.runRule unit snapshots = s.afterRule unit <$>
      unit.rule.execute Rule.expressionEvaluation snapshots (s.panel.widget unit.widget) := by
  unfold Stage.runRule
  cases unit.rule.execute Rule.expressionEvaluation snapshots (s.panel.widget unit.widget) with
  | crash => rfl
  | done result => cases result <;> rfl

/-- The turn of a registered unit. It receives the snapshots of its inputs as
they are at its turn, it is executed on them, and the stage is left as the
result says. -/
inductive Executes (s : Stage C R) : UnitRun → Stage C R → Prop where
  /-- The expressions of a rule are evaluated. -/
  | rule {id : Nat} {unit : RuleUnit} {result : Except Failure Widget}
    (hunit : s.engine.state.rules[id]? = some unit)
    (hrun : unit.rule.execute Rule.expressionEvaluation (s.engine.state.snapshots unit.inputs)
      (s.panel.widget unit.widget) = .done result) :
    Executes s ⟨.rule id, s.engine.state.snapshots unit.inputs⟩ (s.afterRule unit result)
  /-- The body of a script is run. -/
  | script {id : Nat} {unit : ScriptUnit} {ran : (Except Failure Unit × Script.Context) × R.Memory}
    (hunit : s.engine.state.scripts[id]? = some unit)
    (hrun : R.run s.engine.memory unit.body
      { script := unit.name, widget := s.panel.widget unit.widget
        snapshots := s.engine.state.snapshots unit.inputs } = .done ran) :
    Executes s ⟨.script id, s.engine.state.snapshots unit.inputs⟩ (s.afterScript unit ran)

/-- Units that are executed one after another, each of them on the stage that
the one before it left. -/
inductive Executions : Stage C R → List UnitRun → Stage C R → Prop where
  /-- No unit is executed. -/
  | nil (s : Stage C R) : Executions s [] s
  /-- One unit is executed, and then the others are. -/
  | cons {s s₁ s' : Stage C R} {run : UnitRun} {rest : List UnitRun} (hfirst : Executes s run s₁)
    (hrest : Executions s₁ rest s') : Executions s (run :: rest) s'

/-- Which rules and scripts are registered is a matter of the registered units. -/
theorem State.has_congr {s s' : State C} (hrules : s'.rules = s.rules)
    (hscripts : s'.scripts = s.scripts) {u : UnitRef} (hkind : u.isFormula = false) :
    s'.Has u ↔ s.Has u := by
  cases u with
  | formula id => cases hkind
  | rule id => rw [Has, Has, hrules]
  | script id => rw [Has, Has, hscripts]

/-- A registered unit that has its turn is executed. -/
theorem executes_of_runUnit {s s' : Stage C R} {unit : UnitRef} {run : UnitRun}
    (hkind : unit.isFormula = false) (hhas : s.engine.state.Has unit)
    (h : s.runUnit unit = .done (s', run)) : Executes s run s' := by
  obtain ⟨hturn, rfl⟩ := turn_of_runUnit h
  cases hturn with
  | absent hrule hscript =>
    cases unit with
    | formula id => cases hkind
    | rule id => exact absurd hhas (List.getElem?_eq_none_iff.mp (hrule id rfl)).not_gt
    | script id => exact absurd hhas (List.getElem?_eq_none_iff.mp (hscript id rfl)).not_gt
  | rule hunit hrule =>
    rw [runRule_eq] at hrule
    obtain ⟨result, hrun, hafter⟩ := Outcome.bind_eq_done_iff.mp hrule
    obtain rfl := Outcome.done.inj hafter
    rw [State.inputsOf_rule hunit]
    exact .rule hunit hrun
  | script hunit hscript =>
    rw [runScript_eq] at hscript
    obtain ⟨ran, hrun, hafter⟩ := Outcome.bind_eq_done_iff.mp hscript
    obtain rfl := Outcome.done.inj hafter
    rw [State.inputsOf_script hunit]
    exact .script hunit hrun

/-- Registered units that run are executed in order. -/
theorem executions_of_runUnits {units : List UnitRef} {s s' : Stage C R} {runs : List UnitRun}
    (hunits : ∀ u ∈ units, u.isFormula = false ∧ s.engine.state.Has u)
    (h : s.runUnits units = .done (s', runs)) : Executions s runs s' := by
  induction units generalizing s runs with
  | nil =>
    obtain ⟨rfl, rfl⟩ := runUnits_nil_eq_done_iff.mp h
    exact .nil s
  | cons unit rest ih =>
    obtain ⟨s₁, run, more, hfirst, hrest, rfl⟩ := runUnits_cons_eq_done_iff.mp h
    obtain ⟨⟨hkind, hhas⟩, hothers⟩ := List.forall_mem_cons.mp hunits
    -- A unit that runs registers and removes none.
    have hquiet := (runUnit_spec hfirst).1.evolution.quiet
    have hothers' : ∀ u ∈ rest, u.isFormula = false ∧ s₁.engine.state.Has u := fun u hu =>
      ⟨(hothers u hu).1, (State.has_congr hquiet.rules hquiet.scripts (hothers u hu).1).mpr
        (hothers u hu).2⟩
    exact .cons (executes_of_runUnit hkind hhas hfirst) (ih hothers' hrest)

/-- The units that a tick reports were executed on what it had prepared. -/
theorem Ticked.executions {s s' : Stage C R} {clock : Time.Clock} {wall : Time.Instant}
    {report : TickReport} {p : Prepared C R} (h : Ticked s s' clock wall report p)
    (hs : s.engine.state.WellFormed) : Executions p.stage report.units s' := by
  refine executions_of_runUnits (fun u hu => ?_) h.ran
  obtain ⟨run, hrun, rfl⟩ := (h.mem_units_iff u).mpr hu
  obtain ⟨hkind, hhas⟩ := h.registered hs hrun
  exact ⟨hkind, (State.has_congr h.prepares.shape.rules h.prepares.shape.scripts hkind).mpr hhas⟩

/-- A passage is a tick in which a unit was executed, as one of the units that
the tick reports and on what it had prepared. -/
def Passage.Ran (q : Passage C R) (run : UnitRun) : Prop :=
  ∃ clock wall report p, q.operation = .tick clock wall ∧ q.answer = .ticked report ∧
    q.before.prepare clock wall = .done p ∧ Executions p.stage report.units q.after ∧
    run ∈ report.units

/-- A run that is entered into the journal of a passage was executed in it. -/
theorem Effect.ran {j : Journal} {s s' : Stage C R} {operation : Operation} {answer : Answer}
    (h : Effect s (operation, answer) s') (hs : s.engine.state.WellFormed) {run : UnitRun}
    (hrun : run ∈ (j.enter (operation, answer)).runs) :
    run ∈ j.runs ∨ Passage.Ran ⟨s, operation, answer, s'⟩ run := by
  cases h with
  | evolved hquiet h =>
    rw [hquiet] at hrun
    exact .inl hrun
  | rule unit h hlocated he => exact .inl hrun
  | script unit h hlocated he => exact .inl hrun
  | @tick clock wall report _ h =>
    rcases List.mem_append.mp hrun with hbefore | hnow
    · exact .inl hbefore
    · obtain ⟨p, hticked⟩ := ticked_of_tick hs h
      exact .inr ⟨clock, wall, report, p, rfl, rfl, hticked.prepared, hticked.executions hs, hnow⟩
  | reset he => cases hrun

/-- Every run in the journal of a run of operations was executed in one of its
ticks, unless it was in the journal before. -/
theorem run_ran {j : Journal} {s s' : Stage C R} {operations : List Operation}
    {answers : List Answer} (h : Session C R j s)
    (hrun : s.run operations = .done (answers, s')) {run : UnitRun}
    (hmem : run ∈ ((operations.zip answers).foldl Journal.enter j).runs) :
    run ∈ j.runs ∨ ∃ q ∈ s.trail operations, q.Ran run := by
  induction operations generalizing j s answers with
  | nil => exact .inl hmem
  | cons operation rest ih =>
    obtain ⟨answer, s₁, more, hfirst, hrest, rfl⟩ := run_cons_eq_done_iff.mp hrun
    rw [trail_cons hfirst]
    rcases ih (h.step hfirst) hrest hmem with hentered | ⟨q, hq, hran⟩
    · refine ((effect_of_perform h.wellFormed hfirst).ran h.wellFormed hentered).imp_right ?_
      exact fun hran => ⟨_, List.mem_cons_self, hran⟩
    · exact .inr ⟨q, List.mem_cons_of_mem _ hq, hran⟩

end ProcessDisplay.Engine
