import Mathlib.Tactic.Common
import ProcessDisplay.Proofs.FailureRecords

/-!
# Failures are contained

A formula that fails makes its variable invalid, a rule that fails leaves its
widget as it was, and a script that fails has done what it did before. Beyond
that each of them adds one record, and the units after it have their turns on
what it left.
-/

namespace ProcessDisplay.Engine

variable {C : FormulaCompiler} {R : ScriptInterpreter}

/-- A formula that fails makes its variable invalid and is recorded under the
name of the variable. -/
theorem evaluateFormula_failed {e : Engine C R} {id : Nat} {unit : FormulaUnit C} {v : Variable}
    {f : C.Formula} {failure : Failure} (hunit : e.state.formulas[id]? = some unit)
    (hv : e.state.vars[unit.variableId]? = some v)
    (hready : C.isReady (e.state.supplied unit) = true)
    (hrun : C.execute (e.state.supplied unit) = .done (.error failure, f)) :
    evaluateFormula id e = .done (v.severity != .invalid,
      afterEvaluation e id unit f { v with severity := .invalid } [⟨v.name, failure⟩]) := by
  have hkept : (e.withState (e.state.setFormula id unit f)).state.vars[unit.variableId]? =
      some v := hv
  simp only [evaluateFormula, hunit, hready, if_true, hrun, Outcome.done_bind, Outcome.pure_eq,
    accept, hkept]
  rfl

/-- The label of a formula is the name of its variable. -/
theorem label?_formula {s : State C} {id : Nat} {unit : FormulaUnit C} {v : Variable}
    (hunit : s.formulas[id]? = some unit) (hv : s.vars[unit.variableId]? = some v) :
    s.label? (.formula id) = some v.name := by
  simp only [State.label?, State.computed?, hunit, Option.map_some, Option.bind_some, hv]

/-- The result of an execution is recorded only under the name of the variable. -/
theorem accept_errors {e : Engine C R} {id : VariableId} {v : Variable}
    (hv : e.state.vars[id]? = some v) (severity : Severity) (result : Except Failure Value) :
    ∃ recorded, (e.accept id severity result).2.errors = e.errors ++ recorded ∧
      ∀ entry ∈ recorded, entry.unit = v.name := by
  cases result with
  | ok value => exact ⟨[], by simp [accept, withState], by simp⟩
  | error failure =>
    exact ⟨[⟨v.name, failure⟩], by simp [accept, hv, withState, record], by simp⟩

/-- An evaluation records under the label of its formula. -/
theorem evaluateFormula_logs {e e' : Engine C R} {id : Nat} {changed : Bool}
    (hs : e.state.WellFormed) (h : evaluateFormula id e = .done (changed, e')) :
    Logs e.state [.formula id] e e' := by
  cases hunit : e.state.formulas[id]? with
  | none =>
    obtain ⟨-, rfl⟩ := Prod.mk.inj (Outcome.done.inj ((evaluateFormula_of_none hunit).symm.trans h))
    exact logs_of_errors_eq rfl
  | some unit =>
    obtain ⟨v, hv, -⟩ := hs.of_formula hunit
    simp only [evaluateFormula, hunit] at h
    split at h
    · obtain ⟨⟨result, f⟩, -, h⟩ := Outcome.bind_eq_done_iff.mp h
      obtain ⟨recorded, herrors, hlabels⟩ :=
        accept_errors (e := e.withState (e.state.setFormula id unit f)) hv
          (C.severity (e.state.supplied unit)) result
      rw [Outcome.done.inj h] at herrors
      refine ⟨recorded, herrors, fun entry hentry => ⟨_, List.mem_cons_self, ?_⟩⟩
      rw [hlabels entry hentry]
      exact label?_formula hunit hv
    · obtain ⟨-, rfl⟩ := Prod.mk.inj (Outcome.done.inj h)
      exact logs_of_errors_eq rfl

/-- An evaluation changes only contents. -/
theorem sameShape_evaluateFormula {e e' : Engine C R} {id : Nat} {changed : Bool}
    (hs : e.state.WellFormed) (h : evaluateFormula id e = .done (changed, e')) :
    State.SameShape e.state e'.state ∧ e'.state.WellFormed := by
  have hvisit : ∃ p', (Propagation.mk e [] [] []).visit id = .done p' ∧ p'.engine = e' := by
    unfold Propagation.visit
    simp only [h, Outcome.done_bind]
    split
    · split <;> exact ⟨_, rfl, rfl⟩
    · exact ⟨_, rfl, rfl⟩
  obtain ⟨p', hvisit, rfl⟩ := hvisit
  have hleads := Propagation.visit_leads hs hvisit
  exact ⟨hleads.shape, hleads.wellFormed hs⟩

/-- All that the failure of a unit in its turn does: a formula makes its
variable invalid, a rule leaves everything as it was, and each of them is
recorded; what a script did before it failed stays. -/
def Stage.Contains (s : Stage C R) (failure : Failure) : UnitRef → Prop
  | .formula id => ∃ unit v f, s.engine.state.formulas[id]? = some unit ∧
      s.engine.state.vars[unit.variableId]? = some v ∧
      evaluateFormula id s.engine = .done (v.severity != .invalid,
        afterEvaluation s.engine id unit f { v with severity := .invalid } [⟨v.name, failure⟩])
  | .rule id => ∃ unit run, s.engine.state.rules[id]? = some unit ∧
      s.runUnit (.rule id) = .done
        ({ s with engine := s.engine.record ("rule '" ++ unit.rule.name ++ "'") failure }, run)
  | .script id => ∃ after run, s.runUnit (.script id) = .done (after, run) ∧
      Recorded s.engine.state (.script id) failure after.engine

/-- A formula that fails in its turn is contained and recorded. -/
theorem evaluateFormula_contains {e e' : Engine C R} {panel : Panel} {id : Nat} {changed : Bool}
    {failure : Failure} (hs : e.state.WellFormed)
    (h : evaluateFormula id e = .done (changed, e'))
    (hfails : Stage.Fails ⟨e, panel⟩ failure (.formula id)) :
    Stage.Contains ⟨e, panel⟩ failure (.formula id) ∧
      Recorded e.state (.formula id) failure e' := by
  obtain ⟨unit, f, hunit, hready, hrun⟩ := hfails
  obtain ⟨v, hv, -⟩ := hs.of_formula hunit
  have hfailed := evaluateFormula_failed hunit hv hready hrun
  obtain ⟨-, rfl⟩ := Prod.mk.inj (Outcome.done.inj (hfailed.symm.trans h))
  exact ⟨⟨unit, v, f, hunit, hv, hfailed⟩, v.name, label?_formula hunit hv,
    List.mem_append_right _ List.mem_cons_self⟩

/-- The evaluations of formulas, each with the stage at its turn. -/
def Stage.evaluations (s : Stage C R) : List Nat → List (Stage C R × UnitRef)
  | [] => []
  | id :: rest =>
    (s, .formula id) ::
      match evaluateFormula id s.engine with
      | .done (_, engine) => Stage.evaluations { s with engine } rest
      | .crash => []

/-- What evaluations record belongs to the formulas that were evaluated, and
all that failed in their turns are contained and recorded. -/
theorem passes_spec {e e' : Engine C R} {runs : List FormulaRun} (hs : e.state.WellFormed)
    (h : Passes e runs e') :
    Logs e.state (runs.map fun run => .formula run.formula) e e' ∧
      ∀ panel, ∀ turn ∈ Stage.evaluations ⟨e, panel⟩ (runs.map FormulaRun.formula),
        ∀ failure, turn.1.Fails failure turn.2 →
          turn.1.Contains failure turn.2 ∧ Recorded e.state turn.2 failure e' := by
  induction h with
  | refl e => exact ⟨logs_of_errors_eq rfl, fun panel turn hturn => absurd hturn List.not_mem_nil⟩
  | @head e e₁ e' run rest hfirst _ ih =>
    obtain ⟨hshape, hs₁⟩ := sameShape_evaluateFormula hs hfirst
    obtain ⟨hlogs, hrecorded⟩ := ih hs₁
    have hlater := hlogs.of_sameShape hshape
    refine ⟨(evaluateFormula_logs hs hfirst).trans hlater,
      fun panel turn hturn failure hfails => ?_⟩
    simp only [List.map_cons, Stage.evaluations, hfirst] at hturn
    rcases List.mem_cons.mp hturn with rfl | hturn
    · obtain ⟨hcontains, hrecord⟩ := evaluateFormula_contains hs hfirst hfails
      exact ⟨hcontains, hrecord.of_logs hlater⟩
    · obtain ⟨hcontains, hrecord⟩ := hrecorded panel turn hturn failure hfails
      exact ⟨hcontains, hrecord.of_sameShape hshape⟩

/-- The stage after a rule that failed: the failure is recorded. -/
theorem runUnit_failed {s : Stage C R} {id : Nat} {unit : RuleUnit} {failure : Failure}
    (hunit : s.engine.state.rules[id]? = some unit)
    (hrun : unit.rule.execute Rule.expressionEvaluation (s.engine.state.snapshots unit.inputs)
      (s.panel.widget unit.widget) = .done (.error failure)) :
    s.runUnit (.rule id) = .done
      ({ s with engine := s.engine.record ("rule '" ++ unit.rule.name ++ "'") failure },
        ⟨.rule id, s.engine.state.snapshots unit.inputs⟩) := by
  simp only [Stage.runUnit, State.inputsOf, hunit, Option.map_some, Option.getD_some,
    Stage.runRule, hrun, Outcome.done_bind, Outcome.pure_eq]

/-- The writes of a script are recorded under its label where they are refused. -/
theorem applyWrites_errors (label : String) (inputs : List VariableId)
    (writes : List (Nat × Value)) (e : Engine C R) :
    ∃ recorded, (writes.foldl (applyWrite label inputs) e).errors = e.errors ++ recorded ∧
      ∀ entry ∈ recorded, entry.unit = label := by
  induction writes generalizing e with
  | nil => exact ⟨[], by simp, by simp⟩
  | cons first rest ih =>
    have hfirst : ∃ recorded, (applyWrite label inputs e first).errors = e.errors ++ recorded ∧
        ∀ entry ∈ recorded, entry.unit = label := by
      unfold applyWrite
      split
      · exact ⟨[⟨label, .script (.noInput first.1)⟩], rfl, by simp⟩
      · split
        · exact ⟨[], by simp [withState], by simp⟩
        · next failure _ => exact ⟨[⟨label, failure⟩], rfl, by simp⟩
    obtain ⟨recorded, herrors, hlabels⟩ := hfirst
    obtain ⟨later, hlater, hlabels'⟩ := ih (applyWrite label inputs e first)
    refine ⟨recorded ++ later, by rw [List.foldl_cons, hlater, herrors, List.append_assoc], ?_⟩
    intro entry hentry
    rcases List.mem_append.mp hentry with hold | hnew
    · exact hlabels entry hold
    · exact hlabels' entry hnew

/-- A script records under its label that it stopped and what was refused. -/
theorem runScript_errors {s s' : Stage C R} {unit : ScriptUnit} {snapshots : List Snapshot}
    (h : s.runScript unit snapshots = .done s') :
    ∃ result context memory recorded,
      R.run s.engine.memory unit.body
        { script := unit.name, widget := s.panel.widget unit.widget, snapshots } =
          .done ((result, context), memory) ∧
      s'.engine.errors = s.engine.errors ++ recorded ∧
      (∀ entry ∈ recorded, entry.unit = "script '" ++ unit.name ++ "'") ∧
      ∀ failure, result = .error failure →
        ⟨"script '" ++ unit.name ++ "'", failure⟩ ∈ recorded := by
  obtain ⟨⟨⟨result, context⟩, memory⟩, hrun, h⟩ := Outcome.bind_eq_done_iff.mp h
  obtain rfl := Outcome.done.inj h
  obtain ⟨recorded, herrors, hlabels⟩ := applyWrites_errors ("script '" ++ unit.name ++ "'")
    unit.inputs context.writes
    (recordResult { s.engine with memory } ("script '" ++ unit.name ++ "'") result)
  cases result with
  | ok _ => exact ⟨_, context, memory, recorded, hrun, herrors, hlabels, fun _ h => nomatch h⟩
  | error failure =>
    refine ⟨_, context, memory, ⟨"script '" ++ unit.name ++ "'", failure⟩ :: recorded, hrun, ?_,
      ?_, ?_⟩
    · exact herrors.trans (List.append_assoc _ [_] _)
    · intro entry hentry
      rcases List.mem_cons.mp hentry with rfl | hlater
      · rfl
      · exact hlabels entry hlater
    · intro failure' hfailure
      obtain rfl := Except.error.inj hfailure
      exact List.mem_cons_self

/-- A rule records under its label, and that it failed. -/
theorem runRule_logs {s s' : Stage C R} {id : Nat} {unit : RuleUnit}
    (hunit : s.engine.state.rules[id]? = some unit)
    (h : s.runRule unit (s.engine.state.snapshots unit.inputs) = .done s') :
    Logs s.engine.state [.rule id] s.engine s'.engine ∧
      ∀ failure, s.Fails failure (.rule id) →
        Recorded s.engine.state (.rule id) failure s'.engine := by
  have hlabel : s.engine.state.label? (.rule id) = some ("rule '" ++ unit.rule.name ++ "'") := by
    rw [State.label?, hunit, Option.map_some]
  obtain ⟨result, hrun, h⟩ := Outcome.bind_eq_done_iff.mp h
  have hresult : ∀ failure, s.Fails failure (.rule id) → result = .error failure := by
    rintro failure ⟨unit', hfound, hrun'⟩
    obtain rfl := Option.some.inj (hunit.symm.trans hfound)
    exact Outcome.done.inj (hrun.symm.trans hrun')
  cases result with
  | ok widget =>
    obtain rfl := Outcome.done.inj h
    refine ⟨logs_of_errors_eq rfl, fun failure hfails => ?_⟩
    cases hresult failure hfails
  | error failure =>
    obtain rfl := Outcome.done.inj h
    refine ⟨⟨[⟨_, failure⟩], rfl, fun entry hentry => ⟨_, List.mem_cons_self, ?_⟩⟩,
      fun other hfails => ⟨_, hlabel, ?_⟩⟩
    · obtain rfl := List.mem_singleton.mp hentry
      exact hlabel
    · obtain rfl := Except.error.inj (hresult other hfails)
      exact List.mem_append_right _ List.mem_cons_self

/-- A script records under its label, and that it failed. -/
theorem runScript_logs {s s' : Stage C R} {id : Nat} {unit : ScriptUnit}
    (hunit : s.engine.state.scripts[id]? = some unit)
    (h : s.runScript unit (s.engine.state.snapshots unit.inputs) = .done s') :
    Logs s.engine.state [.script id] s.engine s'.engine ∧
      ∀ failure, s.Fails failure (.script id) →
        Recorded s.engine.state (.script id) failure s'.engine := by
  have hlabel : s.engine.state.label? (.script id) = some ("script '" ++ unit.name ++ "'") := by
    rw [State.label?, hunit, Option.map_some]
  obtain ⟨result, context, memory, recorded, hrun, herrors, hlabels, hfailed⟩ :=
    runScript_errors h
  refine ⟨⟨recorded, herrors, fun entry hentry => ⟨_, List.mem_cons_self, ?_⟩⟩,
    fun failure hfails => ⟨_, hlabel, ?_⟩⟩
  · rw [hlabels entry hentry]
    exact hlabel
  · obtain ⟨unit', context', memory', hfound, hrun'⟩ := hfails
    obtain rfl := Option.some.inj (hunit.symm.trans hfound)
    have hsame := Outcome.done.inj (hrun.symm.trans hrun')
    obtain rfl : result = .error failure := congrArg (fun ran => ran.1.1) hsame
    rw [herrors]
    exact List.mem_append_right _ (hfailed failure rfl)

/-- A unit records under its label. If it fails, that is contained and recorded. -/
theorem runUnit_logs {s s' : Stage C R} {unit : UnitRef} {run : UnitRun}
    (hkind : unit.isFormula = false) (h : s.runUnit unit = .done (s', run)) :
    Logs s.engine.state [unit] s.engine s'.engine ∧
      ∀ failure, s.Fails failure unit →
        s.Contains failure unit ∧ Recorded s.engine.state unit failure s'.engine := by
  cases (turn_of_runUnit h).1 with
  | absent hrule hscript =>
    refine ⟨logs_of_errors_eq rfl, fun failure hfails => ?_⟩
    cases unit with
    | formula id => cases hkind
    | rule id =>
      obtain ⟨unit, hfound, -⟩ := hfails
      rw [hrule id rfl] at hfound
      cases hfound
    | script id =>
      obtain ⟨unit, _, _, hfound, -⟩ := hfails
      rw [hscript id rfl] at hfound
      cases hfound
  | rule hunit hran =>
    obtain ⟨hlogs, hrecorded⟩ := runRule_logs hunit hran
    refine ⟨hlogs, fun failure hfails => ⟨?_, hrecorded failure hfails⟩⟩
    obtain ⟨unit, hfound, hfailed⟩ := hfails
    exact ⟨unit, _, hfound, runUnit_failed hfound hfailed⟩
  | script hunit hran =>
    obtain ⟨hlogs, hrecorded⟩ := runScript_logs hunit hran
    exact ⟨hlogs, fun failure hfails =>
      ⟨⟨s', run, h, hrecorded failure hfails⟩, hrecorded failure hfails⟩⟩

/-- A unit that runs changes only contents. -/
theorem sameShape_runUnit {s s' : Stage C R} {unit : UnitRef} {run : UnitRun}
    (h : s.runUnit unit = .done (s', run)) :
    State.SameShape s.engine.state s'.engine.state := by
  cases (turn_of_runUnit h).1 with
  | absent hrule hscript => exact .refl _
  | rule hunit h =>
    rw [runRule_state h]
    exact .refl _
  | @script id script _ hunit h =>
    obtain ⟨⟨⟨result, context⟩, memory⟩, -, h⟩ := Outcome.bind_eq_done_iff.mp h
    obtain rfl := Outcome.done.inj h
    have hshape := (applyWrites_spec ("script '" ++ script.name ++ "'") script.inputs
      context.writes
      (recordResult { s.engine with memory } ("script '" ++ script.name ++ "'") result)).1
    rw [recordResult_state] at hshape
    exact hshape

/-- Units record under their labels, and all that failed in their turns are
contained and recorded. -/
theorem runUnits_logs {units : List UnitRef} {s s' : Stage C R} {runs : List UnitRun}
    (hkinds : ∀ u ∈ units, u.isFormula = false) (h : s.runUnits units = .done (s', runs)) :
    Logs s.engine.state units s.engine s'.engine ∧
      ∀ turn ∈ s.turns units, ∀ failure, turn.1.Fails failure turn.2 →
        turn.1.Contains failure turn.2 ∧ Recorded s.engine.state turn.2 failure s'.engine := by
  induction units generalizing s runs with
  | nil =>
    obtain ⟨rfl, -⟩ := runUnits_nil_eq_done_iff.mp h
    exact ⟨logs_of_errors_eq rfl, fun turn hturn => absurd hturn List.not_mem_nil⟩
  | cons unit rest ih =>
    obtain ⟨s₁, run, more, hfirst, hrest, -⟩ := runUnits_cons_eq_done_iff.mp h
    have hshape := sameShape_runUnit hfirst
    obtain ⟨hlogs, hfailed⟩ := runUnit_logs (hkinds unit List.mem_cons_self) hfirst
    obtain ⟨hmore, hrecorded⟩ := ih (fun u hu => hkinds u (List.mem_cons_of_mem _ hu)) hrest
    have hlater := hmore.of_sameShape hshape
    refine ⟨hlogs.trans hlater, fun turn hturn failure hfails => ?_⟩
    simp only [Stage.turns, hfirst] at hturn
    rcases List.mem_cons.mp hturn with rfl | hturn
    · obtain ⟨hcontains, hrecord⟩ := hfailed failure hfails
      exact ⟨hcontains, hrecord.of_logs hlater⟩
    · obtain ⟨hcontains, hrecord⟩ := hrecorded turn hturn failure hfails
      exact ⟨hcontains, hrecord.of_sameShape hshape⟩

end ProcessDisplay.Engine
