import Mathlib.Tactic.Common
import ProcessDisplay.Proofs.ScriptWrites

/-!
# Records of failures

A formula, rule or script that fails is recorded under its name, and nothing
else of a tick hangs on it: every formula that depends on a changed variable
is evaluated, every due unit has its turn, and what is recorded belongs to one
that had its turn. Recorded failures stay until somebody takes them.
-/

namespace ProcessDisplay.Engine

variable {C : FormulaCompiler} {R : ScriptInterpreter}

/-- What the failures of a unit are recorded under. A formula goes by the name
of its variable. -/
def State.label? (s : State C) : UnitRef → Option String
  | .formula id => (s.computed? id).bind fun p => s.vars[p]?.map Variable.name
  | .rule id => s.rules[id]?.map fun unit => "rule '" ++ unit.rule.name ++ "'"
  | .script id => s.scripts[id]?.map fun unit => "script '" ++ unit.name ++ "'"

/-- The turn of a unit on an engine and its widgets ends with a failure. -/
def Stage.Fails (s : Stage C R) (failure : Failure) : UnitRef → Prop
  | .formula id => ∃ unit f, s.engine.state.formulas[id]? = some unit ∧
      C.isReady (s.engine.state.supplied unit) = true ∧
      C.execute (s.engine.state.supplied unit) = .done (.error failure, f)
  | .rule id => ∃ unit, s.engine.state.rules[id]? = some unit ∧
      unit.rule.execute Rule.expressionEvaluation (s.engine.state.snapshots unit.inputs)
        (s.panel.widget unit.widget) = .done (.error failure)
  | .script id => ∃ unit context memory, s.engine.state.scripts[id]? = some unit ∧
      R.run s.engine.memory unit.body
        { script := unit.name, widget := s.panel.widget unit.widget
          snapshots := s.engine.state.snapshots unit.inputs } =
            .done ((.error failure, context), memory)

/-- A unit goes by one label as long as only contents change. -/
theorem State.SameShape.label? {s s' : State C} (h : SameShape s s') (u : UnitRef) :
    s'.label? u = s.label? u := by
  cases u with
  | formula id =>
    simp only [State.label?, h.computed? id]
    cases s.computed? id with
    | none => rfl
    | some p =>
      simp only [Option.bind_some]
      cases hv : s.vars[p]? with
      | none =>
        have hrange : s'.vars.length ≤ p := by
          rw [h.length]
          exact List.getElem?_eq_none_iff.mp hv
        rw [List.getElem?_eq_none hrange]
      | some v =>
        obtain ⟨w, hw, hbecomes, -⟩ := h.moves p v hv
        rw [hw, Option.map_some, Option.map_some, hbecomes.name]
  | rule id => simp only [State.label?, h.rules]
  | script id => simp only [State.label?, h.scripts]

/-- What was recorded since, all of it under the label of one of some units. -/
def Logs (s : State C) (units : List UnitRef) (e e' : Engine C R) : Prop :=
  ∃ recorded, e'.errors = e.errors ++ recorded ∧
    ∀ entry ∈ recorded, ∃ u ∈ units, s.label? u = some entry.unit

/-- Nothing was recorded. -/
theorem logs_of_errors_eq {s : State C} {units : List UnitRef} {e e' : Engine C R}
    (h : e'.errors = e.errors) : Logs s units e e' :=
  ⟨[], by rw [h, List.append_nil], fun entry hentry => absurd hentry List.not_mem_nil⟩

/-- Records of some units and then of others. -/
theorem Logs.trans {s : State C} {units more : List UnitRef} {e e' e'' : Engine C R}
    (h : Logs s units e e') (h' : Logs s more e' e'') :
    Logs s (units ++ more) e e'' := by
  obtain ⟨recorded, herrors, hlabels⟩ := h
  obtain ⟨later, herrors', hlabels'⟩ := h'
  refine ⟨recorded ++ later, by rw [herrors', herrors, List.append_assoc], ?_⟩
  intro entry hentry
  rcases List.mem_append.mp hentry with hold | hnew
  · obtain ⟨u, hu, hlabel⟩ := hlabels entry hold
    exact ⟨u, List.mem_append_left _ hu, hlabel⟩
  · obtain ⟨u, hu, hlabel⟩ := hlabels' entry hnew
    exact ⟨u, List.mem_append_right _ hu, hlabel⟩

/-- What is recorded stays. -/
theorem Logs.mono {s : State C} {units : List UnitRef} {e e' : Engine C R}
    (h : Logs s units e e') {entry : UnitFailure} (hentry : entry ∈ e.errors) :
    entry ∈ e'.errors := by
  obtain ⟨recorded, herrors, -⟩ := h
  rw [herrors]
  exact List.mem_append_left _ hentry

/-- The records are those of the same units in a state of the same shape. -/
theorem Logs.of_sameShape {s s' : State C} {units : List UnitRef} {e e' : Engine C R}
    (hshape : State.SameShape s s') (h : Logs s' units e e') : Logs s units e e' := by
  obtain ⟨recorded, herrors, hlabels⟩ := h
  refine ⟨recorded, herrors, fun entry hentry => ?_⟩
  obtain ⟨u, hu, hlabel⟩ := hlabels entry hentry
  exact ⟨u, hu, (hshape.label? u).symm.trans hlabel⟩

/-- A failure that was recorded under the label of its unit. -/
def Recorded (s : State C) (u : UnitRef) (failure : Failure) (e : Engine C R) : Prop :=
  ∃ label, s.label? u = some label ∧ ⟨label, failure⟩ ∈ e.errors

/-- What is recorded stays recorded. -/
theorem Recorded.of_logs {s : State C} {u : UnitRef} {failure : Failure} {units : List UnitRef}
    {e e' : Engine C R} (h : Recorded s u failure e) (hlogs : Logs s units e e') :
    Recorded s u failure e' := by
  obtain ⟨label, hlabel, hentry⟩ := h
  exact ⟨label, hlabel, hlogs.mono hentry⟩

/-- A record is that of the same unit in a state of the same shape. -/
theorem Recorded.of_sameShape {s s' : State C} {u : UnitRef} {failure : Failure} {e : Engine C R}
    (h : Recorded s' u failure e) (hshape : State.SameShape s s') : Recorded s u failure e := by
  obtain ⟨label, hlabel, hentry⟩ := h
  exact ⟨label, (hshape.label? u).symm.trans hlabel, hentry⟩

/-- Evaluations of formulas one after another. -/
inductive Passes : Engine C R → List FormulaRun → Engine C R → Prop where
  /-- No evaluation. -/
  | refl (e : Engine C R) : Passes e [] e
  /-- One evaluation and those that follow it. -/
  | head {e e₁ e' : Engine C R} {run : FormulaRun} {rest : List FormulaRun}
    (h : evaluateFormula run.formula e = .done (run.changed, e₁)) (hrest : Passes e₁ rest e') :
    Passes e (run :: rest) e'

/-- Evaluations and then others. -/
theorem Passes.trans {e e' e'' : Engine C R} {runs more : List FormulaRun}
    (h : Passes e runs e') (h' : Passes e' more e'') : Passes e (runs ++ more) e'' := by
  induction h with
  | refl => exact h'
  | head hfirst _ ih => exact .head hfirst (ih h')

namespace Propagation

/-- A visit evaluates its formula. -/
theorem visit_passes {p p' : Propagation C R} {id : Nat} (h : p.visit id = .done p') :
    ∃ run : FormulaRun, run.formula = id ∧ p'.runs = p.runs ++ [run] ∧
      Passes p.engine [run] p'.engine := by
  obtain ⟨⟨changed, engine⟩, heval, h⟩ := Outcome.bind_eq_done_iff.mp h
  refine ⟨⟨id, changed⟩, rfl, ?_⟩
  have hkeeps : p'.runs = p.runs ++ [⟨id, changed⟩] ∧ p'.engine = engine := by
    dsimp only at h
    split at h
    · split at h
      · obtain rfl := Outcome.done.inj h
        exact ⟨rfl, rfl⟩
      · obtain rfl := Outcome.done.inj h
        exact ⟨rfl, rfl⟩
    · obtain rfl := Outcome.done.inj h
      exact ⟨rfl, rfl⟩
  obtain ⟨hruns, rfl⟩ := hkeeps
  exact ⟨hruns, .head heval (.refl _)⟩

/-- Visits evaluate their formulas in order. -/
theorem visitAll_passes {ids : List Nat} {p p' : Propagation C R}
    (h : p.visitAll ids = .done p') :
    ∃ more : List FormulaRun, more.map FormulaRun.formula = ids ∧ p'.runs = p.runs ++ more ∧
      Passes p.engine more p'.engine := by
  induction ids generalizing p with
  | nil =>
    obtain rfl := Outcome.done.inj h
    exact ⟨[], rfl, by simp, .refl _⟩
  | cons id rest ih =>
    obtain ⟨p₁, hvisit, hrest⟩ := Outcome.bind_eq_done_iff.mp h
    obtain ⟨run, rfl, hruns, hpasses⟩ := visit_passes hvisit
    obtain ⟨more, rfl, hmore, hlater⟩ := ih hrest
    exact ⟨run :: more, rfl, by simp [hmore, hruns], hpasses.trans hlater⟩

/-- All rounds of the loop. -/
theorem settle_passes {n : Nat} {p p' : Propagation C R} (h : p.settle n = .done p') :
    ∃ more : List FormulaRun, p'.runs = p.runs ++ more ∧ Passes p.engine more p'.engine := by
  induction n generalizing p with
  | zero =>
    obtain rfl := Outcome.done.inj h
    exact ⟨[], by simp, .refl _⟩
  | succ n ih =>
    rw [settle] at h
    split at h
    · obtain rfl := Outcome.done.inj h
      exact ⟨[], by simp, .refl _⟩
    · next first rest hqueue =>
      obtain ⟨p₁, hadvance, hrest⟩ := Outcome.bind_eq_done_iff.mp h
      obtain ⟨more, -, hruns, hpasses⟩ := visitAll_passes hadvance
      obtain ⟨later, hlater, hrests⟩ := ih hrest
      exact ⟨more ++ later, by simp [hlater, hruns], hpasses.trans hrests⟩

/-- The evaluations of a propagation. -/
theorem propagate_passes {e : Engine C R} {dirty : VariableSet} {p : Propagation C R}
    (h : propagate e dirty = .done p) : Passes e p.runs p.engine := by
  obtain ⟨more, hruns, hpasses⟩ := settle_passes h
  rw [hruns]
  exact hpasses

/-- A changed variable still waits, or the formulas that depend on it have
been evaluated since. -/
def Serves (p : Propagation C R) : Prop :=
  ∀ q ∈ p.dirty, q ∈ p.queue ∨
    ∀ id ∈ formulasOf (p.engine.state.triggers.dependents q), ∃ run ∈ p.runs, run.formula = id

/-- What a visit adds to the changed variables waits. -/
theorem visit_waits {p p' : Propagation C R} {id : Nat} (h : p.visit id = .done p') :
    (∀ q ∈ p.queue, q ∈ p'.queue) ∧ ∀ q ∈ p'.dirty, q ∈ p.dirty ∨ q ∈ p'.queue := by
  obtain ⟨⟨changed, engine⟩, -, h⟩ := Outcome.bind_eq_done_iff.mp h
  dsimp only at h
  split at h
  · next unit hunit =>
    split at h
    · obtain rfl := Outcome.done.inj h
      refine ⟨fun q hq => List.mem_append_left _ hq, fun q hq => ?_⟩
      rcases VariableSet.mem_add.mp hq with rfl | hold
      · exact Or.inr (List.mem_append_right _ List.mem_cons_self)
      · exact Or.inl hold
    · obtain rfl := Outcome.done.inj h
      exact ⟨fun q hq => hq, fun q hq => Or.inl hq⟩
  · obtain rfl := Outcome.done.inj h
    exact ⟨fun q hq => hq, fun q hq => Or.inl hq⟩

/-- What visits add to the changed variables waits. -/
theorem visitAll_waits {ids : List Nat} {p p' : Propagation C R}
    (h : p.visitAll ids = .done p') :
    (∀ q ∈ p.queue, q ∈ p'.queue) ∧ ∀ q ∈ p'.dirty, q ∈ p.dirty ∨ q ∈ p'.queue := by
  induction ids generalizing p with
  | nil =>
    obtain rfl := Outcome.done.inj h
    exact ⟨fun q hq => hq, fun q hq => Or.inl hq⟩
  | cons id rest ih =>
    obtain ⟨p₁, hvisit, hrest⟩ := Outcome.bind_eq_done_iff.mp h
    obtain ⟨hqueue, hdirty⟩ := visit_waits hvisit
    obtain ⟨hqueue', hdirty'⟩ := ih hrest
    refine ⟨fun q hq => hqueue' q (hqueue q hq), fun q hq => ?_⟩
    rcases hdirty' q hq with hold | hnew
    · exact (hdirty q hold).imp_right (hqueue' q)
    · exact Or.inr hnew

/-- A round serves the first waiting variable. -/
theorem advance_serves {p p' : Propagation C R} {first : VariableId} {rest : List VariableId}
    (hs : p.engine.state.WellFormed) (hqueue : p.queue = first :: rest) (hserves : p.Serves)
    (h : p.advance first rest = .done p') : p'.Serves := by
  obtain ⟨more, hids, hruns, -⟩ := visitAll_passes h
  obtain ⟨hkept, hadded⟩ := visitAll_waits h
  intro q hq
  rw [(advance_leads hs h).shape.triggers, hruns]
  rcases hadded q hq with hold | hnew
  · have hserved : q ∈ p.queue ∨ ∀ id ∈ formulasOf (p.engine.state.triggers.dependents q),
        ∃ run ∈ p.runs, run.formula = id := hserves q hold
    rcases hserved with hwaiting | hdone
    · rw [hqueue] at hwaiting
      rcases List.mem_cons.mp hwaiting with rfl | hlater
      · refine Or.inr fun id hid => ?_
        rw [← hids] at hid
        obtain ⟨run, hrun, rfl⟩ := List.mem_map.mp hid
        exact ⟨run, List.mem_append_right _ hrun, rfl⟩
      · exact Or.inl (hkept q hlater)
    · refine Or.inr fun id hid => ?_
      obtain ⟨run, hrun, hformula⟩ := hdone id hid
      exact ⟨run, List.mem_append_left _ hrun, hformula⟩
  · exact Or.inl hnew

/-- All rounds of the loop serve the waiting variables. -/
theorem settle_serves {n : Nat} {p p' : Propagation C R} (hs : p.engine.state.WellFormed)
    (hserves : p.Serves) (h : p.settle n = .done p') : p'.Serves := by
  induction n generalizing p with
  | zero =>
    obtain rfl := Outcome.done.inj h
    exact hserves
  | succ n ih =>
    rw [settle] at h
    split at h
    · obtain rfl := Outcome.done.inj h
      exact hserves
    · next first rest hqueue =>
      obtain ⟨p₁, hadvance, hrest⟩ := Outcome.bind_eq_done_iff.mp h
      exact ih ((advance_leads hs hadvance).wellFormed hs)
        (advance_serves hs hqueue hserves hadvance) hrest

/-- A propagation evaluates every formula that depends on a changed variable. -/
theorem propagate_serves {e : Engine C R} {dirty : VariableSet} {p : Propagation C R}
    (hs : e.state.WellFormed) (h : propagate e dirty = .done p) {q : VariableId}
    (hq : q ∈ p.dirty) {id : Nat} (hedge : (q, .formula id) ∈ e.state.triggers.edges) :
    ∃ run ∈ p.runs, run.formula = id := by
  obtain ⟨hleads, hqueue⟩ := propagate_spec hs h
  have hserves : p.Serves :=
    settle_serves (p := begin e dirty) hs (fun q hq => Or.inl hq) h
  rcases hserves q hq with hwaiting | hdone
  · rw [hqueue] at hwaiting
    cases hwaiting
  · refine hdone id (mem_formulasOf.mpr (TriggerGraph.mem_dependents.mpr ?_))
    rw [hleads.shape.triggers]
    exact hedge

end Propagation

end ProcessDisplay.Engine
