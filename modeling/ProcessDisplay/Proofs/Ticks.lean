import Mathlib.Tactic.Common
import ProcessDisplay.Proofs.Evolutions
import ProcessDisplay.Proofs.Propagations

/-!
# The phases of a tick

A tick prepares and then runs units. The preparation advances the generators,
propagates changes through the formulas, feeds the traces and says which
units are due; the units then run one after another on what is prepared.
Whatever the units do, the generators, the formulas and the traces stay as
the preparation left them.
-/

namespace ProcessDisplay.Engine

variable {C : FormulaCompiler} {R : ScriptInterpreter}

/-- What generators do to variables: every variable that moved is among the
changed ones, and those are driven by a generator or were changed before. -/
structure Advances (slots : List GeneratorSlot) (a a' : Advance) : Prop where
  /-- Generators stay with their variables. -/
  generators : a'.generators.map GeneratorSlot.variableId =
    a.generators.map GeneratorSlot.variableId ++ slots.map GeneratorSlot.variableId
  /-- No variable comes or goes. -/
  length : a'.vars.length = a.vars.length
  /-- Variables that moved are changed. -/
  moves : Moves a.vars a'.vars (· ∈ a'.changed)
  /-- Formula variables are as they were. -/
  formulas : KeepsFormulas a.vars a'.vars
  /-- What was changed is changed. -/
  changed : ∀ q ∈ a.changed, q ∈ a'.changed

/-- One sample for a variable that is not of a formula. -/
theorem sample_spec {a : Advance} {id : VariableId} {sample : Sample}
    (hkind : ∀ v : Variable, a.vars[id]? = some v → v.kind ≠ .formula) :
    (a.sample id sample).generators = a.generators ∧
      (a.sample id sample).vars.length = a.vars.length ∧
      Moves a.vars (a.sample id sample).vars (· ∈ (a.sample id sample).changed) ∧
      KeepsFormulas a.vars (a.sample id sample).vars ∧
      ∀ q ∈ a.changed, q ∈ (a.sample id sample).changed := by
  unfold Advance.sample
  cases hv : a.vars[id]? with
  | none => exact ⟨rfl, rfl, .refl _ _, .refl _, fun _ hq => hq⟩
  | some v =>
    refine ⟨rfl, by simp, .set hv (v.becomes_apply sample) ?_, .set hv (hkind v hv), ?_⟩
    · by_cases hc : (v.apply sample).2 = true
      · simp [hc]
      · exact Or.inr (Variable.agrees_apply (Bool.eq_false_iff.mpr hc))
    · intro q hq
      dsimp only
      split
      · exact List.mem_append_left _ hq
      · exact hq

/-- Generators advance in order. -/
theorem advance_spec {clock : Time.Clock} {now : Time.Instant} {slots : List GeneratorSlot}
    {a a' : Advance}
    (hkind : ∀ slot ∈ slots, ∀ v : Variable, a.vars[slot.variableId]? = some v →
      v.kind ≠ .formula)
    (h : advance clock now slots a = .done a') : Advances slots a a' := by
  induction slots generalizing a with
  | nil =>
    obtain rfl := Outcome.done.inj h
    exact ⟨by simp, rfl, .refl _ _, .refl _, fun _ hq => hq⟩
  | cons slot rest ih =>
    obtain ⟨⟨sample, generator⟩, -, h⟩ := Outcome.bind_eq_done_iff.mp h
    cases sample with
    | none =>
      have hrest := ih (a := { a with generators := a.generators ++ [{ slot with generator }] })
        (fun other hother => hkind other (List.mem_cons_of_mem _ hother)) h
      refine ⟨?_, hrest.length, hrest.moves, hrest.formulas, hrest.changed⟩
      rw [hrest.generators]
      simp
    | some sample =>
      obtain ⟨hgenerators, hlength, hmoves, hformulas, hchanged⟩ :=
        sample_spec (a := { a with generators := a.generators ++ [{ slot with generator }] })
          (hkind slot List.mem_cons_self)
      have hkind' : ∀ other ∈ rest, ∀ v : Variable,
          (Advance.sample { a with generators := a.generators ++ [{ slot with generator }] }
            slot.variableId sample).vars[other.variableId]? = some v → v.kind ≠ .formula := by
        intro other hother w hw
        obtain ⟨v, hv, hbecomes⟩ := hmoves.of_length_eq hlength hw
        have hk := hkind other (List.mem_cons_of_mem _ hother) v hv
        rcases hbecomes.kind with he | ⟨-, hwritable⟩
        · rw [he]
          exact hk
        · intro hformula
          rw [Variable.isWritable, hformula] at hwritable
          cases hwritable
      have hrest := ih hkind' h
      refine ⟨?_, hrest.length.trans hlength, ?_, hformulas.trans hrest.formulas,
        fun q hq => hrest.changed q (hchanged q hq)⟩
      · rw [hrest.generators, hgenerators]
        simp
      · exact (hmoves.mono hrest.changed).trans hrest.moves

/-- What is left alone by units that run: all but the variables, what is
pending and the redraw flag. -/
def State.Untouched (s s' : State C) : Prop :=
  s' = { s with vars := s'.vars, pending := s'.pending, changed := s'.changed }

theorem State.Untouched.refl (s : State C) : Untouched s s := rfl

theorem State.Untouched.trans {s s' s'' : State C} (h : Untouched s s') (h' : Untouched s' s'') :
    Untouched s s'' := by
  unfold Untouched at *
  rw [h', h]

/-- What a unit that runs does to an engine. -/
structure Runs (e e' : Engine C R) : Prop where
  /-- Variables change by writes only. -/
  evolution : Evolution e e'
  /-- The rest of the state stays. -/
  untouched : e.state.Untouched e'.state

theorem Runs.refl (e : Engine C R) : Runs e e := ⟨.refl, .refl _⟩

theorem Runs.trans {e e' e'' : Engine C R} (h : Runs e e') (h' : Runs e' e'') : Runs e e'' :=
  ⟨h.evolution.trans h'.evolution, h.untouched.trans h'.untouched⟩

/-- Changes besides the state belong to a run. -/
theorem runs_of_state_eq {e e' : Engine C R} (hsettings : e'.settings = e.settings)
    (hseed : e'.seed = e.seed) (hstate : e'.state = e.state) : Runs e e' := by
  refine ⟨.single (.aside ⟨hsettings, hseed, ?_⟩), ?_⟩
  · rw [hstate]
  · rw [hstate]
    exact .refl _

/-- A write of a script belongs to its run. -/
theorem runs_applyWrite (label : String) (inputs : List VariableId) (e : Engine C R)
    (write : Nat × Value) : Runs e (applyWrite label inputs e write) := by
  unfold applyWrite
  split
  · exact runs_of_state_eq rfl rfl rfl
  · next id _ =>
    cases hwrite : e.state.write id write.2 with
    | ok state =>
      refine ⟨.single (.write hwrite), ?_⟩
      obtain ⟨v, -, -, rfl⟩ := State.write_eq_ok_iff.mp hwrite
      rfl
    | error failure => exact runs_of_state_eq rfl rfl rfl

/-- All writes of a script belong to its run. -/
theorem runs_applyWrites (label : String) (inputs : List VariableId) (writes : List (Nat × Value))
    (e : Engine C R) : Runs e (writes.foldl (applyWrite label inputs) e) := by
  induction writes generalizing e with
  | nil => exact .refl e
  | cons first rest ih => exact (runs_applyWrite label inputs e first).trans (ih _)

/-- A rule changes a widget or records a failure. -/
theorem runs_runRule {s s' : Stage C R} {unit : RuleUnit} {snapshots : List Snapshot}
    (h : s.runRule unit snapshots = .done s') : Runs s.engine s'.engine := by
  obtain ⟨result, -, h⟩ := Outcome.bind_eq_done_iff.mp h
  cases result with
  | ok widget =>
    obtain rfl := Outcome.done.inj h
    exact .refl _
  | error failure =>
    obtain rfl := Outcome.done.inj h
    exact runs_of_state_eq rfl rfl rfl

/-- A script changes a widget, writes variables and says things. -/
theorem runs_runScript {s s' : Stage C R} {unit : ScriptUnit} {snapshots : List Snapshot}
    (h : s.runScript unit snapshots = .done s') : Runs s.engine s'.engine := by
  obtain ⟨⟨⟨result, context⟩, memory⟩, -, h⟩ := Outcome.bind_eq_done_iff.mp h
  obtain rfl := Outcome.done.inj h
  have hresult : Runs s.engine
      (recordResult { s.engine with memory } ("script '" ++ unit.name ++ "'") result) := by
    cases result with
    | ok _ => exact runs_of_state_eq rfl rfl rfl
    | error failure => exact runs_of_state_eq rfl rfl rfl
  exact (hresult.trans (runs_applyWrites _ _ _ _)).trans (runs_of_state_eq rfl rfl rfl)

/-- A rule reads its inputs. -/
theorem State.inputsOf_rule {s : State C} {id : Nat} {unit : RuleUnit}
    (h : s.rules[id]? = some unit) : s.inputsOf (.rule id) = unit.inputs := by
  rw [inputsOf, h, Option.map_some, Option.getD_some]

/-- A script reads its inputs. -/
theorem State.inputsOf_script {s : State C} {id : Nat} {unit : ScriptUnit}
    (h : s.scripts[id]? = some unit) : s.inputsOf (.script id) = unit.inputs := by
  rw [inputsOf, h, Option.map_some, Option.getD_some]

/-- The turn of a unit: there is none at its position, or a rule or script runs
with the present snapshots of its inputs. -/
inductive Turn (s : Stage C R) : UnitRef → Stage C R → Prop where
  /-- A formula has no turn, and neither has a unit that is not there. -/
  | absent {u : UnitRef} (hrule : ∀ id, u = .rule id → s.engine.state.rules[id]? = none)
    (hscript : ∀ id, u = .script id → s.engine.state.scripts[id]? = none) : Turn s u s
  /-- A rule runs. -/
  | rule {id : Nat} {unit : RuleUnit} {s' : Stage C R}
    (hunit : s.engine.state.rules[id]? = some unit)
    (h : s.runRule unit (s.engine.state.snapshots unit.inputs) = .done s') : Turn s (.rule id) s'
  /-- A script runs. -/
  | script {id : Nat} {unit : ScriptUnit} {s' : Stage C R}
    (hunit : s.engine.state.scripts[id]? = some unit)
    (h : s.runScript unit (s.engine.state.snapshots unit.inputs) = .done s') :
    Turn s (.script id) s'

/-- A unit that runs has its turn. -/
theorem turn_of_runUnit {s s' : Stage C R} {u : UnitRef} {run : UnitRun}
    (h : s.runUnit u = .done (s', run)) :
    Turn s u s' ∧ run = ⟨u, s.engine.state.snapshots (s.engine.state.inputsOf u)⟩ := by
  unfold Stage.runUnit at h
  cases u with
  | formula id =>
    obtain ⟨rfl, rfl⟩ : s = s' ∧ _ = run := by simpa using h
    exact ⟨.absent (fun _ hid => nomatch hid) (fun _ hid => nomatch hid), rfl⟩
  | rule id =>
    dsimp only at h
    cases hunit : s.engine.state.rules[id]? with
    | none =>
      simp only [hunit] at h
      obtain ⟨rfl, rfl⟩ : s = s' ∧ _ = run := by simpa using h
      refine ⟨.absent (fun other hid => ?_) (fun _ hid => nomatch hid), rfl⟩
      obtain rfl := UnitRef.rule.inj hid
      exact hunit
    | some unit =>
      have hinputs := State.inputsOf_rule hunit
      simp only [hunit, hinputs] at h
      obtain ⟨after, hafter, h⟩ := Outcome.bind_eq_done_iff.mp h
      obtain ⟨rfl, rfl⟩ : after = s' ∧ _ = run := by simpa using h
      exact ⟨.rule hunit hafter, by rw [hinputs]⟩
  | script id =>
    dsimp only at h
    cases hunit : s.engine.state.scripts[id]? with
    | none =>
      simp only [hunit] at h
      obtain ⟨rfl, rfl⟩ : s = s' ∧ _ = run := by simpa using h
      refine ⟨.absent (fun _ hid => nomatch hid) (fun other hid => ?_), rfl⟩
      obtain rfl := UnitRef.script.inj hid
      exact hunit
    | some unit =>
      have hinputs := State.inputsOf_script hunit
      simp only [hunit, hinputs] at h
      obtain ⟨after, hafter, h⟩ := Outcome.bind_eq_done_iff.mp h
      obtain ⟨rfl, rfl⟩ : after = s' ∧ _ = run := by simpa using h
      exact ⟨.script hunit hafter, by rw [hinputs]⟩

/-- A unit receives the snapshots of its inputs at its turn. -/
theorem runUnit_spec {s s' : Stage C R} {unit : UnitRef} {run : UnitRun}
    (h : s.runUnit unit = .done (s', run)) :
    Runs s.engine s'.engine ∧
      run = ⟨unit, s.engine.state.snapshots (s.engine.state.inputsOf unit)⟩ := by
  obtain ⟨hturn, hrun⟩ := turn_of_runUnit h
  refine ⟨?_, hrun⟩
  cases hturn with
  | absent hrule hscript => exact .refl _
  | rule hunit h => exact runs_runRule h
  | script hunit h => exact runs_runScript h

/-- Without units nothing happens. -/
theorem runUnits_nil_eq_done_iff {s s' : Stage C R} {runs : List UnitRun} :
    s.runUnits [] = .done (s', runs) ↔ s = s' ∧ [] = runs := by
  simp [Stage.runUnits]

/-- Units run if the first one does, and the others do on the stage that it leaves. -/
theorem runUnits_cons_eq_done_iff {unit : UnitRef} {rest : List UnitRef} {s s' : Stage C R}
    {runs : List UnitRun} : s.runUnits (unit :: rest) = .done (s', runs) ↔ ∃ s₁ run more,
      s.runUnit unit = .done (s₁, run) ∧ s₁.runUnits rest = .done (s', more) ∧
        run :: more = runs := by
  constructor
  · intro h
    obtain ⟨⟨s₁, run⟩, hfirst, h⟩ := Outcome.bind_eq_done_iff.mp h
    obtain ⟨⟨s₂, more⟩, hrest, h⟩ := Outcome.bind_eq_done_iff.mp h
    obtain ⟨rfl, hruns⟩ : s₂ = s' ∧ run :: more = runs := by simpa using h
    exact ⟨s₁, run, more, hfirst, hrest, hruns⟩
  · rintro ⟨s₁, run, more, hfirst, hrest, rfl⟩
    rw [Stage.runUnits, hfirst, Outcome.done_bind]
    dsimp only
    rw [hrest]
    rfl

/-- Units run in order, each once and each at a state between the first and
the last one. -/
theorem runUnits_spec {units : List UnitRef} {s s' : Stage C R} {runs : List UnitRun}
    (h : s.runUnits units = .done (s', runs)) :
    Runs s.engine s'.engine ∧ runs.map UnitRun.unit = units ∧
      ∀ run ∈ runs, ∃ e : Engine C R, Runs s.engine e ∧ Runs e s'.engine ∧
        run.snapshots = e.state.snapshots (e.state.inputsOf run.unit) := by
  induction units generalizing s runs with
  | nil =>
    obtain ⟨rfl, rfl⟩ := runUnits_nil_eq_done_iff.mp h
    exact ⟨.refl _, rfl, by simp⟩
  | cons unit rest ih =>
    obtain ⟨s₁, run, more, hfirst, hrest, rfl⟩ := runUnits_cons_eq_done_iff.mp h
    obtain ⟨hrun, rfl⟩ := runUnit_spec hfirst
    obtain ⟨hmore, hunits, hall⟩ := ih hrest
    refine ⟨hrun.trans hmore, by simp [hunits], ?_⟩
    intro other hother
    rcases List.mem_cons.mp hother with rfl | hother
    · exact ⟨s.engine, .refl _, hrun.trans hmore, rfl⟩
    · obtain ⟨e, hbefore, hafter, hsnapshots⟩ := hall other hother
      exact ⟨e, hrun.trans hbefore, hafter, hsnapshots⟩

/-- The units that have to run: the new ones and those that depend on a dirty
variable. -/
theorem State.mem_due {s : State C} {dirty : VariableSet} {u : UnitRef} :
    u ∈ s.due dirty ↔ u ∈ s.fresh ∨
      u.isFormula = false ∧ ∃ q ∈ dirty, (q, u) ∈ s.triggers.edges := by
  have hfold : ∀ (units : List UnitRef) (set : UnitSet),
      u ∈ units.foldl (fun set unit => if unit.isFormula then set else set.add unit) set ↔
        u ∈ set ∨ u.isFormula = false ∧ u ∈ units := by
    intro units
    induction units with
    | nil => simp
    | cons first rest ih =>
      intro set
      rw [List.foldl_cons, ih, List.mem_cons]
      by_cases hfirst : first.isFormula = true
      · rw [if_pos hfirst]
        constructor
        · rintro (hset | ⟨hu, hrest⟩)
          · exact Or.inl hset
          · exact Or.inr ⟨hu, Or.inr hrest⟩
        · rintro (hset | ⟨hu, rfl | hrest⟩)
          · exact Or.inl hset
          · rw [hu] at hfirst
            cases hfirst
          · exact Or.inr ⟨hu, hrest⟩
      · rw [if_neg hfirst, UnitSet.mem_add]
        constructor
        · rintro ((rfl | hset) | ⟨hu, hrest⟩)
          · exact Or.inr ⟨Bool.eq_false_iff.mpr hfirst, Or.inl rfl⟩
          · exact Or.inl hset
          · exact Or.inr ⟨hu, Or.inr hrest⟩
        · rintro (hset | ⟨hu, rfl | hrest⟩)
          · exact Or.inl (Or.inr hset)
          · exact Or.inl (Or.inl rfl)
          · exact Or.inr ⟨hu, hrest⟩
  rw [State.due, hfold]
  simp only [List.mem_flatMap, TriggerGraph.mem_dependents]

/-- The units that have to run ascend. -/
theorem State.due_ascending {s : State C} (h : s.fresh.Ascending) (dirty : VariableSet) :
    (s.due dirty).Ascending := by
  unfold State.due
  generalize dirty.flatMap s.triggers.dependents = units
  generalize s.fresh = set at h
  induction units generalizing set with
  | nil => exact h
  | cons first rest ih =>
    rw [List.foldl_cons]
    split
    · exact ih set h
    · exact ih _ (h.add first)

/-- What a tick has prepared when the units start to run. -/
structure Prepared (C : FormulaCompiler) (R : ScriptInterpreter) where
  /-- The stage on which the units run. -/
  stage : Stage C R
  /-- The variables that generators changed, in order. -/
  generated : List VariableId
  /-- The evaluations of formulas, in order. -/
  formulas : List FormulaRun
  /-- The variables that changed. -/
  dirty : VariableSet
  /-- The units that have to run, in order. -/
  due : UnitSet

/-- The first phase of a tick: generators, formulas and traces. -/
def Stage.prepare (s : Stage C R) (clock : Time.Clock) (wall : Time.Instant) :
    Outcome (Prepared C R) := do
  let e := s.engine
  let now ← Time.instantAt e.state.epoch clock
  let a ← advance clock now e.state.generators { vars := e.state.vars }
  let p ← propagate (e.beginTick a now) (a.changed.foldl VariableSet.add e.state.pending)
  let state := p.engine.state.feed p.dirty wall
  return ⟨⟨p.engine.withState { state with fresh := [] }, s.panel⟩, a.changed, p.runs, p.dirty,
    state.due p.dirty⟩

/-- A tick prepares, and then the units run that are due. -/
theorem tick_eq_done_iff {s s' : Stage C R} {clock : Time.Clock} {wall : Time.Instant}
    {report : TickReport} :
    s.tick clock wall = .done (s', report) ↔ ∃ p runs, s.prepare clock wall = .done p ∧
      p.stage.runUnits p.due = .done (s', runs) ∧
      report = ⟨s.engine.state.changed || !p.generated.isEmpty || !p.due.isEmpty, p.generated,
        p.formulas, p.dirty, runs⟩ := by
  unfold Stage.tick Stage.prepare
  simp only [Outcome.bind_eq_done_iff, Outcome.pure_eq, Outcome.done.injEq, Prod.exists,
    Prod.mk.injEq]
  constructor
  · rintro ⟨now, hnow, a, ha, p, hp, after, runs, hruns, rfl, rfl⟩
    exact ⟨_, runs, ⟨now, hnow, a, ha, p, hp, rfl⟩, hruns, rfl⟩
  · rintro ⟨_, runs, ⟨now, hnow, a, ha, p, hp, rfl⟩, hruns, rfl⟩
    exact ⟨now, hnow, a, ha, p, hp, s', runs, hruns, rfl, rfl⟩

/-- What holds of a preparation. -/
structure Prepares (s : Stage C R) (p : Prepared C R) : Prop where
  /-- Only contents change. -/
  shape : State.SameShape s.engine.state p.stage.engine.state
  /-- The registry is well-formed. -/
  wellFormed : p.stage.engine.state.WellFormed
  /-- Nothing is pending yet. -/
  pending : p.stage.engine.state.pending = []
  /-- No unit is new any more. -/
  fresh : p.stage.engine.state.fresh = []
  /-- Variables that moved are dirty. -/
  moves : Moves s.engine.state.vars p.stage.engine.state.vars (· ∈ p.dirty)
  /-- Dirty is what was pending, what generators changed and the variables of
  formulas that reported a change. -/
  dirty : ∀ q, q ∈ p.dirty ↔ q ∈ s.engine.state.pending ∨ q ∈ p.generated ∨
    ∃ run ∈ p.formulas, run.changed = true ∧
      s.engine.state.computed? run.formula = some q
  /-- Due is what is new and what depends on a dirty variable. -/
  due : ∀ u, u ∈ p.due ↔ u ∈ s.engine.state.fresh ∨
    u.isFormula = false ∧ ∃ q ∈ p.dirty, (q, u) ∈ s.engine.state.triggers.edges
  /-- Due units ascend. -/
  order : p.due.Ascending
  /-- The widgets are as they were. -/
  panel : p.stage.panel = s.panel

/-- A tick begins well-formed, with the generators advanced. -/
theorem sameShape_beginTick {e : Engine C R} {a : Advance} (now : Time.Instant)
    (h : Advances e.state.generators { vars := e.state.vars } a) :
    State.SameShape e.state (e.beginTick a now).state :=
  ⟨h.length, h.moves.mono fun _ _ => trivial, rfl, h.generators, rfl, rfl, rfl, rfl⟩

/-- Generators do not drive formula variables. -/
theorem State.WellFormed.generator_kind {s : State C} (h : s.WellFormed) :
    ∀ slot ∈ s.generators, ∀ v : Variable, s.vars[slot.variableId]? = some v →
      v.kind ≠ .formula := by
  intro slot hslot v hv
  obtain ⟨w, hw, hk⟩ := (h.generators.mem_iff _).mp (List.mem_map_of_mem hslot)
  obtain rfl := Option.some.inj (hv.symm.trans hw)
  rw [hk]
  simp

/-- The registry is well-formed when the propagation of a tick begins. -/
theorem wellFormed_beginTick {e : Engine C R} {a : Advance} (now : Time.Instant)
    (hs : e.state.WellFormed) (h : Advances e.state.generators { vars := e.state.vars } a) :
    (e.beginTick a now).state.WellFormed :=
  hs.of_sameShape (sameShape_beginTick now h) (by simp [beginTick, withState]) .nil
    (List.Sublist.refl _)

/-- What a preparation leaves alone, and what it does to traces and flags. -/
theorem frame_of_prepare {s : Stage C R} {clock : Time.Clock} {wall : Time.Instant}
    {p : Prepared C R} (hs : s.engine.state.WellFormed) (h : s.prepare clock wall = .done p) :
    ∃ now generators, p.stage.engine =
      { s.engine with
        state :=
          { s.engine.state with
            now, generators
            vars := p.stage.engine.state.vars
            formulas := p.stage.engine.state.formulas
            traces := s.engine.state.traces.map fun t =>
              t.feed p.stage.engine.state.vars p.dirty now wall
            pending := []
            fresh := []
            changed := false }
        errors := p.stage.engine.errors } := by
  obtain ⟨now, -, h⟩ := Outcome.bind_eq_done_iff.mp h
  obtain ⟨a, hadvance, h⟩ := Outcome.bind_eq_done_iff.mp h
  obtain ⟨q, hpropagate, h⟩ := Outcome.bind_eq_done_iff.mp h
  obtain rfl := Outcome.done.inj h
  have hbegin := wellFormed_beginTick now hs (advance_spec hs.generator_kind hadvance)
  have hframe := (Propagation.propagate_spec hbegin hpropagate).1.frame
  refine ⟨now, a.generators, ?_⟩
  conv_lhs => rw [hframe]
  rfl

/-- Preparation, taken apart. -/
theorem prepares_of_prepare {s : Stage C R} {clock : Time.Clock} {wall : Time.Instant}
    {p : Prepared C R} (hs : s.engine.state.WellFormed) (h : s.prepare clock wall = .done p) :
    Prepares s p := by
  obtain ⟨now, -, h⟩ := Outcome.bind_eq_done_iff.mp h
  obtain ⟨a, hadvance, h⟩ := Outcome.bind_eq_done_iff.mp h
  obtain ⟨q, hpropagate, h⟩ := Outcome.bind_eq_done_iff.mp h
  obtain rfl := Outcome.done.inj h
  have hadvances := advance_spec hs.generator_kind hadvance
  have hbegin := sameShape_beginTick now hadvances
  have hsbegin := wellFormed_beginTick now hs hadvances
  obtain ⟨hleads, -⟩ := Propagation.propagate_spec hsbegin hpropagate
  have hsafter := hleads.wellFormed hsbegin
  have hpending : q.engine.state.pending = [] := by rw [hleads.frame]; rfl
  have hfresh : q.engine.state.fresh = s.engine.state.fresh := by rw [hleads.frame]; rfl
  have htriggers : q.engine.state.triggers = s.engine.state.triggers := by
    rw [hleads.frame]
    rfl
  obtain ⟨more, hruns, hdirty⟩ := hleads.dirty
  have hall : ∀ i, i ∈ q.dirty ↔ i ∈ s.engine.state.pending ∨ i ∈ a.changed ∨
      ∃ run ∈ q.runs, run.changed = true ∧
        s.engine.state.computed? run.formula = some i := by
    intro i
    rw [hdirty, hruns]
    simp only [Propagation.begin, VariableSet.mem_foldl_add, hbegin.computed?, List.nil_append,
      or_assoc]
  constructor
  case shape =>
    exact (hbegin.trans hleads.shape).trans ⟨rfl, .refl _ _, rfl, rfl, rfl, rfl, rfl, rfl⟩
  case wellFormed =>
    exact hsafter.of_sameShape ⟨rfl, .refl _ _, rfl, rfl, rfl, rfl, rfl, rfl⟩ hsafter.pending
      hsafter.ascending (List.nil_sublist _)
  case pending => exact hpending
  case fresh => rfl
  case moves =>
    have hfirst : Moves s.engine.state.vars (s.engine.beginTick a now).state.vars (· ∈ q.dirty) :=
      hadvances.moves.mono fun i hi => (hall i).mpr (Or.inr (Or.inl hi))
    exact hfirst.trans hleads.moves
  case dirty => exact hall
  case due =>
    intro u
    change u ∈ (q.engine.state.feed q.dirty wall).due q.dirty ↔ _
    rw [State.mem_due]
    change u ∈ q.engine.state.fresh ∨
      _ ∧ (∃ i ∈ q.dirty, (i, u) ∈ q.engine.state.triggers.edges) ↔ _
    rw [hfresh, htriggers]
  case order =>
    refine State.due_ascending ?_ _
    change q.engine.state.fresh.Ascending
    rw [hfresh]
    exact hs.order
  case panel => rfl

/-- A tick that returned, with what it had prepared. -/
structure Ticked (s s' : Stage C R) (clock : Time.Clock) (wall : Time.Instant)
    (report : TickReport) (p : Prepared C R) : Prop where
  /-- The first phase. -/
  prepared : s.prepare clock wall = .done p
  /-- The second phase. -/
  ran : p.stage.runUnits p.due = .done (s', report.units)
  /-- The report says which variables generators changed. -/
  generated : report.generated = p.generated
  /-- The report says which formulas were evaluated. -/
  formulas : report.formulas = p.formulas
  /-- The due units ran, each once. -/
  units : report.units.map UnitRun.unit = p.due
  /-- What the first phase did. -/
  prepares : Prepares s p
  /-- What the second phase did. -/
  runs : Runs p.stage.engine s'.engine
  /-- A unit receives snapshots of its inputs at its turn. -/
  snapshots : ∀ run ∈ report.units, ∃ e : Engine C R, Runs p.stage.engine e ∧
    Runs e s'.engine ∧ run.snapshots = e.state.snapshots (e.state.inputsOf run.unit)

/-- A tick of a well-formed registry, taken apart. -/
theorem ticked_of_tick {s s' : Stage C R} {clock : Time.Clock} {wall : Time.Instant}
    {report : TickReport} (hs : s.engine.state.WellFormed)
    (h : s.tick clock wall = .done (s', report)) : ∃ p, Ticked s s' clock wall report p := by
  obtain ⟨p, runs, hprepare, hruns, rfl⟩ := tick_eq_done_iff.mp h
  obtain ⟨hrun, hunits, hsnapshots⟩ := runUnits_spec hruns
  exact ⟨p, hprepare, hruns, rfl, rfl, hunits, prepares_of_prepare hs hprepare, hrun, hsnapshots⟩

namespace Ticked

variable {s s' : Stage C R} {clock : Time.Clock} {wall : Time.Instant} {report : TickReport}
  {p : Prepared C R}

/-- The rules stay. -/
theorem rules (h : Ticked s s' clock wall report p) :
    s'.engine.state.rules = s.engine.state.rules := by
  rw [h.runs.untouched]
  exact h.prepares.shape.rules

/-- The scripts stay. -/
theorem scripts (h : Ticked s s' clock wall report p) :
    s'.engine.state.scripts = s.engine.state.scripts := by
  rw [h.runs.untouched]
  exact h.prepares.shape.scripts

/-- The edges stay. -/
theorem triggers (h : Ticked s s' clock wall report p) :
    s'.engine.state.triggers = s.engine.state.triggers := by
  rw [h.runs.untouched]
  exact h.prepares.shape.triggers

/-- No unit is new after a tick. -/
theorem fresh (h : Ticked s s' clock wall report p) : s'.engine.state.fresh = [] := by
  rw [h.runs.untouched]
  exact h.prepares.fresh

/-- Variables that a tick moved are dirty or pending after it. -/
theorem moves (h : Ticked s s' clock wall report p) :
    Moves s.engine.state.vars s'.engine.state.vars fun q =>
      q ∈ p.dirty ∨ q ∈ s'.engine.state.pending := by
  have hfirst : Moves s.engine.state.vars p.stage.engine.state.vars fun q =>
      q ∈ p.dirty ∨ q ∈ s'.engine.state.pending := h.prepares.moves.mono fun q hq => Or.inl hq
  exact hfirst.trans (h.runs.evolution.quiet.records.moves.mono fun q hq => Or.inr hq)

/-- What runs is due. -/
theorem mem_units_iff (h : Ticked s s' clock wall report p) (u : UnitRef) :
    (∃ run ∈ report.units, run.unit = u) ↔ u ∈ p.due := by
  rw [← h.units, List.mem_map]

/-- Due units are registered rules and scripts. -/
theorem registered (h : Ticked s s' clock wall report p) (hs : s.engine.state.WellFormed)
    {run : UnitRun} (hrun : run ∈ report.units) :
    run.unit.isFormula = false ∧ s.engine.state.Has run.unit := by
  have hdue := (h.mem_units_iff run.unit).mp ⟨run, hrun, rfl⟩
  rcases (h.prepares.due run.unit).mp hdue with hnew | ⟨hkind, q, -, hedge⟩
  · exact hs.fresh _ hnew
  · exact ⟨hkind, (hs.ends _ hedge).2⟩

end Ticked

end ProcessDisplay.Engine
