import Mathlib.Tactic.Common
import ProcessDisplay.Proofs.InterpreterMemory

/-!
# Ticks return

A tick returns if its clock is within the calendar, its generators return and
its formulas, rules and scripts do, whatever their results are. Formulas are
supplied and executed again and again and scripts leave something to the
interpreter, so what is asked of them is asked of all that they may become.
-/

namespace ProcessDisplay.Engine

variable {C : FormulaCompiler} {R : ScriptInterpreter}

/-- The executions of all formulas return, whatever supplies and executions
come before. -/
def State.Executes (s : State C) : Prop :=
  ∀ unit ∈ s.formulas, ∀ f, C.Derives unit.formula f → ∃ executed, C.execute f = .done executed

/-- The executions of a rule return. -/
def RuleUnit.Returns (unit : RuleUnit) : Prop :=
  ∀ snapshots w, ∃ result, unit.rule.execute Rule.expressionEvaluation snapshots w = .done result

/-- The runs of a script on good memories return. -/
def ScriptUnit.Returns (R : ScriptInterpreter) (good : R.Memory → Prop) (unit : ScriptUnit) :
    Prop :=
  ∀ memory context, good memory → ∃ ran, R.run memory unit.body context = .done ran

/-- The units of a display return in their turns. -/
structure Stage.Returns (s : Stage C R) (good : R.Memory → Prop) : Prop where
  /-- The formulas do. -/
  formulas : s.engine.state.Executes
  /-- The rules do. -/
  rules : ∀ unit ∈ s.engine.state.rules, unit.Returns
  /-- The scripts do. -/
  scripts : ∀ unit ∈ s.engine.state.scripts, unit.Returns R good
  /-- The memory is good. -/
  memory : good s.engine.memory

/-- The result of an execution changes no formula. -/
theorem accept_formulas (e : Engine C R) (id : VariableId) (severity : Severity)
    (result : Except Failure Value) :
    (e.accept id severity result).2.state.formulas = e.state.formulas := by
  unfold accept
  cases result with
  | ok value =>
    dsimp only [withState]
    unfold State.apply
    split <;> rfl
  | error failure =>
    dsimp only
    split <;> rfl

/-- A formula that derives from one whose executions return is like it. -/
theorem State.Executes.set {s s' : State C} (h : s.Executes) {id : Nat} {unit : FormulaUnit C}
    (hunit : s.formulas[id]? = some unit) {f : C.Formula} (hf : C.Derives unit.formula f)
    (hformulas : s'.formulas = s.formulas.set id { unit with formula := f }) : s'.Executes := by
  intro other hother g hg
  rw [hformulas] at hother
  rcases List.mem_or_eq_of_mem_set hother with hold | rfl
  · exact h other hold g hg
  · exact h unit (List.mem_of_getElem? hunit) g (hf.trans hg)

/-- An evaluation returns, and further ones will. -/
theorem evaluateFormula_returns {e : Engine C R} (h : e.state.Executes) (id : Nat) :
    ∃ changed e', evaluateFormula id e = .done (changed, e') ∧ e'.state.Executes := by
  unfold evaluateFormula
  cases hunit : e.state.formulas[id]? with
  | none => exact ⟨false, e, rfl, h⟩
  | some unit =>
    have hsupplied := e.state.derives_supplied unit
    dsimp only
    split
    · obtain ⟨⟨result, f⟩, hrun⟩ := h unit (List.mem_of_getElem? hunit) _ hsupplied
      rw [hrun]
      refine ⟨_, _, rfl, h.set hunit (hsupplied.execute hrun) ?_⟩
      exact accept_formulas _ _ _ _
    · exact ⟨false, _, rfl, h.set hunit hsupplied rfl⟩

namespace Propagation

/-- A visit returns. -/
theorem visit_returns {p : Propagation C R} (h : p.engine.state.Executes) (id : Nat) :
    ∃ p', p.visit id = .done p' ∧ p'.engine.state.Executes := by
  obtain ⟨changed, engine, heval, hexecutes⟩ := evaluateFormula_returns h id
  unfold visit
  rw [heval]
  dsimp only [Outcome.done_bind]
  split
  · split
    · exact ⟨_, rfl, hexecutes⟩
    · exact ⟨_, rfl, hexecutes⟩
  · exact ⟨_, rfl, hexecutes⟩

/-- Visits in order return. -/
theorem visitAll_returns {p : Propagation C R} (h : p.engine.state.Executes) (ids : List Nat) :
    ∃ p', p.visitAll ids = .done p' ∧ p'.engine.state.Executes := by
  induction ids generalizing p with
  | nil => exact ⟨p, rfl, h⟩
  | cons id rest ih =>
    obtain ⟨p₁, hvisit, h₁⟩ := visit_returns h id
    obtain ⟨p₂, hrest, h₂⟩ := ih h₁
    exact ⟨p₂, Outcome.bind_eq_done_iff.mpr ⟨p₁, hvisit, hrest⟩, h₂⟩

/-- The rounds of the loop return. -/
theorem settle_returns (n : Nat) {p : Propagation C R} (h : p.engine.state.Executes) :
    ∃ p', p.settle n = .done p' := by
  induction n generalizing p with
  | zero => exact ⟨p, rfl⟩
  | succ n ih =>
    rw [settle]
    split
    · exact ⟨p, rfl⟩
    · next first rest hqueue =>
      obtain ⟨p₁, hadvance, h₁⟩ := visitAll_returns (p := { p with queue := rest }) h
        (formulasOf (p.engine.state.triggers.dependents first))
      obtain ⟨p₂, hrest⟩ := ih h₁
      exact ⟨p₂, Outcome.bind_eq_done_iff.mpr ⟨p₁, hadvance, hrest⟩⟩

end Propagation

/-- Generators that return advance. -/
theorem advance_returns {clock : Time.Clock} {now : Time.Instant} {slots : List GeneratorSlot}
    (h : ∀ slot ∈ slots, ∃ stepped, slot.generator.step clock now = .done stepped) (a : Advance) :
    ∃ a', advance clock now slots a = .done a' := by
  induction slots generalizing a with
  | nil => exact ⟨a, rfl⟩
  | cons slot rest ih =>
    obtain ⟨⟨sample, generator⟩, hstep⟩ := h slot List.mem_cons_self
    have hrest := fun a => ih (fun other hother => h other (List.mem_cons_of_mem _ hother)) a
    rw [advance, hstep]
    cases sample with
    | none => exact hrest _
    | some sample => exact hrest _

/-- The preparation of a tick returns. -/
theorem prepare_returns {s : Stage C R} {clock : Time.Clock} {now : Time.Instant}
    (wall : Time.Instant) (hclock : Time.instantAt s.engine.state.epoch clock = .done now)
    (hgenerators : ∀ slot ∈ s.engine.state.generators,
      ∃ stepped, slot.generator.step clock now = .done stepped)
    (hformulas : s.engine.state.Executes) : ∃ p, s.prepare clock wall = .done p := by
  obtain ⟨a, hadvance⟩ := advance_returns hgenerators { vars := s.engine.state.vars }
  have hbegin : (s.engine.beginTick a now).state.Executes := hformulas
  obtain ⟨p, hpropagate⟩ := Propagation.settle_returns (p := Propagation.begin
    (s.engine.beginTick a now) (a.changed.foldl VariableSet.add s.engine.state.pending))
    (Propagation.bound (s.engine.beginTick a now).state
      (a.changed.foldl VariableSet.add s.engine.state.pending)) hbegin
  have hpropagated : propagate (s.engine.beginTick a now)
      (a.changed.foldl VariableSet.add s.engine.state.pending) = .done p := hpropagate
  unfold Stage.prepare
  dsimp only
  rw [hclock, Outcome.done_bind, hadvance, Outcome.done_bind, hpropagated, Outcome.done_bind]
  exact ⟨_, rfl⟩

/-- The turn of a unit returns. -/
theorem runUnit_returns {s : Stage C R} {good : R.Memory → Prop}
    (hrules : ∀ unit ∈ s.engine.state.rules, unit.Returns)
    (hscripts : ∀ unit ∈ s.engine.state.scripts, unit.Returns R good)
    (hgood : good s.engine.memory) (u : UnitRef) : ∃ s' run, s.runUnit u = .done (s', run) := by
  cases u with
  | formula id => exact ⟨s, _, rfl⟩
  | rule id =>
    unfold Stage.runUnit
    dsimp only
    split
    · next unit hunit =>
      obtain ⟨result, hrun⟩ := hrules unit (List.mem_of_getElem? hunit)
        (s.engine.state.snapshots (s.engine.state.inputsOf (.rule id)))
        (s.panel.widget unit.widget)
      unfold Stage.runRule
      rw [hrun]
      cases result with
      | ok widget => exact ⟨_, _, rfl⟩
      | error failure => exact ⟨_, _, rfl⟩
    · exact ⟨s, _, rfl⟩
  | script id =>
    unfold Stage.runUnit
    dsimp only
    split
    · next unit hunit =>
      obtain ⟨ran, hrun⟩ := hscripts unit (List.mem_of_getElem? hunit) s.engine.memory
        { script := unit.name, widget := s.panel.widget unit.widget
          snapshots := s.engine.state.snapshots (s.engine.state.inputsOf (.script id)) } hgood
      unfold Stage.runScript
      rw [hrun]
      exact ⟨_, _, rfl⟩
    · exact ⟨s, _, rfl⟩

/-- Units that return run one after another. -/
theorem runUnits_returns {s : Stage C R} {good : R.Memory → Prop} (hkeeps : R.Keeps good)
    (hrules : ∀ unit ∈ s.engine.state.rules, unit.Returns)
    (hscripts : ∀ unit ∈ s.engine.state.scripts, unit.Returns R good)
    (hgood : good s.engine.memory) (units : List UnitRef) :
    ∃ s' runs, s.runUnits units = .done (s', runs) := by
  induction units generalizing s with
  | nil => exact ⟨s, [], rfl⟩
  | cons u rest ih =>
    obtain ⟨s₁, run, hfirst⟩ := runUnit_returns hrules hscripts hgood u
    have huntouched := (runUnit_spec hfirst).1.untouched
    have hrules₁ : s₁.engine.state.rules = s.engine.state.rules := by rw [huntouched]
    have hscripts₁ : s₁.engine.state.scripts = s.engine.state.scripts := by rw [huntouched]
    rw [← hrules₁] at hrules
    rw [← hscripts₁] at hscripts
    obtain ⟨s₂, runs, hrest⟩ := ih hrules hscripts (outside_runUnit hkeeps hgood hfirst).1
    exact ⟨s₂, run :: runs, runUnits_cons_eq_done_iff.mpr ⟨s₁, run, runs, hfirst, hrest, rfl⟩⟩

/-- A tick returns if its parts do. -/
theorem tick_returns {s : Stage C R} {good : R.Memory → Prop} {clock : Time.Clock}
    {now : Time.Instant} (wall : Time.Instant) (hs : s.engine.state.WellFormed)
    (hkeeps : R.Keeps good) (hreturns : s.Returns good)
    (hclock : Time.instantAt s.engine.state.epoch clock = .done now)
    (hgenerators : ∀ slot ∈ s.engine.state.generators,
      ∃ stepped, slot.generator.step clock now = .done stepped) :
    ∃ s' report, s.tick clock wall = .done (s', report) := by
  obtain ⟨p, hprepare⟩ := prepare_returns wall hclock hgenerators hreturns.formulas
  have hshape := (prepares_of_prepare hs hprepare).shape
  have hrules := hreturns.rules
  have hscripts := hreturns.scripts
  have hgood := hreturns.memory
  rw [← hshape.rules] at hrules
  rw [← hshape.scripts] at hscripts
  rw [← (outside_of_prepare hs hprepare).1] at hgood
  obtain ⟨s', runs, hruns⟩ := runUnits_returns hkeeps hrules hscripts hgood p.due
  exact ⟨s', _, tick_eq_done_iff.mpr ⟨p, runs, hprepare, hruns, rfl⟩⟩

end ProcessDisplay.Engine
