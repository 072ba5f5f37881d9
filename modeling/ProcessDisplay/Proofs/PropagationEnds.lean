import Mathlib.Tactic.Common
import ProcessDisplay.Proofs.PropagationRounds
import ProcessDisplay.Proofs.TickReturns

/-!
# Propagations end

The loop that propagates changes is never cut short: it stops because nothing
waits any more, unless an execution of a formula ends the program, and then
only finitely many evaluations came before. Whatever the evaluations report,
the variables that become dirty are those of formulas and are reached from
the variables that were dirty at the start.
-/

namespace ProcessDisplay.Engine

variable {C : FormulaCompiler} {R : ScriptInterpreter}

/-- An evaluation that ends the program is an execution that does. -/
theorem evaluateFormula_crash {e : Engine C R} {id : Nat} (h : evaluateFormula id e = .crash) :
    ∃ unit, e.state.formulas[id]? = some unit ∧ C.isReady (e.state.supplied unit) = true ∧
      C.execute (e.state.supplied unit) = .crash := by
  cases hunit : e.state.formulas[id]? with
  | none =>
    rw [evaluateFormula_of_none hunit] at h
    cases h
  | some unit =>
    simp only [evaluateFormula, hunit] at h
    split at h
    · next hready =>
      cases hrun : C.execute (e.state.supplied unit) with
      | done ran =>
        rw [hrun] at h
        cases h
      | crash => exact ⟨unit, rfl, hready, hrun⟩
    · cases h

namespace Propagation

/-- What is known of a propagation that returned. -/
structure Settled (e : Engine C R) (dirty : VariableSet) (p : Propagation C R) : Prop where
  /-- Nothing waits. -/
  queue : p.queue = []
  /-- Rounds led there. -/
  rounds : e.state.Rounds dirty p.runs []
  /-- The evaluations led to the engine. -/
  passes : Passes e p.runs p.engine
  /-- There were not more evaluations than the variables at the start count for. -/
  count : p.runs.length ≤ bound e.state dirty
  /-- What was dirty is dirty. -/
  kept : ∀ q ∈ dirty, q ∈ p.dirty
  /-- What became dirty is the variable of a formula, reported by an evaluation
  and reached from a variable that was dirty at the start. -/
  added : ∀ q ∈ p.dirty, q ∈ dirty ∨ q ∈ e.state.outputs p.runs ∧
    (∃ v, p.engine.state.vars[q]? = some v ∧ v.kind = .formula) ∧
    ∃ start ∈ dirty, Relation.TransGen e.state.Feeds start q

/-- A propagation that did not return: after some evaluations an execution of
a formula ended the program. -/
def Interrupted (e : Engine C R) (dirty : VariableSet) : Prop :=
  ∃ (runs : List FormulaRun) (e' : Engine C R) (id : Nat) (unit : FormulaUnit C),
    Passes e runs e' ∧ runs.length < bound e.state dirty ∧
      e'.state.formulas[id]? = some unit ∧ C.isReady (e'.state.supplied unit) = true ∧
      C.execute (e'.state.supplied unit) = .crash

/-- A propagation that returned is settled. -/
theorem propagate_settled {e : Engine C R} {dirty : VariableSet} {p : Propagation C R}
    (hs : e.state.WellFormed) (h : propagate e dirty = .done p) : Settled e dirty p := by
  obtain ⟨hleads, hqueue⟩ := propagate_spec hs h
  have hrounds := propagate_rounds hs h
  have hcount := hrounds.bound_le hs
  have hdirty : ∀ q, q ∈ p.dirty ↔ q ∈ dirty ∨ q ∈ e.state.outputs p.runs := by
    obtain ⟨more, hruns, hdirty⟩ := hleads.dirty
    have hmore : p.runs = more := hruns
    subst hmore
    intro q
    rw [hdirty, State.mem_outputs]
    rfl
  refine ⟨hqueue, hrounds, propagate_passes h, by omega, fun q hq => (hdirty q).mpr (Or.inl hq),
    fun q hq => ?_⟩
  rcases (hdirty q).mp hq with hold | hnew
  · exact Or.inl hold
  · have hformula : ∃ v, p.engine.state.vars[q]? = some v ∧ v.kind = .formula := by
      obtain ⟨run, -, -, hcomputed⟩ := State.mem_outputs.mp hnew
      have hshape : State.SameShape e.state p.engine.state := hleads.shape
      rw [← hshape.computed?] at hcomputed
      obtain ⟨unit, hunit, rfl⟩ := Option.map_eq_some_iff.mp hcomputed
      exact (hleads.wellFormed hs).of_formula hunit
    exact Or.inr ⟨hnew, hformula, hrounds.reaches hs hnew⟩

/-- A visit that ends the program is an evaluation that does. -/
theorem visit_crash {p : Propagation C R} {id : Nat} (h : p.visit id = .crash) :
    evaluateFormula id p.engine = .crash := by
  cases heval : evaluateFormula id p.engine with
  | crash => rfl
  | done ran =>
    obtain ⟨changed, engine⟩ := ran
    unfold visit at h
    rw [heval] at h
    dsimp only [Outcome.done_bind] at h
    split at h
    · split at h <;> cases h
    · cases h

/-- Visits that end the program come to an evaluation that does. -/
theorem visitAll_crash {ids : List Nat} {p : Propagation C R} (h : p.visitAll ids = .crash) :
    ∃ runs e' id, runs.length < ids.length ∧ Passes p.engine runs e' ∧
      evaluateFormula id e' = .crash := by
  induction ids generalizing p with
  | nil => cases h
  | cons id rest ih =>
    cases hvisit : p.visit id with
    | crash => exact ⟨[], p.engine, id, Nat.succ_pos _, .refl _, visit_crash hvisit⟩
    | done p₁ =>
      rw [visitAll, hvisit] at h
      obtain ⟨run, -, -, hpass⟩ := visit_passes hvisit
      obtain ⟨runs, e', id', hlength, hpasses, hcrash⟩ := ih h
      exact ⟨run :: runs, e', id', Nat.succ_lt_succ hlength, hpass.trans hpasses, hcrash⟩

/-- A loop that ends the program comes, within its bound, to an evaluation
that does. -/
theorem settle_crash {n : Nat} {p : Propagation C R} (hs : p.engine.state.WellFormed)
    (h : p.settle n = .crash) : ∃ runs e' id, runs.length < bound p.engine.state p.queue ∧
      Passes p.engine runs e' ∧ evaluateFormula id e' = .crash := by
  induction n generalizing p with
  | zero => cases h
  | succ n ih =>
    rw [settle] at h
    split at h
    · cases h
    · next first rest hqueue =>
      rw [hqueue]
      cases hadvance : p.advance first rest with
      | crash =>
        obtain ⟨runs, e', id, hlength, hpasses, hcrash⟩ := visitAll_crash hadvance
        -- the round would have fitted into the bound even without a report
        let unreported : List FormulaRun :=
          (p.engine.state.formulasOn first).map fun id => ⟨id, false⟩
        have hround : p.engine.state.Round (first :: rest) unreported
            (rest ++ p.engine.state.outputs unreported) :=
          .mk first rest (by simp [unreported, Function.comp_def])
        have hfits := hround.bound_lt hs
        rw [List.length_map] at hfits
        have hids : runs.length < (p.engine.state.formulasOn first).length := hlength
        exact ⟨runs, e', id, by omega, hpasses, hcrash⟩
      | done p₁ =>
        rw [hadvance] at h
        have hleads := advance_leads hs hadvance
        obtain ⟨round, hids, -, hwaiting⟩ :=
          visitAll_outputs (p := { p with queue := rest }) hs hadvance
        obtain ⟨round', hids', -, hpass⟩ := visitAll_passes hadvance
        have hsame : round'.length = round.length := by
          rw [← List.length_map (f := FormulaRun.formula), hids', ← hids, List.length_map]
        obtain ⟨runs, e', id, hlength, hpasses, hcrash⟩ := ih (hleads.wellFormed hs) h
        have hround : p.engine.state.Round (first :: rest) round p₁.queue := by
          rw [hwaiting]
          exact .mk first rest hids
        have hless := hround.bound_lt hs
        rw [bound_of_sameShape hleads.shape] at hlength
        refine ⟨round' ++ runs, e', id, ?_, hpass.trans hpasses, hcrash⟩
        rw [List.length_append]
        omega

/-- Loops whose bounds cover the queue do the same. -/
theorem settle_of_le {n m : Nat} {p : Propagation C R} (hs : p.engine.state.WellFormed)
    (hn : bound p.engine.state p.queue ≤ n) (hm : bound p.engine.state p.queue ≤ m) :
    p.settle n = p.settle m := by
  have hempty : bound p.engine.state p.queue = 0 → ∀ k, p.settle k = .done p := by
    intro hzero k
    have hqueue := eq_nil_of_bound hzero
    cases k with
    | zero => rfl
    | succ k => simp only [settle, hqueue]
  induction n generalizing p m with
  | zero =>
    have hzero := Nat.le_zero.mp hn
    rw [hempty hzero 0, hempty hzero m]
  | succ n ih =>
    cases m with
    | zero =>
      have hzero := Nat.le_zero.mp hm
      rw [hempty hzero (n + 1), hempty hzero 0]
    | succ m =>
      rw [settle, settle]
      split
      · rfl
      · next first rest hqueue =>
        cases hadvance : p.advance first rest with
        | crash => rfl
        | done p₁ =>
          have hless := advance_bound hs hqueue hadvance
          have hs₁ := (advance_leads hs hadvance).wellFormed hs
          refine ih hs₁ (by omega) (by omega) fun hzero k => ?_
          have hqueue₁ := eq_nil_of_bound hzero
          cases k with
          | zero => rfl
          | succ k => simp only [settle, hqueue₁]

end Propagation

/-- An engine from which changes may be propagated: that of a stage between
two operations, or within a tick once the generators have advanced. -/
inductive Stage.Launches (s : Stage C R) : Engine C R → Prop where
  /-- Between two operations. -/
  | between : s.Launches s.engine
  /-- Within a tick. -/
  | within {clock : Time.Clock} {now : Time.Instant} {a : Advance}
    (h : advance clock now s.engine.state.generators { vars := s.engine.state.vars } = .done a) :
    s.Launches (s.engine.beginTick a now)

/-- Changes are propagated in well-formed registries. -/
theorem Stage.Launches.wellFormed {s : Stage C R} {e : Engine C R} (h : s.Launches e)
    (hs : s.engine.state.WellFormed) : e.state.WellFormed := by
  cases h with
  | between => exact hs
  | within hadvance =>
    exact wellFormed_beginTick _ hs (advance_spec hs.generator_kind hadvance)

open Propagation in
/-- In every state that a display reaches, between two operations and within
its ticks, every propagation ends. There is no endless sequence of rounds and
none with more evaluations than a bound, whatever the evaluations report. The
loop itself is not cut by its bound: it returns with nothing waiting and with
only reached variables of formulas as new dirty ones, or an execution of a
formula ends the program after finitely many evaluations. -/
theorem propagation_ends {settings : Settings} {epoch : Time.Instant} {panel : Panel}
    {operations : List Operation} {answers : List Answer} {s : Stage C R}
    (hrun : (Stage.mk (Engine.start C R settings epoch) panel).run operations =
      .done (answers, s))
    {e : Engine C R} (hlaunches : s.Launches e) (dirty : VariableSet) :
    (WellFounded fun last queue => ∃ runs, e.state.Round queue runs last) ∧
      (∀ runs last, e.state.Rounds dirty runs last → runs.length ≤ bound e.state dirty) ∧
      (∀ n, bound e.state dirty ≤ n → (begin e dirty).settle n = propagate e dirty) ∧
      ((∃ p, propagate e dirty = .done p ∧ Settled e dirty p) ∨
        propagate e dirty = .crash ∧ Interrupted e dirty) := by
  have hs := hlaunches.wellFormed (session_of_run hrun).wellFormed
  refine ⟨hs.wellFounded_round, ?_, ?_, ?_⟩
  · intro runs last hrounds
    have hcount := hrounds.bound_le hs
    omega
  · intro n hn
    exact settle_of_le (p := begin e dirty) hs hn (Nat.le_refl _)
  · cases hpropagate : propagate e dirty with
    | done p => exact Or.inl ⟨p, rfl, propagate_settled hs hpropagate⟩
    | crash =>
      obtain ⟨runs, e', id, hlength, hpasses, hcrash⟩ :=
        settle_crash (p := begin e dirty) hs hpropagate
      obtain ⟨unit, hunit, hready, hexecute⟩ := evaluateFormula_crash hcrash
      exact Or.inr ⟨rfl, runs, e', id, unit, hpasses, hlength, hunit, hready, hexecute⟩

/-- A language whose formulas are lists of names. They are always ready and
no number comes of them, which differs from itself. -/
def FormulaCompiler.restless : FormulaCompiler where
  Formula := List String
  compile source := .ok ((Text.pieces ';' source.toList).map String.ofList)
  parameters names := names
  supply names _ _ := names
  isReady _ := true
  severity _ := .undefined
  execute names := .done (.ok (.number (0.0 / 0.0)), names)
  nesting := 1000

/-- A variable, two formulas in a chain behind it, and one that depends on all of them. -/
def fanRun : List Operation := [.create "=loc://x;=loc://x;==loc://x"]

/-- A formula that depends on a variable along three paths is evaluated three
times, since what it computes never equals what it computed before. -/
theorem propagation_ends_fan : ∃ answers s p,
    (Stage.mk (Engine.start FormulaCompiler.restless (.bundled .standard {}) {} 0) []).run fanRun =
      .done (answers, s) ∧
    propagate s.engine [0] = .done p ∧ p.runs.map FormulaRun.formula = [0, 2, 1, 2, 2] ∧
    Propagation.Settled s.engine [0] p := by
  obtain ⟨⟨answers, s⟩, hrun, hcheck⟩ := done_of_any
    (fun reached : List Answer × Stage FormulaCompiler.restless (.bundled .standard {}) =>
      (propagate reached.2.engine [0]).value?.any
        fun p : Propagation FormulaCompiler.restless (.bundled .standard {}) =>
          decide (p.runs.map FormulaRun.formula = [0, 2, 1, 2, 2]))
    (show ((Stage.mk (Engine.start FormulaCompiler.restless (.bundled .standard {}) {} 0) []).run
      fanRun).value?.any _ = true by decide +kernel)
  obtain ⟨p, hpropagate, hruns⟩ := done_of_any _ hcheck
  obtain ⟨-, -, -, hends⟩ := propagation_ends hrun .between [0]
  rw [hpropagate] at hends
  rcases hends with ⟨p', hp', hsettled⟩ | ⟨hcrash, -⟩
  · obtain rfl := Outcome.done.inj hp'
    exact ⟨answers, s, p, hrun, hpropagate, of_decide_eq_true hruns, hsettled⟩
  · cases hcrash

end ProcessDisplay.Engine
