import Mathlib.Tactic.Common
import ProcessDisplay.Proofs.FormulaCurrency
import ProcessDisplay.Proofs.PropagationEnds
import ProcessDisplay.Proofs.TickSurvival

/-!
# How often a tick evaluates a formula

A tick evaluates a formula once for every change of one of its parameters: a
parameter that was pending or that a generator changed counts once, and the
variable of another formula once for every evaluation that reported a change.
So a formula with several changed parameters is evaluated several times, and
records a failure each time. An evaluation may see a parameter whose own
formula has yet to be evaluated; another evaluation then follows.
-/

namespace ProcessDisplay.Engine

variable {C : FormulaCompiler} {R : ScriptInterpreter}

/-- An item occurs in lists that repeat nothing as often as there are lists with it. -/
theorem count_flatMap_of_nodup {α : Type} {l : List α} {f : α → List Nat}
    (h : ∀ x ∈ l, (f x).Nodup) (item : Nat) :
    (l.flatMap f).count item = l.countP fun x => decide (item ∈ f x) := by
  induction l with
  | nil => rfl
  | cons x rest ih =>
    have hrest := ih fun y hy => h y (List.mem_cons_of_mem x hy)
    have hfirst := h x List.mem_cons_self
    rw [List.flatMap_cons, List.count_append, hrest, List.countP_cons]
    by_cases hmem : item ∈ f x
    · rw [List.count_eq_one_of_mem hfirst hmem, if_pos (decide_eq_true hmem), Nat.add_comm]
    · rw [List.count_eq_zero_of_not_mem hmem, if_neg (by simpa using hmem), Nat.zero_add,
        Nat.add_zero]

namespace State

variable {s : State C}

/-- Some evaluations contain one that reports a change of a variable, and
behind it one of a formula. -/
def Redone (s : State C) (q : VariableId) (id : Nat) (runs : List FormulaRun) : Prop :=
  ∃ before run after, runs = before ++ run :: after ∧ run.changed = true ∧
    s.computed? run.formula = some q ∧ ∃ later ∈ after, later.formula = id

/-- Rounds that leave nothing waiting evaluate a formula once for every
parameter among the variables that waited or joined. -/
theorem Rounds.count_eq (hs : s.WellFormed) {queue : List VariableId} {runs : List FormulaRun}
    (h : s.Rounds queue runs []) {id : Nat} {unit : FormulaUnit C}
    (hunit : s.formulas[id]? = some unit) : (runs.map FormulaRun.formula).count id =
      (queue ++ s.outputs runs).countP fun q => decide (q ∈ unit.parameters) := by
  obtain ⟨served, hserved, hmap⟩ := h.served
  rw [List.append_nil] at hserved
  have hnodup : ∀ q ∈ served, (s.formulasOn q).Nodup :=
    fun q _ => nodup_formulasOf (TriggerGraph.nodup_dependents hs.edges q)
  rw [hmap, count_flatMap_of_nodup hnodup, hserved]
  refine List.countP_congr fun q _ => ?_
  simp only [decide_eq_true_eq]
  exact hs.mem_formulasOn hunit

/-- Evaluations behind others are followed up if all of them are. -/
theorem FollowedUp.of_append {before after : List FormulaRun}
    (h : s.FollowedUp (before ++ after)) : s.FollowedUp after := by
  induction before with
  | nil => exact h
  | cons run rest ih => exact ih h.2

/-- A formula is evaluated again behind a report on a variable that it depends on. -/
theorem FollowedUp.redone {runs : List FormulaRun} (h : s.FollowedUp runs) {q : VariableId}
    (hq : q ∈ s.outputs runs) {id : Nat} (hid : id ∈ s.formulasOn q) : s.Redone q id runs := by
  obtain ⟨run, hrun, hchanged, hcomputed⟩ := mem_outputs.mp hq
  obtain ⟨before, after, rfl⟩ := List.append_of_mem hrun
  have hlater := h.of_append.1 q hchanged hcomputed id hid
  exact ⟨before, run, after, rfl, hchanged, hcomputed, hlater⟩

end State

/-- An evaluation touches at most the variable that it reports. -/
theorem evaluateFormula_moves {e e' : Engine C R} {run : FormulaRun} (hs : e.state.WellFormed)
    (h : evaluateFormula run.formula e = .done (run.changed, e')) :
    Moves e.state.vars e'.state.vars (· ∈ e.state.outputs [run]) := by
  cases hunit : e.state.formulas[run.formula]? with
  | none =>
    rw [evaluateFormula_of_none hunit] at h
    obtain ⟨-, rfl⟩ := Prod.mk.inj (Outcome.done.inj h)
    exact .refl _ _
  | some unit =>
    obtain ⟨v, hv, -⟩ := hs.of_formula hunit
    obtain ⟨f, w, errors, heval, rfl⟩ := evaluateFormula_spec hunit hv h
    refine .set hv heval.becomes ?_
    rcases heval.reported with hchanged | hagrees
    · have hcomputed : e.state.computed? run.formula = some unit.variableId := by
        rw [State.computed?, hunit]
        rfl
      exact Or.inl (State.mem_outputs.mpr ⟨run, List.mem_cons_self, hchanged, hcomputed⟩)
    · exact Or.inr hagrees

/-- An evaluation records at most one failure. -/
theorem evaluateFormula_errors {e e' : Engine C R} {id : Nat} {changed : Bool}
    (hs : e.state.WellFormed) (h : evaluateFormula id e = .done (changed, e')) :
    ∃ recorded, e'.errors = e.errors ++ recorded ∧ recorded.length ≤ 1 := by
  cases hunit : e.state.formulas[id]? with
  | none =>
    rw [evaluateFormula_of_none hunit] at h
    obtain ⟨-, rfl⟩ := Prod.mk.inj (Outcome.done.inj h)
    exact ⟨[], by simp, by simp⟩
  | some unit =>
    obtain ⟨v, hv, -⟩ := hs.of_formula hunit
    simp only [evaluateFormula, hunit] at h
    split at h
    · obtain ⟨⟨result, f⟩, -, h⟩ := Outcome.bind_eq_done_iff.mp h
      have hkept : (e.withState (e.state.setFormula id unit f)).state.vars[unit.variableId]? =
        some v := hv
      cases result with
      | ok value =>
        obtain ⟨-, rfl⟩ := Prod.mk.inj (Outcome.done.inj h)
        exact ⟨[], by simp [withState], by simp⟩
      | error failure =>
        simp only [accept, hkept] at h
        obtain ⟨-, rfl⟩ := Prod.mk.inj (Outcome.done.inj h)
        exact ⟨[⟨v.name, failure⟩], rfl, by simp⟩
    · obtain ⟨-, rfl⟩ := Prod.mk.inj (Outcome.done.inj h)
      exact ⟨[], by simp [withState], by simp⟩

namespace Passes

/-- Evaluations touch at most the variables that they report. -/
theorem moves {e e' : Engine C R} {runs : List FormulaRun} (hs : e.state.WellFormed)
    (h : Passes e runs e') : Moves e.state.vars e'.state.vars (· ∈ e.state.outputs runs) := by
  induction h with
  | refl => exact .refl _ _
  | @head e e₁ e' run rest hfirst _ ih =>
    obtain ⟨hshape, hs₁⟩ := sameShape_evaluateFormula hs hfirst
    have hsplit : e.state.outputs (run :: rest) =
        e.state.outputs [run] ++ e.state.outputs rest := State.outputs_append _ [run] rest
    have hmoves := evaluateFormula_moves hs hfirst
    have hlater := ih hs₁
    rw [hshape.outputs] at hlater
    rw [hsplit]
    exact (hmoves.mono fun q hq => List.mem_append_left _ hq).trans
      (hlater.mono fun q hq => List.mem_append_right _ hq)

/-- Only contents change. -/
theorem sameShape {e e' : Engine C R} {runs : List FormulaRun} (hs : e.state.WellFormed)
    (h : Passes e runs e') : State.SameShape e.state e'.state ∧ e'.state.WellFormed := by
  induction h with
  | refl e => exact ⟨.refl _, hs⟩
  | head hfirst _ ih =>
    obtain ⟨hshape, hs₁⟩ := sameShape_evaluateFormula hs hfirst
    obtain ⟨hlater, hs'⟩ := ih hs₁
    exact ⟨hshape.trans hlater, hs'⟩

/-- Evaluations, divided at any place. -/
theorem split {e e' : Engine C R} {before after : List FormulaRun}
    (h : Passes e (before ++ after) e') : ∃ e₁, Passes e before e₁ ∧ Passes e₁ after e' := by
  induction before generalizing e with
  | nil => exact ⟨e, .refl e, h⟩
  | cons run rest ih =>
    cases h with
    | head hfirst hrest =>
      obtain ⟨e₁, hbefore, hafter⟩ := ih hrest
      exact ⟨e₁, .head hfirst hbefore, hafter⟩

/-- Under a label that no other formula has, evaluations record at most as
many failures as there are evaluations of the formula. -/
theorem errors {e e' : Engine C R} {runs : List FormulaRun} (hs : e.state.WellFormed)
    (h : Passes e runs e') {id : Nat} {label : String}
    (hlabel : ∀ id', e.state.label? (.formula id') = some label → id' = id) :
    ∃ recorded, e'.errors = e.errors ++ recorded ∧
      recorded.countP (fun entry => entry.unit == label) ≤
        (runs.map FormulaRun.formula).count id := by
  induction h with
  | refl e => exact ⟨[], by simp, by simp⟩
  | @head e e₁ e' run rest hfirst _ ih =>
    obtain ⟨hshape, hs₁⟩ := sameShape_evaluateFormula hs hfirst
    obtain ⟨later, hlater, hcount⟩ := ih hs₁ fun id' hid' => by
      rw [hshape.label?] at hid'
      exact hlabel id' hid'
    obtain ⟨recorded, hrecorded, hlength⟩ := evaluateFormula_errors hs hfirst
    obtain ⟨recorded', hrecorded', hunits⟩ := evaluateFormula_logs hs hfirst
    obtain rfl : recorded' = recorded :=
      List.append_cancel_left (hrecorded'.symm.trans hrecorded)
    refine ⟨recorded' ++ later, by rw [hlater, hrecorded', List.append_assoc], ?_⟩
    have hnow : recorded'.countP (fun entry => entry.unit == label) ≤
        if run.formula = id then 1 else 0 := by
      by_cases hsame : run.formula = id
      · rw [if_pos hsame]
        exact Nat.le_trans List.countP_le_length hlength
      · rw [if_neg hsame, Nat.le_zero, List.countP_eq_zero]
        intro entry hentry hunit
        obtain ⟨u, hu, hentryLabel⟩ := hunits entry hentry
        obtain rfl := List.mem_singleton.mp hu
        rw [beq_iff_eq.mp hunit] at hentryLabel
        exact hsame (hlabel _ hentryLabel)
    rw [List.countP_append, List.map_cons, List.count_cons]
    simp only [beq_iff_eq]
    omega

end Passes

/-- The propagation of a tick: where it starts, and what the tick reports of it. -/
structure Stage.TickPropagates (s : Stage C R) (report : TickReport) (start : VariableSet)
    (e : Engine C R) (p : Propagation C R) : Prop where
  /-- The variables at the start are those that were pending or that generators changed. -/
  mem_start : ∀ q, q ∈ start ↔ q ∈ s.engine.state.pending ∨ q ∈ report.generated
  /-- Each of them counts once. -/
  nodup : start.Nodup
  /-- The generators have advanced. -/
  launches : s.Launches e
  /-- No failure has been recorded yet. -/
  errors : e.errors = s.engine.errors
  /-- The changes are propagated. -/
  propagated : propagate e start = .done p
  /-- The tick reports the evaluations. -/
  formulas : report.formulas = p.runs
  /-- The tick reports the variables that changed. -/
  dirty : report.dirty = p.dirty

/-- Ascending variables that are added in turn ascend. -/
theorem VariableSet.ascending_foldl_add {set : VariableSet} (h : set.Ascending)
    (ids : List VariableId) : (ids.foldl VariableSet.add set).Ascending := by
  induction ids generalizing set with
  | nil => exact h
  | cons id rest ih => exact ih (h.add id)

/-- A tick that returned has propagated its changes. -/
theorem tickPropagates_of_tick {s s' : Stage C R} {clock : Time.Clock} {wall : Time.Instant}
    {report : TickReport} (hs : s.engine.state.WellFormed)
    (h : s.tick clock wall = .done (s', report)) :
    ∃ start e p, s.TickPropagates report start e p ∧ e.state.WellFormed ∧
      State.SameShape s.engine.state e.state ∧
      ∃ units, (∀ u ∈ units, u.isFormula = false) ∧ Logs e.state units p.engine s'.engine := by
  obtain ⟨prepared, hticked⟩ := ticked_of_tick hs h
  have hprepares := hticked.prepares
  obtain ⟨hmore, -⟩ := runUnits_logs (fun u hu => isFormula_of_due hs hprepares hu) hticked.ran
  obtain ⟨prepared', runs, hprepare, hruns, hreport⟩ := tick_eq_done_iff.mp h
  obtain rfl : prepared = prepared' :=
    Outcome.done.inj (hticked.prepared.symm.trans hprepare)
  obtain ⟨now, -, hprepare⟩ := Outcome.bind_eq_done_iff.mp hprepare
  obtain ⟨a, hadvance, hprepare⟩ := Outcome.bind_eq_done_iff.mp hprepare
  obtain ⟨p, hpropagate, hprepare⟩ := Outcome.bind_eq_done_iff.mp hprepare
  have hlaunches : s.Launches (s.engine.beginTick a now) := .within hadvance
  have hshape := sameShape_beginTick now (advance_spec hs.generator_kind hadvance)
  obtain rfl := Outcome.done.inj hprepare
  refine ⟨_, _, p, ⟨fun q => ?_, ?_, hlaunches, rfl, hpropagate, ?_, ?_⟩,
    hlaunches.wellFormed hs, hshape, _, fun u hu => isFormula_of_due hs hprepares hu, ?_⟩
  · rw [VariableSet.mem_foldl_add, hreport]
  · exact ((VariableSet.ascending_foldl_add hs.ascending _).imp fun h => by
      exact Nat.ne_of_lt (of_decide_eq_true h))
  · rw [hreport]
  · rw [hreport]
  · have hleads := (Propagation.propagate_spec (hlaunches.wellFormed hs) hpropagate).1
    exact hmore.of_sameShape (hleads.shape.trans ⟨rfl, .refl _ _, rfl, rfl, rfl, rfl, rfl, rfl⟩)

/-- No two formulas have one label. -/
theorem State.WellFormed.eq_of_label? {s : State C} (hs : s.WellFormed) {id id' : Nat}
    {unit : FormulaUnit C} {v : Variable} (hunit : s.formulas[id]? = some unit)
    (hv : s.vars[unit.variableId]? = some v) (h : s.label? (.formula id') = some v.name) :
    id' = id := by
  obtain ⟨q, hcomputed, hname⟩ := Option.bind_eq_some_iff.mp h
  obtain ⟨unit', hunit', rfl⟩ := Option.map_eq_some_iff.mp hcomputed
  obtain ⟨w, hw, hsame⟩ := Option.map_eq_some_iff.mp hname
  have hlookup := hs.named _ w hw
  rw [hsame, hs.named _ v hv] at hlookup
  exact hs.formula_unique hunit' hunit (Option.some.inj hlookup).symm

/-- The label of a rule or script is not the name of a formula. -/
theorem State.label?_ne_formula {s : State C} {u : UnitRef} (hu : u.isFormula = false)
    (source : String) : s.label? u ≠ some ("=" ++ source) := by
  have hfirst : ∀ (label : String), (label.toList.head? = some 'r' ∨
      label.toList.head? = some 's') → label ≠ "=" ++ source := by
    rintro label hhead rfl
    simp at hhead
  intro h
  cases u with
  | formula id => cases hu
  | rule id =>
    obtain ⟨unit, -, hlabel⟩ := Option.map_eq_some_iff.mp h
    exact hfirst _ (Or.inl (by simp)) hlabel
  | script id =>
    obtain ⟨unit, -, hlabel⟩ := Option.map_eq_some_iff.mp h
    exact hfirst _ (Or.inr (by simp)) hlabel

/-- In every state that a display reaches and at every clock, a tick that
returns evaluates a formula once for every change of one of its parameters,
and records at most one failure of it each time. An evaluation sees a
parameter as the propagation leaves it, unless the parameter is the variable
of a formula that reports a change later; the formula is then evaluated again
behind that. -/
theorem evaluations_of_tick {settings : Settings} {epoch : Time.Instant} {panel : Panel}
    {operations : List Operation} {answers : List Answer} {s s' : Stage C R}
    (hrun : (Stage.mk (Engine.start C R settings epoch) panel).run operations =
      .done (answers, s))
    {clock : Time.Clock} {wall : Time.Instant} {report : TickReport}
    (htick : s.tick clock wall = .done (s', report)) :
    ∃ start e p, s.TickPropagates report start e p ∧
      ∀ id unit v, s.engine.state.formulas[id]? = some unit →
        s.engine.state.vars[unit.variableId]? = some v →
        (report.formulas.map FormulaRun.formula).count id =
          (start ++ s.engine.state.outputs report.formulas).countP
            (fun q => decide (q ∈ unit.parameters)) ∧
        (∃ recorded, s'.engine.errors = s.engine.errors ++ recorded ∧
          recorded.countP (fun entry => entry.unit == v.name) ≤
            (report.formulas.map FormulaRun.formula).count id) ∧
        ∀ before changed after, report.formulas = before ++ ⟨id, changed⟩ :: after →
          ∃ e', Passes e before e' ∧ Passes e' (⟨id, changed⟩ :: after) p.engine ∧
            ∀ q ∈ unit.parameters, ∃ u u', e'.state.vars[q]? = some u ∧
              p.engine.state.vars[q]? = some u' ∧
              (u.Agrees u' ∨ s.engine.state.Redone q id after) := by
  have hsession := session_of_run hrun
  have hs := hsession.wellFormed
  obtain ⟨start, e, p, hpropagates, hse, hshape, units, hkinds, hlogs⟩ :=
    tickPropagates_of_tick hs htick
  have hrounds := Propagation.propagate_rounds hse hpropagates.propagated
  have hpasses := Propagation.propagate_passes hpropagates.propagated
  refine ⟨start, e, p, hpropagates, fun id unit v hunit hv => ⟨?_, ?_, ?_⟩⟩
  · rw [hpropagates.formulas]
    exact (hshape.rounds hrounds).count_eq hs hunit
  · obtain ⟨source, origin, v', hstems, -⟩ := hsession.upToDate id unit hunit
    obtain rfl := Option.some.inj (hv.symm.trans hstems.computes)
    have hlabel : ∀ id', e.state.label? (.formula id') = some v.name → id' = id :=
      fun id' hid' => hs.eq_of_label? hunit hv (by rw [← hshape.label?, hid'])
    obtain ⟨recorded, hrecorded, hcount⟩ := hpasses.errors hse hlabel
    obtain ⟨more, hmore, hunits⟩ := hlogs
    refine ⟨recorded ++ more, ?_, ?_⟩
    · rw [hmore, hrecorded, hpropagates.errors, List.append_assoc]
    · have hnone : more.countP (fun entry => entry.unit == v.name) = 0 := by
        rw [List.countP_eq_zero]
        intro entry hentry hsame
        obtain ⟨u, hu, hlabel⟩ := hunits entry hentry
        rw [beq_iff_eq.mp hsame, hstems.name] at hlabel
        exact State.label?_ne_formula (hkinds u hu) source hlabel
      rw [hpropagates.formulas, List.countP_append, hnone]
      exact hcount
  · intro before changed after hsplit
    rw [hpropagates.formulas] at hsplit
    rw [hsplit] at hpasses
    obtain ⟨e', hbefore, hafter⟩ := hpasses.split
    obtain ⟨hshape', hse'⟩ := hbefore.sameShape hse
    have hsame : State.SameShape s.engine.state e'.state := hshape.trans hshape'
    refine ⟨e', hbefore, hafter, fun q hq => ?_⟩
    have hmem := List.mem_of_getElem? hunit
    have hyounger : q < unit.variableId := hs.parameters unit hmem q hq
    have hrange : q < e'.state.vars.length := by
      rw [hsame.length]
      exact Nat.lt_trans hyounger (hs.formulas.lt (List.mem_map_of_mem hmem))
    obtain ⟨u', hu', -, htouched⟩ :=
      hafter.moves hse' q e'.state.vars[q] (List.getElem?_eq_getElem hrange)
    refine ⟨_, u', List.getElem?_eq_getElem hrange, hu', ?_⟩
    rcases htouched with htouched | hagrees
    · -- the evaluation itself reports a younger variable, so a later one reports the parameter
      rw [hsame.outputs] at htouched
      obtain ⟨run, hrun, hchanged, hcomputed⟩ := State.mem_outputs.mp htouched
      rcases List.mem_cons.mp hrun with rfl | hlater
      · rw [State.computed?, hunit] at hcomputed
        obtain rfl := Option.some.inj hcomputed
        exact absurd hyounger (Nat.lt_irrefl _)
      · have hfollowed := (hshape.rounds hrounds).followedUp
        rw [hsplit] at hfollowed
        exact Or.inr (hfollowed.of_append.2.redone
          (State.mem_outputs.mpr ⟨run, hlater, hchanged, hcomputed⟩)
          ((hs.mem_formulasOn hunit).mpr hq))
    · exact Or.inl hagrees

/-- A formula that fails and has two parameters, both of which have changed. -/
def twiceRun : List Operation :=
  [.create "=nothing('loc://x(1)', 'loc://y(2)')", .takeErrors,
    .setValue "loc://x" (.number 3), .setValue "loc://y" (.number 4)]

/-- A variable that changed, two formulas in a chain behind it, and one that depends on all
of them. -/
def staleRun : List Operation := [.create "=loc://x(1);=loc://x;==loc://x", .tick 0 0,
  .setValue "loc://x" (.number 2)]

/-- A formula whose two parameters changed is evaluated twice in a tick, and
its failure is recorded twice. A formula with a parameter and a chain of
formulas behind that one is evaluated between the two evaluations of the
chain, when the parameter is updated and the end of the chain is not. -/
theorem evaluations_repeated :
    (∃ answers s s' report, (bareStage []).run twiceRun = .done (answers, s) ∧
      s.tick 0 0 = .done (s', report) ∧ s.engine.errors = [] ∧
      report.formulas.map FormulaRun.formula = [0, 0] ∧
      s'.engine.errors.map UnitFailure.unit =
        ["=nothing('loc://x(1)', 'loc://y(2)')", "=nothing('loc://x(1)', 'loc://y(2)')"]) ∧
    ∃ answers s s' report,
      (Stage.mk (Engine.start FormulaCompiler.restless (.bundled .standard {}) {} 0) []).run
        staleRun = .done (answers, s) ∧
      s.tick 0 0 = .done (s', report) ∧
      s.engine.state.formulas.map FormulaUnit.parameters = [[0], [1], [0, 1, 2]] ∧
      s.engine.state.formulas.map FormulaUnit.variableId = [1, 2, 3] ∧
      s.engine.state.pending = [0] ∧
      report.formulas = [⟨0, true⟩, ⟨2, true⟩, ⟨1, true⟩, ⟨2, true⟩, ⟨2, true⟩] := by
  constructor
  · obtain ⟨⟨answers, s⟩, hrun, hcheck⟩ := done_of_any
      (fun reached : List Answer × BundledStage =>
        reached.2.engine.errors.isEmpty &&
          (reached.2.tick 0 0).value?.any fun ticked : BundledStage × TickReport =>
            decide (ticked.2.formulas.map FormulaRun.formula = [0, 0]) &&
              decide (ticked.1.engine.errors.map UnitFailure.unit =
                ["=nothing('loc://x(1)', 'loc://y(2)')", "=nothing('loc://x(1)', 'loc://y(2)')"]))
      (show ((bareStage []).run twiceRun).value?.any _ = true by decide +kernel)
    obtain ⟨hnone, hcheck⟩ := Bool.and_eq_true_iff.mp hcheck
    obtain ⟨⟨s', report⟩, htick, hcheck⟩ := done_of_any _ hcheck
    obtain ⟨hformulas, herrors⟩ := Bool.and_eq_true_iff.mp hcheck
    exact ⟨answers, s, s', report, hrun, htick, List.isEmpty_iff.mp hnone,
      of_decide_eq_true hformulas, of_decide_eq_true herrors⟩
  · obtain ⟨⟨answers, s⟩, hrun, hcheck⟩ := done_of_any
      (fun reached : List Answer × Stage FormulaCompiler.restless (.bundled .standard {}) =>
        decide (reached.2.engine.state.formulas.map FormulaUnit.parameters =
            [[0], [1], [0, 1, 2]]) &&
          decide (reached.2.engine.state.formulas.map FormulaUnit.variableId = [1, 2, 3]) &&
          decide (reached.2.engine.state.pending = [0]) &&
          (reached.2.tick 0 0).value?.any
            fun ticked : Stage FormulaCompiler.restless (.bundled .standard {}) × TickReport =>
              decide (ticked.2.formulas =
                [⟨0, true⟩, ⟨2, true⟩, ⟨1, true⟩, ⟨2, true⟩, ⟨2, true⟩]))
      (show ((Stage.mk (Engine.start FormulaCompiler.restless (.bundled .standard {}) {} 0) []).run
        staleRun).value?.any _ = true by decide +kernel)
    obtain ⟨hcheck, hticks⟩ := Bool.and_eq_true_iff.mp hcheck
    obtain ⟨hcheck, hpending⟩ := Bool.and_eq_true_iff.mp hcheck
    obtain ⟨hparameters, hvariables⟩ := Bool.and_eq_true_iff.mp hcheck
    obtain ⟨⟨s', report⟩, htick, hformulas⟩ := done_of_any _ hticks
    exact ⟨answers, s, s', report, hrun, htick, of_decide_eq_true hparameters,
      of_decide_eq_true hvariables, of_decide_eq_true hpending, of_decide_eq_true hformulas⟩

/-- The formula with two changed parameters is evaluated once for each of them. -/
theorem evaluations_of_tick_twice : ∃ answers s s' report start e p unit,
    (bareStage []).run twiceRun = .done (answers, s) ∧ s.tick 0 0 = .done (s', report) ∧
    s.TickPropagates report start e p ∧ s.engine.state.formulas[0]? = some unit ∧
    (start ++ s.engine.state.outputs report.formulas).countP
      (fun q => decide (q ∈ unit.parameters)) = 2 := by
  obtain ⟨⟨answers, s⟩, hrun, hcheck⟩ := done_of_any
    (fun reached : List Answer × BundledStage =>
      (reached.2.engine.state.formulas[0]?.any fun unit =>
        reached.2.engine.state.vars[unit.variableId]?.isSome) &&
      (reached.2.tick 0 0).value?.any fun ticked : BundledStage × TickReport =>
        decide (ticked.2.formulas.map FormulaRun.formula = [0, 0]))
    (show ((bareStage []).run twiceRun).value?.any _ = true by decide +kernel)
  obtain ⟨hfound, hticks⟩ := Bool.and_eq_true_iff.mp hcheck
  obtain ⟨unit, hunit, hfound⟩ := (Option.any_eq_true _ _).mp hfound
  obtain ⟨v, hv⟩ := Option.isSome_iff_exists.mp hfound
  obtain ⟨⟨s', report⟩, htick, hformulas⟩ := done_of_any _ hticks
  obtain ⟨start, e, p, hpropagates, hall⟩ := evaluations_of_tick (run_bareStage hrun) htick
  obtain ⟨hcount, -⟩ := hall 0 unit v hunit hv
  refine ⟨answers, s, s', report, start, e, p, unit, hrun, htick, hpropagates, hunit, ?_⟩
  rw [← hcount, of_decide_eq_true hformulas]
  rfl

end ProcessDisplay.Engine
