import Mathlib.Tactic.Common
import ProcessDisplay.Proofs.UnitExecutions

/-!
# The schedule of a tick

A tick runs the rules and scripts that were registered since the last one and
those with a trigger among the variables that were pending, that a generator
changed or that a formula changed. Each of them runs once, rules before
scripts and each kind in the order of registration, after the generators, the
formulas and the traces; what scripts write changes none of these any more.
To run a unit is to execute it, on the stage that the units before it left.
-/

namespace ProcessDisplay.Engine

variable {C : FormulaCompiler} {R : ScriptInterpreter}

/-- Whether a tick makes a registered unit run: it is new, or one of its
triggers was pending, changed by a generator or changed by a formula. -/
def Registration.isDue (r : Registration) (s : State C) (report : TickReport) : Bool :=
  r.isNew || (triggersOf r.inputs (s.inputsOf r.unit)).any fun q =>
    s.pending.contains q || report.generated.contains q ||
      report.formulas.any fun run => run.changed && s.computed? run.formula == some q

namespace Journal

/-- The registered units, rules before scripts, each kind in the order of
registration. -/
def inOrder (j : Journal) : List Registration :=
  j.registrations.filter (fun r => r.unit.isRule) ++
    j.registrations.filter fun r => r.unit.isScript

/-- The units that a tick makes run, in order. -/
def schedule (j : Journal) (s : State C) (report : TickReport) : List UnitRef :=
  (j.inOrder.filter fun r => r.isDue s report).map Registration.unit

variable {j : Journal} {s : State C}

/-- The units of a registry in order. -/
theorem Describes.inOrder_units (h : j.Describes s) :
    j.inOrder.map Registration.unit = s.ruleUnits ++ s.scriptUnits := by
  rw [inOrder, List.map_append, ← h.rules, ← h.scripts, List.filter_map, List.filter_map]
  rfl

/-- Every entry has its place in the order. -/
theorem Describes.mem_inOrder (h : j.Describes s) {r : Registration} :
    r ∈ j.inOrder ↔ r ∈ j.registrations := by
  rw [inOrder, List.mem_append, List.mem_filter, List.mem_filter]
  constructor
  · rintro (⟨hr, -⟩ | ⟨hr, -⟩)
    · exact hr
    · exact hr
  · intro hr
    have hkind := h.units r hr
    cases hu : r.unit with
    | formula id =>
      rw [hu] at hkind
      cases hkind
    | rule id => exact Or.inl ⟨hr, rfl⟩
    | script id => exact Or.inr ⟨hr, rfl⟩

end Journal

/-- The rules and scripts of a registry ascend. -/
theorem State.ascending_units (s : State C) :
    UnitSet.Ascending (s.ruleUnits ++ s.scriptUnits) := by
  refine List.pairwise_append.mpr ⟨?_, ?_, ?_⟩
  · refine List.pairwise_map.mpr (List.pairwise_lt_range.imp ?_)
    intro a b hab
    exact UnitRef.before_iff.mpr (Or.inr ⟨rfl, hab⟩)
  · refine List.pairwise_map.mpr (List.pairwise_lt_range.imp ?_)
    intro a b hab
    exact UnitRef.before_iff.mpr (Or.inr ⟨rfl, hab⟩)
  · intro u hu v hv
    obtain ⟨a, -, rfl⟩ := List.mem_map.mp hu
    obtain ⟨b, -, rfl⟩ := List.mem_map.mp hv
    exact UnitRef.before_iff.mpr (Or.inl (Nat.lt_succ_self 1))

/-- The units that a tick makes run ascend. -/
theorem Journal.Describes.ascending_schedule {j : Journal} {s : State C} (h : j.Describes s)
    (report : TickReport) : UnitSet.Ascending (j.schedule s report) := by
  have hsub : (j.schedule s report).Sublist (s.ruleUnits ++ s.scriptUnits) := by
    rw [← h.inOrder_units]
    exact List.filter_sublist.map _
  exact s.ascending_units.sublist hsub

namespace Ticked

variable {s s' : Stage C R} {clock : Time.Clock} {wall : Time.Instant} {report : TickReport}
  {p : Prepared C R} {j : Journal}

/-- A variable is dirty when a due unit would count it. -/
theorem mem_dirty_iff (h : Ticked s s' clock wall report p) (q : VariableId) :
    q ∈ p.dirty ↔ (s.engine.state.pending.contains q || report.generated.contains q ||
      report.formulas.any fun run =>
        run.changed && s.engine.state.computed? run.formula == some q) = true := by
  rw [h.prepares.dirty, h.generated, h.formulas]
  simp only [Bool.or_eq_true, List.contains_iff_mem, List.any_eq_true, Bool.and_eq_true,
    beq_iff_eq, or_assoc]

/-- The due units are those of the schedule. -/
theorem mem_due_iff (h : Ticked s s' clock wall report p) (hj : j.Describes s.engine.state)
    (hs : s.engine.state.WellFormed) (u : UnitRef) :
    u ∈ p.due ↔ u ∈ j.schedule s.engine.state report := by
  have hdue : ∀ r : Registration, r.isDue s.engine.state report = true ↔ r.isNew = true ∨
      ∃ q ∈ triggersOf r.inputs (s.engine.state.inputsOf r.unit), q ∈ p.dirty := by
    intro r
    simp only [Registration.isDue, Bool.or_eq_true, List.any_eq_true, h.mem_dirty_iff]
  rw [h.prepares.due, Journal.schedule, List.mem_map]
  simp only [List.mem_filter, hj.mem_inOrder, hdue]
  constructor
  · rintro (hnew | ⟨hkind, q, hq, hedge⟩)
    · obtain ⟨r, hr, hunit, hisNew⟩ := (hj.fresh u).mp hnew
      exact ⟨r, ⟨hr, Or.inl hisNew⟩, hunit⟩
    · obtain ⟨r, hr, rfl⟩ := hj.exists_of_has hkind (hs.ends _ hedge).2
      exact ⟨r, ⟨hr, Or.inr ⟨q, (hj.edges r hr q).mp hedge, hq⟩⟩, rfl⟩
  · rintro ⟨r, ⟨hr, hisNew | ⟨q, htrigger, hq⟩⟩, rfl⟩
    · exact Or.inl ((hj.fresh r.unit).mpr ⟨r, hr, rfl, hisNew⟩)
    · exact Or.inr ⟨hj.units r hr, q, hq, (hj.edges r hr q).mpr htrigger⟩

/-- A tick runs its schedule. -/
theorem units_eq (h : Ticked s s' clock wall report p) (hj : j.Describes s.engine.state)
    (hs : s.engine.state.WellFormed) :
    report.units.map UnitRun.unit = j.schedule s.engine.state report := by
  rw [h.units]
  exact h.prepares.order.eq_of_mem_iff (hj.ascending_schedule report) (h.mem_due_iff hj hs)

end Ticked

/-- In every state that a display reaches, the journal lists the registered
rules and scripts with the variables of their declared inputs, and a tick that
returns has run exactly the units of its schedule, each once and in order.
They were executed one after another on what the generators, the formulas and
the traces had left, which they did not change: of the registry they changed
variables, none of which is of a formula, what is pending and the redraw flag. -/
theorem tick_schedule {settings : Settings} {epoch : Time.Instant} {panel : Panel}
    {operations : List Operation} {answers : List Answer} {s s' : Stage C R}
    {clock : Time.Clock} {wall : Time.Instant} {report : TickReport}
    (hrun : (Stage.mk (Engine.start C R settings epoch) panel).run operations =
      .done (answers, s))
    (htick : s.tick clock wall = .done (s', report)) :
    (∀ r ∈ (Journal.ofRun operations answers).registrations,
        s.engine.state.Has r.unit ∧
          s.engine.state.Resolves (r.inputs.map Input.name)
            (s.engine.state.inputsOf r.unit)) ∧
      report.units.map UnitRun.unit =
        (Journal.ofRun operations answers).schedule s.engine.state report ∧
      (report.units.map UnitRun.unit).Nodup ∧
      ∃ p, s.prepare clock wall = .done p ∧
        p.stage.runUnits p.due = .done (s', report.units) ∧
        Executions p.stage report.units s' ∧
        report.generated = p.generated ∧ report.formulas = p.formulas ∧
        p.stage.engine.state.Untouched s'.engine.state ∧
        KeepsFormulas p.stage.engine.state.vars s'.engine.state.vars := by
  have hsession := session_of_run hrun
  obtain ⟨p, h⟩ := ticked_of_tick hsession.wellFormed htick
  have hj := hsession.describes
  refine ⟨fun r hr => ⟨hj.has hr, hj.inputs r hr⟩, h.units_eq hj hsession.wellFormed, ?_, p,
    h.prepared, h.ran, h.executions hsession.wellFormed, h.generated, h.formulas,
    h.runs.untouched, h.runs.evolution.quiet.records.formulas⟩
  rw [h.units]
  exact h.prepares.order.nodup

/-- The next tick executes the script alone: the rule sees what the script
writes no sooner than at the tick after it. -/
theorem tick_schedule_doubling : ∃ answers s s' report p,
    (bareStage [numberWidget]).run doublingRun = .done (answers, s) ∧
      s.tick 1000 0 = .done (s', report) ∧
      report.units.map UnitRun.unit = [.script 0] ∧
      (Journal.ofRun doublingRun answers).schedule s.engine.state report = [.script 0] ∧
      s.prepare 1000 0 = .done p ∧ Executions p.stage report.units s' ∧
      s'.engine.value? "loc://out" = some (.number 8) := by
  obtain ⟨⟨answers, s⟩, hrun, hcheck⟩ := done_of_any
    (fun reached : List Answer × BundledStage =>
      (reached.2.tick 1000 0).value?.any fun ticked : BundledStage × TickReport =>
        decide (ticked.2.units.map UnitRun.unit = [UnitRef.script 0]) &&
          decide (ticked.1.engine.value? "loc://out" = some (Value.number 8)))
    (show ((bareStage [numberWidget]).run doublingRun).value?.any _ = true by
      decide +kernel)
  obtain ⟨⟨s', report⟩, htick, hcheck⟩ := done_of_any _ hcheck
  obtain ⟨hunits, hvalue⟩ := Bool.and_eq_true_iff.mp hcheck
  have hran : report.units.map UnitRun.unit = [.script 0] := of_decide_eq_true hunits
  obtain ⟨-, hschedule, -, p, hprepare, -, hexecuted, -⟩ :=
    tick_schedule (run_bareStage hrun) htick
  exact ⟨answers, s, s', report, p, hrun, htick, hran, hschedule ▸ hran, hprepare, hexecuted,
    of_decide_eq_true hvalue⟩

end ProcessDisplay.Engine
