import Mathlib.Tactic.Common
import ProcessDisplay.Proofs.UnitExecutions

/-!
# No trigger is lost

The snapshot of a trigger on which a unit was last executed agrees with the
present variable, unless the variable is pending; and a unit with a
pending trigger runs at the next tick. So every change of a trigger that a
unit could see is seen by it at the next tick at the latest, whoever made it.
-/

namespace ProcessDisplay

/-- A snapshot agrees with a variable if its value and its severity are those
of the variable. -/
structure Snapshot.Agrees (snapshot : Snapshot) (v : Variable) : Prop where
  /-- The severities are the same. -/
  severity : snapshot.severity = v.severity
  /-- The values agree. -/
  value : Value.Agrees? snapshot.value v.value

/-- A snapshot agrees with the variable from which it was taken. -/
theorem Snapshot.Agrees.of_variable (v : Variable) : v.snapshot.Agrees v := ⟨rfl, .refl _⟩

/-- A snapshot agrees with a variable that agrees. -/
theorem Snapshot.Agrees.trans {snapshot : Snapshot} {v w : Variable} (h : snapshot.Agrees v)
    (hvw : v.Agrees w) : snapshot.Agrees w :=
  ⟨h.severity.trans hvw.severity, h.value.trans hvw.value⟩

namespace Engine

variable {C : FormulaCompiler} {R : ScriptInterpreter}

/-- The last run of a unit. -/
def Journal.lastRun? (j : Journal) (u : UnitRef) : Option UnitRun :=
  j.runs.reverse.find? fun run => run.unit = u

/-- The last run of a unit is a run of it. -/
theorem Journal.lastRun?_spec {j : Journal} {u : UnitRef} {run : UnitRun}
    (h : j.lastRun? u = some run) : run ∈ j.runs ∧ run.unit = u := by
  have hunit := List.find?_some h
  exact ⟨List.mem_reverse.mp (List.mem_of_find?_eq_some h), by simpa using hunit⟩

/-- After more runs the last run is one of them, or the unit is not among them. -/
theorem Journal.lastRun?_append {registrations : List Registration} {runs more : List UnitRun}
    {u : UnitRef} {run : UnitRun} (h : lastRun? ⟨registrations, runs ++ more⟩ u = some run) :
    run ∈ more ∧ run.unit = u ∨
      (∀ other ∈ more, other.unit ≠ u) ∧ lastRun? ⟨registrations, runs⟩ u = some run := by
  unfold lastRun? at h ⊢
  rw [List.reverse_append, List.find?_append] at h
  cases hmore : more.reverse.find? fun run => run.unit = u with
  | some found =>
    rw [hmore, Option.some_or] at h
    obtain rfl := Option.some.inj h
    have hunit := List.find?_some hmore
    exact Or.inl ⟨List.mem_reverse.mp (List.mem_of_find?_eq_some hmore), by simpa using hunit⟩
  | none =>
    rw [hmore, Option.none_or] at h
    refine Or.inr ⟨?_, h⟩
    intro other hother
    have hno := List.find?_eq_none.mp hmore other (List.mem_reverse.mpr hother)
    exact of_decide_eq_false (Bool.eq_false_iff.mpr hno)

/-- A declared trigger belongs to the triggers of its unit. -/
theorem mem_triggersOf {inputs : List Input} {ids : List VariableId} {k : Nat} {input : Input}
    {id : VariableId} (hinput : inputs[k]? = some input) (hid : ids[k]? = some id)
    (htrigger : input.isTrigger = true) : id ∈ triggersOf inputs ids := by
  refine List.mem_filterMap.mpr ⟨(input, id), ?_, by simp [htrigger]⟩
  refine List.mem_of_getElem? (i := k) ?_
  rw [List.getElem?_zip_eq_some]
  exact ⟨hinput, hid⟩

namespace State

/-- The snapshot at a position agrees with a variable, unless something is
still to come. -/
def Sees (s : State C) (snapshots : List Snapshot) (k : Nat) (id : VariableId)
    (isPending : Prop) : Prop :=
  ∃ snapshot v, snapshots[k]? = some snapshot ∧ s.vars[id]? = some v ∧
    (isPending ∨ snapshot.Agrees v)

/-- Snapshots agree as long as the variable is not touched. -/
theorem Sees.of_moves {s s' : State C} {snapshots : List Snapshot} {k : Nat} {id : VariableId}
    {isPending isPending' : Prop} {touched : VariableId → Prop}
    (h : s.Sees snapshots k id isPending) (hmoves : Moves s.vars s'.vars touched)
    (hpending : isPending ∨ touched id → isPending') : s'.Sees snapshots k id isPending' := by
  obtain ⟨snapshot, v, hsnapshot, hv, hseen⟩ := h
  obtain ⟨w, hw, -, htouched⟩ := hmoves id v hv
  refine ⟨snapshot, w, hsnapshot, hw, ?_⟩
  rcases hseen with hp | hagrees
  · exact Or.inl (hpending (Or.inl hp))
  · rcases htouched with ht | hvw
    · exact Or.inl (hpending (Or.inr ht))
    · exact Or.inr (hagrees.trans hvw)

/-- Snapshots stand at the positions of their variables. -/
theorem getElem?_snapshots {s : State C} {ids : List VariableId} {k : Nat} {id : VariableId}
    (hrange : ∀ q ∈ ids, q < s.vars.length) (hid : ids[k]? = some id) :
    ∃ v, s.vars[id]? = some v ∧ (s.snapshots ids)[k]? = some v.snapshot := by
  induction ids generalizing k with
  | nil => cases hid
  | cons first rest ih =>
    obtain ⟨v, hv⟩ : ∃ v, s.vars[first]? = some v :=
      ⟨_, List.getElem?_eq_getElem (hrange first List.mem_cons_self)⟩
    have hcons : s.snapshots (first :: rest) = v.snapshot :: s.snapshots rest :=
      List.filterMap_cons_some (by rw [hv]; rfl)
    rw [hcons]
    cases k with
    | zero =>
      obtain rfl := Option.some.inj hid
      exact ⟨v, hv, rfl⟩
    | succ k => exact ih (fun q hq => hrange q (List.mem_cons_of_mem _ hq)) hid

/-- Snapshots that are taken now agree with their variables. -/
theorem sees_snapshots {s : State C} {ids : List VariableId} {k : Nat} {id : VariableId}
    (hrange : ∀ q ∈ ids, q < s.vars.length) (hid : ids[k]? = some id) :
    s.Sees (s.snapshots ids) k id False := by
  obtain ⟨v, hv, hsnapshot⟩ := getElem?_snapshots hrange hid
  exact ⟨v.snapshot, v, hsnapshot, hv, Or.inr (.of_variable v)⟩

/-- The inputs of units are in range. -/
theorem WellFormed.inputs_lt {s : State C} (h : s.WellFormed) (u : UnitRef) :
    ∀ q ∈ s.inputsOf u, q < s.vars.length := by
  intro q hq
  cases u with
  | formula id => cases hq
  | rule id =>
    cases hunit : s.rules[id]? with
    | none =>
      rw [inputsOf, hunit] at hq
      cases hq
    | some unit =>
      rw [inputsOf_rule hunit] at hq
      exact h.rules unit (List.mem_of_getElem? hunit) q hq
  | script id =>
    cases hunit : s.scripts[id]? with
    | none =>
      rw [inputsOf, hunit] at hq
      cases hq
    | some unit =>
      rw [inputsOf_script hunit] at hq
      exact h.scripts unit (List.mem_of_getElem? hunit) q hq

end State

/-- What a unit received when it last ran agrees with its triggers, unless
they are pending. -/
def Journal.Delivered (j : Journal) (s : State C) : Prop :=
  ∀ r ∈ j.registrations, ∀ run, j.lastRun? r.unit = some run →
    ∀ (k : Nat) (input : Input) (id : VariableId), r.inputs[k]? = some input →
      input.isTrigger = true → (s.inputsOf r.unit)[k]? = some id →
        s.Sees run.snapshots k id (id ∈ s.pending)

namespace Journal.Delivered

variable {j : Journal} {s s' : State C}

/-- What was received agrees as long as every change is recorded. -/
theorem of_quiet (h : j.Delivered s) (hquiet : State.Quiet s s') : j.Delivered s' := by
  intro r hr run hlast k input id hinput htrigger hid
  rw [State.inputsOf_congr hquiet.rules hquiet.scripts] at hid
  refine (h r hr run hlast k input id hinput htrigger hid).of_moves hquiet.records.moves ?_
  rintro (hp | hp)
  · exact hquiet.records.pending id hp
  · exact hp

/-- A unit that is registered has not run yet. -/
theorem register (h : j.Delivered s) (hj : j.Describes s) {u : UnitRef} {inputs : List Input}
    {ids triggers : List VariableId} (hadds : State.Adds s s' u ids triggers) :
    (j.register u inputs).Delivered s' := by
  intro r hr run hlast k input id hinput htrigger hid
  rcases List.mem_append.mp hr with hold | hnew
  · rw [hadds.others _ (hj.has hold)] at hid
    have hsees := h r hold run hlast k input id hinput htrigger hid
    rw [State.Sees, hadds.vars, hadds.pending]
    exact hsees
  · obtain rfl := List.mem_singleton.mp hnew
    obtain ⟨hrun, hunit⟩ := Journal.lastRun?_spec hlast
    obtain ⟨r', hr', hsame⟩ := hj.runs run hrun
    have hhas := hj.has hr'
    rw [hsame, hunit] at hhas
    exact absurd hhas hadds.new

end Journal.Delivered

namespace Ticked

variable {s s' : Stage C R} {clock : Time.Clock} {wall : Time.Instant} {report : TickReport}
  {p : Prepared C R} {j : Journal}

/-- A unit reads after a tick what it read before. -/
theorem inputsOf (h : Ticked s s' clock wall report p) (u : UnitRef) :
    s'.engine.state.inputsOf u = s.engine.state.inputsOf u :=
  State.inputsOf_congr h.rules h.scripts u

/-- What a unit received in a tick agrees after it, unless it is pending. -/
theorem sees (h : Ticked s s' clock wall report p) {run : UnitRun} (hrun : run ∈ report.units)
    {k : Nat} {id : VariableId} (hid : (s.engine.state.inputsOf run.unit)[k]? = some id) :
    s'.engine.state.Sees run.snapshots k id (id ∈ s'.engine.state.pending) := by
  obtain ⟨e, hbefore, hafter, hsnapshots⟩ := h.snapshots run hrun
  have hs := hbefore.evolution.wellFormed h.prepares.wellFormed
  have hquiet := hafter.evolution.quiet
  rw [← h.inputsOf, State.inputsOf_congr hquiet.rules hquiet.scripts] at hid
  have hturn := State.sees_snapshots (hs.inputs_lt run.unit) hid
  rw [← hsnapshots] at hturn
  refine hturn.of_moves hquiet.records.moves ?_
  rintro (hp | hp)
  · exact hp.elim
  · exact hp

/-- A unit with a dirty trigger runs. -/
theorem runs_of_dirty (h : Ticked s s' clock wall report p) (hj : j.Describes s.engine.state)
    {r : Registration} (hr : r ∈ j.registrations) {id : VariableId}
    (htrigger : id ∈ triggersOf r.inputs (s.engine.state.inputsOf r.unit)) (hid : id ∈ p.dirty) :
    ∃ run ∈ report.units, run.unit = r.unit := by
  rw [h.mem_units_iff, h.prepares.due]
  exact Or.inr ⟨hj.units r hr, id, hid, (hj.edges r hr id).mpr htrigger⟩

/-- A tick delivers the triggers of all units that it runs; the triggers of
the others have not changed. -/
theorem delivered (h : Ticked s s' clock wall report p) (hj : j.Describes s.engine.state)
    (hdelivered : j.Delivered s.engine.state) :
    Journal.Delivered
      ⟨j.registrations.map fun r => { r with isNew := false }, j.runs ++ report.units⟩
      s'.engine.state := by
  intro r' hr' run hlast k input id hinput htrigger hid
  obtain ⟨r, hr, rfl⟩ := List.mem_map.mp hr'
  rw [h.inputsOf] at hid
  rcases Journal.lastRun?_append hlast with ⟨hrun, hunit⟩ | ⟨hnone, hlast⟩
  · exact h.sees hrun (by rw [hunit]; exact hid)
  · have hclean : id ∉ p.dirty := by
      intro hdirty
      obtain ⟨other, hother, hsame⟩ :=
        h.runs_of_dirty hj hr (mem_triggersOf hinput hid htrigger) hdirty
      exact hnone other hother hsame
    have hsettled : id ∉ s.engine.state.pending := fun hp =>
      hclean ((h.prepares.dirty id).mpr (Or.inl hp))
    refine (hdelivered r hr run hlast k input id hinput htrigger hid).of_moves h.moves ?_
    rintro (hp | hp | hp)
    · exact absurd hp hsettled
    · exact absurd hp hclean
    · exact hp

end Ticked

/-- Every operation keeps what was received in agreement with the triggers. -/
theorem Effect.delivered {j : Journal} {s s' : Stage C R} {entry : Operation × Answer}
    (h : Effect s entry s') (hs : s.engine.state.WellFormed) (hj : j.Describes s.engine.state)
    (hdelivered : j.Delivered s.engine.state) : (j.enter entry).Delivered s'.engine.state := by
  cases h with
  | evolved hquiet h =>
    rw [hquiet]
    exact hdelivered.of_quiet h.quiet
  | rule unit h hlocated he =>
    rw [he]
    exact (hdelivered.of_quiet h.quiet).register (hj.of_quiet h.quiet)
      (State.adds_addRule _ _ (triggersOf _ _))
  | script unit h hlocated he =>
    rw [he]
    exact (hdelivered.of_quiet h.quiet).register (hj.of_quiet h.quiet)
      (State.adds_addScript _ _ (triggersOf _ _))
  | tick h =>
    obtain ⟨p, hticked⟩ := ticked_of_tick hs h
    exact hticked.delivered hj hdelivered
  | reset he =>
    intro r hr
    cases hr

/-- Triggers are delivered throughout a session. -/
theorem Session.delivered {j : Journal} {s : Stage C R} (h : Session C R j s) :
    j.Delivered s.engine.state := by
  induction h with
  | start settings epoch panel =>
    intro r hr
    cases hr
  | step hsession hstep ih =>
    exact (effect_of_perform hsession.wellFormed hstep).delivered hsession.wellFormed
      hsession.describes ih

/-- In every state that a display reaches, every declared trigger of a unit
that has run has its variable, and the snapshot of it on which the unit was
executed last agrees with the variable unless it is pending. A tick that finds
the trigger pending, or changed as the unit could see, executes the unit, on a
snapshot that then agrees unless the trigger is pending again. -/
theorem trigger_delivered {settings : Settings} {epoch : Time.Instant} {panel : Panel}
    {operations : List Operation} {answers : List Answer} {s : Stage C R}
    (hrun : (Stage.mk (Engine.start C R settings epoch) panel).run operations =
      .done (answers, s))
    {r : Registration} (hr : r ∈ (Journal.ofRun operations answers).registrations)
    {last : UnitRun} (hlast : (Journal.ofRun operations answers).lastRun? r.unit = some last)
    {k : Nat} {input : Input} (hinput : r.inputs[k]? = some input)
    (htrigger : input.isTrigger = true) :
    (∃ q ∈ (Stage.mk (Engine.start C R settings epoch) panel).trail operations, q.Ran last) ∧
    ∃ id v snapshot, (s.engine.state.inputsOf r.unit)[k]? = some id ∧
      s.engine.state.vars[id]? = some v ∧ v.IsSpelled input.name ∧
      last.snapshots[k]? = some snapshot ∧
      (id ∉ s.engine.state.pending → snapshot.Agrees v) ∧
      ∀ clock wall s' report, s.tick clock wall = .done (s', report) →
        id ∈ s.engine.state.pending ∨ ¬snapshot.Agrees v →
          ∃ p, s.prepare clock wall = .done p ∧ Executions p.stage report.units s' ∧
            ∃ run ∈ report.units, run.unit = r.unit ∧
              s'.engine.state.Sees run.snapshots k id (id ∈ s'.engine.state.pending) := by
  have hsession := session_of_run hrun
  have hj := hsession.describes
  have hname : (r.inputs.map Input.name)[k]? = some input.name := by
    rw [List.getElem?_map, hinput]
    rfl
  obtain ⟨id, v, hid, hv, hspelled⟩ := (hj.inputs r hr).getElem? hname
  obtain ⟨snapshot, v', hsnapshot, hv', hseen⟩ :=
    hsession.delivered r hr last hlast k input id hinput htrigger hid
  obtain rfl := Option.some.inj (hv.symm.trans hv')
  have hran := (run_ran (.start settings epoch panel) hrun (Journal.lastRun?_spec hlast).1)
    |>.resolve_left List.not_mem_nil
  refine ⟨hran, id, v, snapshot, hid, hv, hspelled, hsnapshot, hseen.resolve_left, ?_⟩
  intro clock wall s' report htick hchange
  have hpending : id ∈ s.engine.state.pending := by
    rcases hchange with hpending | hdiffers
    · exact hpending
    · exact hseen.resolve_right hdiffers
  obtain ⟨p, hticked⟩ := ticked_of_tick hsession.wellFormed htick
  obtain ⟨run, hmem, hunit⟩ := hticked.runs_of_dirty hj hr (mem_triggersOf hinput hid htrigger)
    ((hticked.prepares.dirty id).mpr (Or.inl hpending))
  exact ⟨p, hticked.prepared, hticked.executions hsession.wellFormed, run, hmem, hunit,
    hticked.sees hmem (by rw [hunit]; exact hid)⟩

/-- The rule has run, a script has then written its trigger, and the next
tick runs the rule again. -/
theorem trigger_delivered_doubling : ∃ answers s last id v snapshot s' report p,
    (bareStage [numberWidget]).run (doublingRun ++ [.tick 1000 0]) = .done (answers, s) ∧
      (Journal.ofRun (doublingRun ++ [.tick 1000 0]) answers).lastRun? (.rule 0) = some last ∧
      (s.engine.state.inputsOf (.rule 0))[0]? = some id ∧ id ∈ s.engine.state.pending ∧
      s.engine.state.vars[id]? = some v ∧ last.snapshots[0]? = some snapshot ∧
      s.tick 2000 0 = .done (s', report) ∧ s.prepare 2000 0 = .done p ∧
      Executions p.stage report.units s' ∧
      ∃ run ∈ report.units, run.unit = .rule 0 ∧
        s'.engine.state.Sees run.snapshots 0 id (id ∈ s'.engine.state.pending) := by
  obtain ⟨⟨answers, s⟩, hrun, hcheck⟩ := done_of_any
    (fun reached : List Answer × BundledStage =>
      decide (Registration.mk (.rule 0) showing.inputs false ∈
        (Journal.ofRun (doublingRun ++ [.tick 1000 0]) reached.1).registrations) &&
      ((Journal.ofRun (doublingRun ++ [.tick 1000 0]) reached.1).lastRun? (.rule 0)).isSome &&
      ((reached.2.engine.state.inputsOf (.rule 0))[0]?.any fun id =>
        decide (id ∈ reached.2.engine.state.pending)) &&
      (reached.2.tick 2000 0).value?.any fun _ => true)
    (show ((bareStage [numberWidget]).run (doublingRun ++ [.tick 1000 0])).value?.any _ = true by
      decide +kernel)
  obtain ⟨hcheck, htick⟩ := Bool.and_eq_true_iff.mp hcheck
  obtain ⟨hcheck, hpending⟩ := Bool.and_eq_true_iff.mp hcheck
  obtain ⟨hregistered, hlast⟩ := Bool.and_eq_true_iff.mp hcheck
  obtain ⟨⟨s', report⟩, htick, -⟩ := done_of_any _ htick
  obtain ⟨last, hlast⟩ := Option.isSome_iff_exists.mp hlast
  have hinput : showing.inputs[0]? = some { name := "loc://out(0)" } := rfl
  obtain ⟨-, id, v, snapshot, hid, hv, -, hsnapshot, -, hruns⟩ :=
    trigger_delivered (run_bareStage hrun) (of_decide_eq_true hregistered) hlast hinput rfl
  have hwaiting : id ∈ s.engine.state.pending := by
    rw [hid] at hpending
    exact of_decide_eq_true hpending
  obtain ⟨p, hexecuted⟩ := hruns _ _ _ _ htick (Or.inl hwaiting)
  exact ⟨answers, s, last, id, v, snapshot, s', report, p, hrun, hlast, hid, hwaiting, hv,
    hsnapshot, htick, hexecuted⟩

end Engine

end ProcessDisplay
