import Mathlib.Tactic.Common
import ProcessDisplay.Proofs.RedrawFlag
import ProcessDisplay.Proofs.TickSurvival
import ProcessDisplay.Proofs.TraceFeeding

/-!
# Idle ticks

A tick commits every trace, also when nothing has changed. It adds no point
then: whatever was staged, a commit leaves nothing behind that a later commit
could add, and only a value that is staged from outside waits for the next
one. A tick with nothing pending, no new unit and no sample is idle: it moves
the time of the display and nothing that can be seen. Beyond the calendar
there is no instant, and an idle tick ends the program like any other.
-/

namespace ProcessDisplay.Trace

namespace Buffer

/-- A trace to which no commit adds a point until something is staged. -/
def Rests (b : Buffer) : Prop := ∀ wall, b.nextPoint wall = none

/-- Without fresh values the gate is closed. -/
theorem rests_of_stale {b : Buffer} (hx : b.xFresh = false) (hy : b.yFresh = false) :
    b.Rests := by
  intro wall
  have hclosed : b.gateOpen = false := by
    unfold gateOpen
    rw [hx, hy]
    cases b.settings.mode <;> simp
  rw [nextPoint, if_neg (Bool.eq_false_iff.mp hclosed)]

/-- A horizontal coordinate is missing at every instant or at none. -/
theorem nextX_eq_none {b : Buffer} {wall : Time.Instant} (h : b.nextX wall = none)
    (other : Time.Instant) : b.nextX other = none := by
  unfold nextX at h ⊢
  cases hsource : b.settings.horizontal with
  | wallClock =>
    rw [hsource] at h
    cases h
  | _ =>
    rw [hsource] at h
    exact h

/-- A commit that adds no point would add none at any other instant. -/
theorem rests_of_nextPoint_eq_none {b : Buffer} {wall : Time.Instant}
    (h : b.nextPoint wall = none) : b.Rests := by
  intro other
  unfold nextPoint at h ⊢
  by_cases hopen : b.gateOpen = true
  · rw [if_pos hopen] at h ⊢
    cases hx : b.nextX wall with
    | none => rw [nextX_eq_none hx other]
    | some x =>
      cases hy : b.y with
      | none => cases b.nextX other <;> rfl
      | some y =>
        rw [hx, hy] at h
        cases h
  · exact if_neg hopen

/-- A commit leaves nothing that another one could add. -/
theorem rests_commit (b : Buffer) (wall : Time.Instant) : (b.commit wall).1.Rests := by
  unfold commit
  split
  · exact rests_of_stale rfl rfl
  · next hnone => exact rests_of_nextPoint_eq_none hnone

/-- A commit adds no point to a trace that rests. -/
theorem Rests.commit {b : Buffer} (h : b.Rests) (wall : Time.Instant) :
    b.commit wall = (b, false) := by
  rw [Buffer.commit, h wall]

end Buffer

/-- Edits after which a value may wait for a commit. -/
def Edit.stages : Edit → Bool
  | .stageX _ | .stageY _ _ => true
  | _ => false

/-- A trace rests after every other edit. -/
theorem Buffer.Rests.edit {b : Buffer} (h : b.Rests) {edit : Edit}
    (hedit : edit.stages = false) : (b.edit edit).buffer.Rests := by
  cases edit with
  | stageX value => cases hedit
  | stageY value time => cases hedit
  | commit wall => exact rests_commit b wall
  | updateX value wall => exact rests_commit (b.stageX value) wall
  | updateY value time wall => exact rests_commit (b.stageY value time) wall
  | attach history => exact h
  | detach => exact h
  | clear => exact rests_of_stale rfl rfl

end ProcessDisplay.Trace

namespace ProcessDisplay.Engine

open Trace

variable {C : FormulaCompiler} {R : ScriptInterpreter}

/-- Whether an operation stages a value in a trace from outside. -/
def Operation.stages : Operation → Bool
  | .editTrace _ edit => edit.stages
  | _ => false

/-- A passage stages a value in a trace from outside. -/
def Passage.Stages (p : Passage C R) : Prop := p.operation.stages = true

/-- A state in which every trace rests. -/
def State.Rests (s : State C) : Prop := ∀ t ∈ s.traces, t.buffer.Rests

/-- A tick leaves every trace at rest. -/
theorem rests_of_tick {s s' : Stage C R} {clock : Time.Clock} {wall : Time.Instant}
    {report : TickReport} (hs : s.engine.state.WellFormed)
    (h : s.tick clock wall = .done (s', report)) : s'.engine.state.Rests := by
  obtain ⟨p, hticked⟩ := ticked_of_tick hs h
  intro t ht
  rw [hticked.traces hs] at ht
  obtain ⟨earlier, -, rfl⟩ := List.mem_map.mp ht
  rw [feed_eq]
  exact Buffer.rests_commit _ wall

/-- An edit that stages nothing leaves the traces at rest. -/
theorem State.Rests.editTrace {s : Stage C R} (h : s.engine.state.Rests) (trace : Nat)
    {edit : Edit} (hedit : edit.stages = false) :
    (s.editTrace trace edit).2.engine.state.Rests := by
  unfold Stage.editTrace
  dsimp only
  split
  · exact h
  · next unit hunit =>
    intro t ht
    rcases List.mem_or_eq_of_mem_set ht with hold | rfl
    · exact h t hold
    · exact (h unit (List.mem_of_getElem? hunit)).edit hedit

/-- Traces that stay as they are stay at rest. -/
theorem State.Rests.of_traces_eq {s s' : State C} (h : s.Rests) (htraces : s'.traces = s.traces) :
    s'.Rests :=
  fun t ht => h t (htraces ▸ ht)

/-- Operations besides edits leave the traces at rest; a tick and a reset do so
whatever was before. -/
theorem Transition.rests {s s' : Stage C R} {entry : Operation × Answer}
    (h : Transition s entry s') (hs : s.engine.state.WellFormed)
    (hkind : entry.1.isAside = false)
    (hrests : entry.1.settles = false → s.engine.state.Rests) : s'.engine.state.Rests := by
  cases h with
  | @refused operation answer declared memory hrefused hdeclares hmemory =>
    have hsame : (s.engine.state.redeclareAll declared).traces = s.engine.state.traces := by
      rw [s.engine.state.untouched_redeclareAll declared]
    exact (hrests (settles_of_refused hrefused)).of_traces_eq hsame
  | created h hlocated => exact (hrests rfl).of_traces_eq (h.traces hs).1
  | attached hfree => exact (hrests rfl).of_traces_eq rfl
  | written hwrite =>
    obtain ⟨v, -, -, rfl⟩ := State.write_eq_ok_iff.mp hwrite
    exact (hrests rfl).of_traces_eq rfl
  | ruled hcompiled h hlocated => exact (hrests rfl).of_traces_eq (h.traces hs).1
  | scripted h hlocated =>
    have hsame : _ = s.engine.state.traces := (h.traces hs).1
    exact (hrests rfl).of_traces_eq hsame
  | @traced request ids e₁ h hlocated =>
    intro t ht
    rcases List.mem_append.mp ht with hold | hnew
    · exact hrests rfl t ((h.traces hs).1 ▸ hold)
    · obtain rfl := List.mem_singleton.mp hnew
      exact Buffer.rests_of_stale rfl rfl
  | ticked h => exact rests_of_tick hs h
  | reset => exact fun t ht => nomatch ht
  | aside haside hsettings hmemory hstate hcoordinates =>
    rw [haside] at hkind
    cases hkind

/-- Only an edit that stages a value from outside does not leave the traces at
rest. -/
theorem rests_of_perform {s s' : Stage C R} {operation : Operation} {answer : Answer}
    (hs : s.engine.state.WellFormed) (h : s.perform operation = .done (answer, s'))
    (hrests : operation.settles = false → s.engine.state.Rests)
    (hstages : ¬Passage.Stages ⟨s, operation, answer, s'⟩) : s'.engine.state.Rests := by
  cases operation with
  | editTrace trace edit =>
    obtain ⟨-, rfl⟩ : _ = answer ∧ (s.editTrace trace edit).2 = s' := by
      simpa [Stage.perform] using h
    have hedit : edit.stages = false :=
      Bool.eq_false_iff.mpr hstages
    exact (hrests rfl).editTrace trace hedit
  | assign widget property value =>
    obtain ⟨-, rfl⟩ : _ = answer ∧ (s.assign widget property value).2 = s' := by
      simpa [Stage.perform] using h
    refine (hrests rfl).of_traces_eq ?_
    unfold Stage.assign
    split <;> rfl
  | takeErrors =>
    obtain ⟨-, rfl⟩ : _ = answer ∧ _ = s' := by simpa [Stage.perform] using h
    exact (hrests rfl).of_traces_eq rfl
  | takeMessages =>
    obtain ⟨-, rfl⟩ : _ = answer ∧ _ = s' := by simpa [Stage.perform] using h
    exact (hrests rfl).of_traces_eq rfl
  | _ => exact (transition_of_perform hs h).rests hs rfl hrests

/-- After a run the traces are at rest, unless a value was staged from outside
since the last tick or reset. -/
theorem run_rests {j : Journal} {s s' : Stage C R} {operations : List Operation}
    {answers : List Answer} (h : Session C R j s)
    (hrun : s.run operations = .done (answers, s'))
    (hstages : ¬Since Passage.Stages (s.trail operations))
    (hrests : (∀ q ∈ s.trail operations, q.operation.settles = false) → s.engine.state.Rests) :
    s'.engine.state.Rests := by
  induction operations generalizing j s answers with
  | nil =>
    obtain ⟨-, rfl⟩ := run_nil_eq_done_iff.mp hrun
    exact hrests fun q hq => nomatch hq
  | cons operation rest ih =>
    obtain ⟨answer, s₁, more, hfirst, hrest, -⟩ := run_cons_eq_done_iff.mp hrun
    rw [trail_cons hfirst, since_cons_iff] at hstages
    rw [trail_cons hfirst] at hrests
    push Not at hstages
    refine ih (h.step hfirst) hrest hstages.2 fun hopen => ?_
    -- nothing settles after the first operation, so what it stages is counted
    refine rests_of_perform h.wellFormed hfirst (fun hkind => hrests ?_) fun hstaged => ?_
    · exact List.forall_mem_cons.mpr ⟨hkind, hopen⟩
    · obtain ⟨q, hq, hsettles⟩ := hstages.1 hstaged
      exact hsettles (hopen q hq)

/-- The passages of a run belong to its operations. -/
theorem operation_mem_of_mem_trail {s : Stage C R} {operations : List Operation} {q : Passage C R}
    (h : q ∈ s.trail operations) : q.operation ∈ operations := by
  induction operations generalizing s with
  | nil => cases h
  | cons operation rest ih =>
    unfold Stage.trail at h
    split at h
    · rcases List.mem_cons.mp h with rfl | hlater
      · exact List.mem_cons_self
      · exact List.mem_cons_of_mem _ (ih hlater)
    · cases h

/-- A run whose traces are fed by the engine alone stages nothing from outside. -/
theorem not_since_stages {s : Stage C R} {operations : List Operation}
    (h : ∀ operation ∈ operations, operation.stages = false) :
    ¬Since Passage.Stages (s.trail operations) := by
  rintro ⟨earlier, q, later, htrail, hstages, -⟩
  have hq : q ∈ s.trail operations := by simp [htrail]
  rw [Passage.Stages, h q.operation (operation_mem_of_mem_trail hq)] at hstages
  cases hstages

/-- A generator after a step that emits nothing. -/
def GeneratorSlot.Skips (clock : Time.Clock) (now : Time.Instant) (slot slot' : GeneratorSlot) :
    Prop :=
  slot'.variableId = slot.variableId ∧
    slot.generator.step clock now = .done (none, slot'.generator)

/-- Generators that emit nothing advance alone. -/
theorem advance_skips {clock : Time.Clock} {now : Time.Instant} {slots : List GeneratorSlot}
    (h : ∀ slot ∈ slots, ∃ g, slot.generator.step clock now = .done (none, g)) (a : Advance) :
    ∃ slots', List.Forall₂ (GeneratorSlot.Skips clock now) slots slots' ∧
      advance clock now slots a = .done { a with generators := a.generators ++ slots' } := by
  induction slots generalizing a with
  | nil => exact ⟨[], .nil, by rw [advance, List.append_nil]⟩
  | cons slot rest ih =>
    obtain ⟨g, hstep⟩ := h slot List.mem_cons_self
    have hothers := fun other hother => h other (List.mem_cons_of_mem _ hother)
    obtain ⟨slots', hskips, hrest⟩ := ih hothers
      { a with generators := a.generators ++ [{ slot with generator := g }] }
    refine ⟨{ slot with generator := g } :: slots', .cons ⟨rfl, hstep⟩ hskips, ?_⟩
    rw [advance, hstep, Outcome.done_bind]
    dsimp only
    rw [hrest, List.append_assoc, List.singleton_append]

/-- Nothing is propagated without changed variables. -/
theorem propagate_nil (e : Engine C R) : propagate e [] = .done (Propagation.begin e []) := rfl

/-- Without changed variables a tick leaves a trace that rests. -/
theorem feed_of_rests {t : TraceUnit} (h : t.buffer.Rests) (vars : List Variable)
    (now wall : Time.Instant) : t.feed vars [] now wall = t := by
  have hstaged : t.staged vars [] now = t.buffer := by
    unfold TraceUnit.staged TraceUnit.feedHorizontal
    cases t.horizontal <;> rfl
  rw [feed_eq, hstaged, h.commit wall]

/-- Without changed variables a tick leaves traces that rest. -/
theorem State.Rests.feed {s : State C} (h : s.Rests) (wall : Time.Instant) :
    s.feed [] wall = s := by
  have htraces : (s.traces.map fun t => t.feed s.vars [] s.now wall) = s.traces :=
    List.map_congr_left (fun t ht => feed_of_rests (h t ht) s.vars s.now wall) |>.trans
      (List.map_id' s.traces)
  rw [State.feed, htraces]

/-- The stage after a tick at which nothing happened: its time and generators. -/
def Stage.afterIdle (s : Stage C R) (now : Time.Instant) (generators : List GeneratorSlot) :
    Stage C R :=
  { s with engine := s.engine.withState { s.engine.state with now, generators } }

/-- The preparation of a tick without anything to do. -/
theorem prepare_of_rests {s : Stage C R} {clock : Time.Clock} {now : Time.Instant}
    {generators : List GeneratorSlot} (hrests : s.engine.state.Rests)
    (hpending : s.engine.state.pending = []) (hfresh : s.engine.state.fresh = [])
    (hchanged : s.engine.state.changed = false)
    (hnow : Time.instantAt s.engine.state.epoch clock = .done now)
    (hadvance : advance clock now s.engine.state.generators { vars := s.engine.state.vars } =
      .done { vars := s.engine.state.vars, generators }) (wall : Time.Instant) :
    s.prepare clock wall = .done ⟨s.afterIdle now generators, [], [], [], []⟩ := by
  have hbegin : s.engine.beginTick { vars := s.engine.state.vars, generators } now =
      (s.afterIdle now generators).engine := by
    unfold beginTick Stage.afterIdle
    dsimp only
    rw [← hpending, ← hchanged]
  have hstill : (s.afterIdle now generators).engine.state.Rests := hrests
  have hdue : (s.afterIdle now generators).engine.state.due [] = [] := hfresh
  have hclean : { (s.afterIdle now generators).engine.state with fresh := [] } =
      (s.afterIdle now generators).engine.state := by
    rw [← hfresh]
    rfl
  unfold Stage.prepare
  dsimp only
  rw [hnow, Outcome.done_bind, hadvance, Outcome.done_bind]
  dsimp only [List.foldl_nil]
  rw [hpending, hbegin, propagate_nil, Outcome.done_bind]
  dsimp only [Propagation.begin]
  rw [hstill.feed wall, hdue, hclean]
  rfl

/-- A tick without anything to do moves the time of the display and the
schedules of its generators. -/
theorem tick_of_rests {s : Stage C R} {clock : Time.Clock} {now : Time.Instant}
    (hrests : s.engine.state.Rests) (hpending : s.engine.state.pending = [])
    (hfresh : s.engine.state.fresh = []) (hchanged : s.engine.state.changed = false)
    (hquiet : ∀ slot ∈ s.engine.state.generators,
      ∃ g, slot.generator.step clock now = .done (none, g))
    (hnow : Time.instantAt s.engine.state.epoch clock = .done now) (wall : Time.Instant) :
    ∃ generators,
      List.Forall₂ (GeneratorSlot.Skips clock now) s.engine.state.generators generators ∧
      s.tick clock wall = .done (s.afterIdle now generators, ⟨false, [], [], [], []⟩) := by
  obtain ⟨generators, hskips, hadvance⟩ := advance_skips hquiet { vars := s.engine.state.vars }
  have hprepare := prepare_of_rests hrests hpending hfresh hchanged hnow hadvance wall
  refine ⟨generators, hskips, tick_eq_done_iff.mpr ⟨_, [], hprepare, rfl, ?_⟩⟩
  rw [hchanged]
  rfl

/-- An idle tick of a display moves its time and the schedules of its
generators and reports nothing; beyond the calendar it ends the program. So a
tick that returns leaves all variables, traces, widgets, failures and messages
as they were. -/
theorem tick_idle {settings : Settings} {epoch : Time.Instant} {panel : Panel}
    {operations : List Operation} {answers : List Answer} {s : Stage C R} {clock : Time.Clock}
    (hrun : (Stage.mk (Engine.start C R settings epoch) panel).run operations =
      .done (answers, s))
    (hstages : ¬Since Passage.Stages
      ((Stage.mk (Engine.start C R settings epoch) panel).trail operations))
    (hpending : s.engine.state.pending = []) (hfresh : s.engine.state.fresh = [])
    (hchanged : s.engine.state.changed = false)
    (hquiet : ∀ slot ∈ s.engine.state.generators, ∃ g,
      slot.generator.step clock (s.engine.state.epoch + Time.offsetOf clock) = .done (none, g))
    (wall : Time.Instant) :
    (s.engine.state.epoch + Time.offsetOf clock ≤ Time.lastInstant → ∃ generators,
      List.Forall₂
        (GeneratorSlot.Skips clock (s.engine.state.epoch + Time.offsetOf clock))
        s.engine.state.generators generators ∧
      s.tick clock wall =
        .done (s.afterIdle (s.engine.state.epoch + Time.offsetOf clock) generators,
          ⟨false, [], [], [], []⟩)) ∧
    (Time.lastInstant < s.engine.state.epoch + Time.offsetOf clock →
      s.tick clock wall = .crash) := by
  have hstart := Session.start (C := C) (R := R) settings epoch panel
  have hrests := run_rests hstart hrun hstages fun _ t ht => nomatch ht
  constructor
  · intro hclock
    have hnow : Time.instantAt s.engine.state.epoch clock =
        .done (s.engine.state.epoch + Time.offsetOf clock) := if_pos hclock
    exact tick_of_rests hrests hpending hfresh hchanged hquiet hnow wall
  · intro hbeyond
    have hnow : Time.instantAt s.engine.state.epoch clock = .crash :=
      if_neg (Int.not_le.mpr hbeyond)
    unfold Stage.tick
    dsimp only
    rw [hnow]
    rfl

/-- A trace of two variables, the horizontal one written after its first point,
next to a ramp that emits every ten seconds. -/
def waitingRun : List Operation :=
  [.createTrace
      { vertical := "loc://y(2)", horizontal := some "loc://x(1)"
        settings := { mode := .both, horizontal := .variable } },
    .create "sim://ramp(0,5,1,10)", .tick 0 0, .setValue "loc://x" (.number 3), .tick 1 0]

/-- A horizontal value that waits for a vertical one is no point of an idle
tick. -/
theorem tick_idle_waiting : ∃ answers s generators,
    (bareStage []).run waitingRun = .done (answers, s) ∧
      (∃ t ∈ s.engine.state.traces, t.buffer.xFresh = true ∧ t.buffer.ring.size = 1) ∧
      s.engine.state.generators.length = 1 ∧
      s.tick 2 0 = .done (s.afterIdle 2 generators, ⟨false, [], [], [], []⟩) := by
  obtain ⟨⟨answers, s⟩, hrun, hcheck⟩ := done_of_any
    (fun reached : List Answer × BundledStage =>
      (reached.2.engine.state.traces.any fun t => t.buffer.xFresh && t.buffer.ring.size == 1) &&
        (reached.2.engine.state.generators.length == 1 &&
          ((reached.2.engine.state.pending.isEmpty && reached.2.engine.state.fresh.isEmpty) &&
            (!reached.2.engine.state.changed &&
              (decide (reached.2.engine.state.epoch = 0) &&
                reached.2.engine.state.generators.all fun slot =>
                  (slot.generator.step 2 (0 + Time.offsetOf 2)).value?.any
                    fun stepped => stepped.1.isNone)))))
    (show ((bareStage []).run waitingRun).value?.any _ = true by decide +kernel)
  simp only [Bool.and_eq_true, List.any_eq_true, beq_iff_eq, decide_eq_true_eq,
    List.isEmpty_iff, Bool.not_eq_true', List.all_eq_true] at hcheck
  obtain ⟨htrace, hlength, ⟨hpending, hfresh⟩, hchanged, hepoch, hquiet⟩ := hcheck
  have hskips : ∀ slot ∈ s.engine.state.generators, ∃ g,
      slot.generator.step 2 (s.engine.state.epoch + Time.offsetOf 2) = .done (none, g) := by
    intro slot hslot
    obtain ⟨⟨sample, g⟩, hstep, hnone⟩ := done_of_any _ (hquiet slot hslot)
    obtain rfl : sample = none := Option.isNone_iff_eq_none.mp hnone
    rw [hepoch]
    exact ⟨g, hstep⟩
  have hidle := tick_idle (run_bareStage hrun) (not_since_stages (by decide)) hpending hfresh
    hchanged hskips 0
  rw [hepoch] at hidle
  obtain ⟨generators, -, htick⟩ := hidle.1 (by decide)
  exact ⟨answers, s, generators, hrun, htrace, hlength, htick⟩

/-- An idle tick beyond the calendar ends the program. -/
theorem tick_idle_crashes : ∃ answers s,
    (bareStage []).run [.create "loc://x"] = .done (answers, s) ∧
      s.engine.state.traces = [] ∧ s.engine.state.pending = [] ∧
      s.engine.state.fresh = [] ∧ s.engine.state.changed = false ∧
      s.engine.state.generators = [] ∧
      s.tick (9000000000000000000 * Time.nanosPerMilli) 0 = .crash := by
  obtain ⟨⟨answers, s⟩, hrun, hcheck⟩ := done_of_any
    (fun reached : List Answer × BundledStage =>
      (reached.2.engine.state.traces.isEmpty && reached.2.engine.state.generators.isEmpty) &&
      ((reached.2.engine.state.pending.isEmpty && reached.2.engine.state.fresh.isEmpty) &&
        (!reached.2.engine.state.changed &&
          (reached.2.tick (9000000000000000000 * Time.nanosPerMilli) 0).value?.isNone)))
    (show ((bareStage []).run [.create "loc://x"]).value?.any _ = true by decide +kernel)
  simp only [Bool.and_eq_true, List.isEmpty_iff, Bool.not_eq_true'] at hcheck
  obtain ⟨⟨htraces, hgenerators⟩, ⟨hpending, hfresh⟩, hchanged, hcrash⟩ := hcheck
  exact ⟨answers, s, hrun, htraces, hpending, hfresh, hchanged, hgenerators,
    eq_crash_of_isNone hcrash⟩

end ProcessDisplay.Engine
