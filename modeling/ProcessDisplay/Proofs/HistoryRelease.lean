import Mathlib.Tactic.Common
import ProcessDisplay.Proofs.EditLogs
import ProcessDisplay.Proofs.TraceFeeding

/-!
# Histories are disconnected once

A trace owns at most one history. It lets go of it where another one replaces
it, where it is detached, and where the trace is dropped, and of nothing else
at any time. So what was attached is what was disconnected together with what
is still held, at every moment of a run over any number of traces; nothing is
held after a reset, and a drop disconnects the rest.
-/

namespace ProcessDisplay

namespace Trace

/-- The history that an edit attaches. -/
def Edit.history? : Edit → Option History
  | attach history => some history
  | _ => none

/-- The histories that edits attach, in order. -/
def attached (edits : List Edit) : List History := edits.filterMap Edit.history?

namespace Buffer

/-- The histories that a trace lets go of in edits, in order. -/
def releasedIn (b : Buffer) : List Edit → List History
  | [] => []
  | edit :: rest => (b.edit edit).released ++ (b.edit edit).buffer.releasedIn rest

variable (b : Buffer) (edit : Edit)

/-- An edit lets go of the history that is held if it replaces or detaches it,
and of none otherwise. -/
theorem edit_released :
    (b.edit edit).released = if edit.isHistorical then b.history.toList else [] := by
  cases edit <;> rfl

/-- A point keeps the history. -/
theorem withPoint_history (point : Option Point) :
    (b.withPoint point).history = b.history := by
  cases point <;> rfl

/-- Staging keeps the history. -/
theorem staged_history (h : edit.isHistorical = false) :
    (b.staged edit).history = b.history := by
  cases edit with
  | stageX value | updateX value | stageY value | updateY value => cases value <;> rfl
  | commit | clear => rfl
  | attach | detach => cases h

/-- The history after an edit is the one that it attaches, or none if it
detaches, or the one before. -/
theorem edit_history :
    (b.edit edit).buffer.history = if edit.isHistorical then edit.history? else b.history := by
  cases h : edit.isHistorical with
  | true =>
    cases edit with
    | attach | detach => rfl
    | _ => cases h
  | false =>
    rw [if_neg Bool.false_ne_true, edit_buffer, withPoint_history, staged_history b edit h]

/-- What a trace held and what an edit attached is what the edit let go of and
what the trace holds after it. -/
theorem release_edit :
    b.release ++ edit.history?.toList = (b.edit edit).released ++ (b.edit edit).buffer.release := by
  unfold release
  rw [edit_released, edit_history]
  cases h : edit.isHistorical with
  | true => rfl
  | false =>
    have hnone : edit.history? = none := by
      cases edit with
      | attach => cases h
      | _ => rfl
    simp [hnone]

/-- What a trace held and what edits attached is what the edits let go of and
what the trace holds after them, in this order. -/
theorem release_run (edits : List Edit) :
    b.release ++ attached edits = b.releasedIn edits ++ (b.run edits).release := by
  induction edits generalizing b with
  | nil => simp [attached, releasedIn, run]
  | cons edit rest ih =>
    have hattached : attached (edit :: rest) = edit.history?.toList ++ attached rest := by
      unfold attached
      cases edit <;> rfl
    have hrun : b.run (edit :: rest) = (b.edit edit).buffer.run rest := rfl
    rw [hattached, ← List.append_assoc, release_edit, List.append_assoc, ih, releasedIn, hrun,
      List.append_assoc]

end Buffer

end Trace

namespace Engine

open Trace

variable {C : FormulaCompiler} {R : ScriptInterpreter}

/-- The histories that some traces hold. -/
def heldBy (traces : List TraceUnit) : List History :=
  traces.flatMap fun unit => unit.buffer.history.toList

/-- The histories that the traces of an engine hold. -/
def held (e : Engine C R) : List History := heldBy e.state.traces

/-- The histories to be disconnected when an engine is dropped: all of its
traces are dropped. -/
def dropped (e : Engine C R) : List History :=
  e.state.traces.flatMap fun unit => unit.buffer.release

/-- The histories that were attached to traces and those that were
disconnected. -/
structure HistoryLedger where
  /-- The histories that were attached. -/
  attached : List History := []
  /-- The histories that were disconnected. -/
  disconnected : List History := []

namespace HistoryLedger

/-- The histories that an operation attached, by its answer: there is nothing
to attach to where there is no trace. -/
def attaches : Operation × Answer → List History
  | (.editTrace _ edit, .edited (some _)) => edit.history?.toList
  | _ => []

/-- The histories that an answer says to disconnect. -/
def disconnects : Answer → List History
  | .edited (some edited) => edited.released
  | .released histories => histories
  | _ => []

/-- The ledger after an operation and its answer. -/
def enter (l : HistoryLedger) (entry : Operation × Answer) : HistoryLedger :=
  ⟨l.attached ++ attaches entry, l.disconnected ++ disconnects entry.2⟩

/-- The ledger of a run of operations with their answers. -/
def ofRun (operations : List Operation) (answers : List Answer) : HistoryLedger :=
  (operations.zip answers).foldl enter {}

/-- What was attached is what was disconnected and what is still held. -/
def Balances (l : HistoryLedger) (held : List History) : Prop :=
  l.attached.Perm (l.disconnected ++ held)

/-- Of distinct histories each one that is no longer held was disconnected
once, and the others were not. -/
theorem Balances.count_disconnected {l : HistoryLedger} {held : List History}
    (h : l.Balances held) (hdistinct : l.attached.Nodup) {history : History}
    (hattached : history ∈ l.attached) :
    l.disconnected.count history = if history ∈ held then 0 else 1 := by
  have hone := List.count_eq_one_of_mem hdistinct hattached
  rw [h.count_eq, List.count_append] at hone
  by_cases hheld : history ∈ held
  · have hsome := List.count_pos_iff.mpr hheld
    rw [if_pos hheld]
    omega
  · have hnone := List.count_eq_zero_of_not_mem hheld
    rw [if_neg hheld]
    omega

end HistoryLedger

open scoped List in
/-- The histories of traces one of which was edited. -/
theorem heldBy_set {traces : List TraceUnit} {i : Nat} {t : TraceUnit}
    (ht : traces[i]? = some t) (edit : Edit) :
    (heldBy traces ++ edit.history?.toList).Perm ((t.buffer.edit edit).released ++
      heldBy (traces.set i { t with buffer := (t.buffer.edit edit).buffer })) := by
  obtain ⟨hi, rfl⟩ := List.getElem?_eq_some_iff.mp ht
  -- the edited trace comes first, and the others do not matter
  have hbefore : (heldBy traces).Perm
      (traces[i].buffer.release ++ heldBy (traces.eraseIdx i)) :=
    (List.getElem_cons_eraseIdx_perm hi).symm.flatMap_right _
  have hafter : (heldBy (traces.set i { traces[i] with
      buffer := (traces[i].buffer.edit edit).buffer })).Perm
      ((traces[i].buffer.edit edit).buffer.release ++ heldBy (traces.eraseIdx i)) :=
    (List.set_perm_cons_eraseIdx hi _).flatMap_right _
  have hone := traces[i].buffer.release_edit edit
  generalize heldBy (traces.eraseIdx i) = others at *
  calc heldBy traces ++ edit.history?.toList
    _ ~ traces[i].buffer.release ++ others ++ edit.history?.toList := hbefore.append_right _
    _ ~ traces[i].buffer.release ++ edit.history?.toList ++ others := by
      rw [List.append_assoc, List.append_assoc]
      exact List.perm_append_comm.append_left _
    _ ~ (traces[i].buffer.edit edit).released ++
        ((traces[i].buffer.edit edit).buffer.release ++ others) := by
      rw [hone, List.append_assoc]
    _ ~ _ := hafter.symm.append_left _

/-- A tick keeps the history of a trace. -/
theorem feed_history (t : TraceUnit) (vars : List Variable) (dirty : VariableSet)
    (now wall : Time.Instant) :
    (t.feed vars dirty now wall).buffer.history = t.buffer.history := by
  have hstaged : (t.staged vars dirty now).history = t.buffer.history := by
    rcases staged_cases t vars dirty now wall with
      ⟨x, xFresh, xArray, yArray, hstaged, -⟩ | ⟨x, xFresh, xArray, o, hstaged, -⟩ <;>
      exact hstaged ▸ rfl
  rw [feed_eq, Buffer.commit_eq, Buffer.withPoint_history, hstaged]

/-- A tick keeps the histories of all traces. -/
theorem held_of_tick {s s' : Stage C R} {clock : Time.Clock} {wall : Time.Instant}
    {report : TickReport} (hs : s.engine.state.WellFormed)
    (h : s.tick clock wall = .done (s', report)) : held s'.engine = held s.engine := by
  obtain ⟨p, hticked⟩ := ticked_of_tick hs h
  unfold held heldBy
  rw [hticked.traces hs, List.flatMap_map]
  exact congrArg (List.flatMap · _) (funext fun t => by rw [feed_history])

/-- New traces hold no history. -/
theorem held_of_transition {s s' : Stage C R} {entry : Operation × Answer}
    (h : Transition s entry s') (hs : s.engine.state.WellFormed)
    (hkind : entry.1.isAside = false) (hsettles : entry.1.settles = false) :
    held s'.engine = held s.engine := by
  unfold held
  rcases h.traces_cases hs hkind hsettles with hsame | ⟨t, settings, hempty, hbehind⟩
  · rw [hsame]
  · have hnone : heldBy [t] = [] := by simp [heldBy, hempty, Buffer.empty]
    rw [hbehind, heldBy, List.flatMap_append, ← heldBy, ← heldBy, hnone, List.append_nil]

/-- No trace is edited where there is none. -/
theorem editTrace_of_none {s : Stage C R} {trace : Nat} {edit : Edit}
    (ht : s.engine.state.traces[trace]? = none) : s.editTrace trace edit = (none, s) := by
  simp only [Stage.editTrace, ht]

/-- A trace is edited where it is. -/
theorem editTrace_of_some {s : Stage C R} {trace : Nat} {edit : Edit} {t : TraceUnit}
    (ht : s.engine.state.traces[trace]? = some t) :
    s.editTrace trace edit = (some (t.buffer.edit edit), { s with
      engine := s.engine.withState { s.engine.state with
        traces := s.engine.state.traces.set trace
          { t with buffer := (t.buffer.edit edit).buffer } } }) := by
  simp only [Stage.editTrace, ht]

/-- One operation keeps the balance of the histories. -/
theorem held_of_perform {s s' : Stage C R} {operation : Operation} {answer : Answer}
    (hs : s.engine.state.WellFormed) (h : s.perform operation = .done (answer, s')) :
    (held s.engine ++ HistoryLedger.attaches (operation, answer)).Perm
      (HistoryLedger.disconnects answer ++ held s'.engine) := by
  have hkept : held s'.engine = held s.engine → HistoryLedger.attaches (operation, answer) = [] →
      HistoryLedger.disconnects answer = [] →
      (held s.engine ++ HistoryLedger.attaches (operation, answer)).Perm
        (HistoryLedger.disconnects answer ++ held s'.engine) := by
    intro hheld hattaches hdisconnects
    rw [hheld, hattaches, hdisconnects, List.append_nil, List.nil_append]
  cases operation with
  | editTrace trace edit =>
    obtain ⟨rfl, rfl⟩ : _ = answer ∧ (s.editTrace trace edit).2 = s' := by
      simpa [Stage.perform] using h
    cases ht : s.engine.state.traces[trace]? with
    | none =>
      rw [editTrace_of_none ht] at hkept ⊢
      exact hkept rfl rfl rfl
    | some t =>
      rw [editTrace_of_some ht]
      exact heldBy_set ht edit
  | reset epoch =>
    obtain ⟨rfl, rfl⟩ : _ = answer ∧ _ = s' := by simpa [Stage.perform] using h
    exact .refl _
  | tick clock wall =>
    obtain ⟨⟨after, report⟩, htick, h⟩ := Outcome.bind_eq_done_iff.mp h
    obtain ⟨rfl, rfl⟩ : Answer.ticked report = answer ∧ after = s' := by simpa using h
    exact hkept (held_of_tick hs htick) rfl rfl
  | assign widget property value =>
    obtain ⟨rfl, rfl⟩ : _ = answer ∧ (s.assign widget property value).2 = s' := by
      simpa [Stage.perform] using h
    refine hkept ?_ rfl rfl
    unfold Stage.assign
    split <;> rfl
  | takeErrors =>
    obtain ⟨rfl, rfl⟩ : _ = answer ∧ _ = s' := by simpa [Stage.perform] using h
    exact hkept rfl rfl rfl
  | takeMessages =>
    obtain ⟨rfl, rfl⟩ : _ = answer ∧ _ = s' := by simpa [Stage.perform] using h
    exact hkept rfl rfl rfl
  | create | registerGenerator | setValue | addRule | addScript | createTrace =>
    have hheld := held_of_transition (transition_of_perform hs h) hs rfl rfl
    obtain ⟨result, e', -, rfl, -⟩ := act_eq_done h
    exact hkept hheld rfl rfl

/-- Operations keep the balance of the histories. -/
theorem balances_of_run {j : Journal} {s s' : Stage C R} {operations : List Operation}
    {answers : List Answer} (hsession : Session C R j s)
    (hrun : s.run operations = .done (answers, s')) {l : HistoryLedger}
    (h : l.Balances (held s.engine)) :
    ((operations.zip answers).foldl HistoryLedger.enter l).Balances (held s'.engine) := by
  induction operations generalizing j s answers l with
  | nil =>
    obtain ⟨rfl, rfl⟩ := run_nil_eq_done_iff.mp hrun
    exact h
  | cons operation rest ih =>
    obtain ⟨answer, s₁, more, hfirst, hrest, rfl⟩ := run_cons_eq_done_iff.mp hrun
    have hstep := held_of_perform hsession.wellFormed hfirst
    refine ih (hsession.step hfirst) hrest ?_
    unfold HistoryLedger.Balances HistoryLedger.enter
    dsimp only
    rw [List.append_assoc]
    refine (h.append_right _).trans ?_
    rw [List.append_assoc]
    exact hstep.append_left _

/-- Nothing is held after a run that ends in a reset. -/
theorem held_of_run_reset {s s' : Stage C R} {earlier : List Operation} {epoch : Time.Instant}
    {answers : List Answer} (h : s.run (earlier ++ [.reset epoch]) = .done (answers, s')) :
    held s'.engine = [] := by
  induction earlier generalizing s answers with
  | nil =>
    obtain ⟨answer, s₁, more, hfirst, hrest, -⟩ := run_cons_eq_done_iff.mp h
    obtain ⟨-, rfl⟩ := run_nil_eq_done_iff.mp hrest
    obtain ⟨-, rfl⟩ : _ = answer ∧ _ = s₁ := by simpa [Stage.perform] using hfirst
    rfl
  | cons operation rest ih =>
    obtain ⟨answer, s₁, more, -, hrest, -⟩ := run_cons_eq_done_iff.mp h
    exact ih hrest

/-- Histories are disconnected exactly once. An edit of a trace lets go of the
history that is held where it replaces or detaches it and of none otherwise,
so the histories that edits of a trace attached are, in this order, those that
the edits let go of and the one that the drop of the trace lets go of. In a
run over any number of traces what was attached is at every moment what was
disconnected and what is still held: of distinct histories one that is held
was never disconnected, any other one once, and after a reset or a drop of the
engine this is so for all of them. -/
theorem histories_disconnected_once :
    (∀ (b : Buffer) (edit : Edit),
      (b.edit edit).released = if edit.isHistorical then b.history.toList else []) ∧
    (∀ (settings : Trace.Settings) (edits : List Edit),
      attached edits = (Buffer.empty settings).releasedIn edits ++
        ((Buffer.empty settings).run edits).release) ∧
    ∀ (settings : Settings) (epoch : Time.Instant) (panel : Panel) (operations : List Operation)
      (answers : List Answer) (s : Stage C R),
      (Stage.mk (Engine.start C R settings epoch) panel).run operations = .done (answers, s) →
      let ledger := HistoryLedger.ofRun operations answers
      ledger.attached.Perm (ledger.disconnected ++ held s.engine) ∧
      ledger.attached.Perm (ledger.disconnected ++ dropped s.engine) ∧
      (∀ earlier last, operations = earlier ++ [.reset last] →
        ledger.attached.Perm ledger.disconnected) ∧
      (ledger.attached.Nodup → ∀ history ∈ ledger.attached,
        ledger.disconnected.count history = (if history ∈ held s.engine then 0 else 1) ∧
        (ledger.disconnected ++ dropped s.engine).count history = 1) := by
  refine ⟨fun b edit => b.edit_released edit, fun settings edits => ?_, ?_⟩
  · exact (Buffer.empty settings).release_run edits
  · intro settings epoch panel operations answers s hrun
    have hbalances : (HistoryLedger.ofRun operations answers).Balances (held s.engine) :=
      balances_of_run (.start settings epoch panel) hrun (.refl [])
    refine ⟨hbalances, hbalances, ?_, fun hdistinct history hattached => ⟨?_, ?_⟩⟩
    · rintro earlier last rfl
      have hnone := held_of_run_reset hrun
      rw [HistoryLedger.Balances, hnone, List.append_nil] at hbalances
      exact hbalances
    · exact hbalances.count_disconnected hdistinct hattached
    · exact hbalances.count_eq history ▸ List.count_eq_one_of_mem hdistinct hattached

/-- A history of one point. -/
def pastOf (id : Nat) : History := ⟨id, [⟨none, 0.0⟩]⟩

/-- Two traces with histories, of which the first one is replaced and the
second one detached; clearing and ticking keep the other one. -/
def historyRun : List Operation :=
  [.createTrace { vertical := "loc://a(0)" }, .createTrace { vertical := "loc://b(0)" },
    .editTrace 0 (.attach (pastOf 1)), .editTrace 1 (.attach (pastOf 2)),
    .editTrace 0 (.attach (pastOf 3)), .editTrace 0 .clear, .tick 0 0, .editTrace 1 .detach]

/-- The replaced history and the detached one were disconnected once, the other
one is first disconnected by a drop. -/
theorem histories_disconnected_once_replaced : ∃ answers s,
    (bareStage []).run historyRun = .done (answers, s) ∧
      (HistoryLedger.ofRun historyRun answers).attached = [pastOf 1, pastOf 2, pastOf 3] ∧
      (HistoryLedger.ofRun historyRun answers).attached.Nodup ∧ held s.engine = [pastOf 3] ∧
      (HistoryLedger.ofRun historyRun answers).disconnected.count (pastOf 1) = 1 ∧
      (HistoryLedger.ofRun historyRun answers).disconnected.count (pastOf 2) = 1 ∧
      (HistoryLedger.ofRun historyRun answers).disconnected.count (pastOf 3) = 0 ∧
      ((HistoryLedger.ofRun historyRun answers).disconnected ++
        dropped s.engine).count (pastOf 3) = 1 := by
  obtain ⟨⟨answers, s⟩, hrun, hcheck⟩ := done_of_any
    (fun ran : List Answer × BundledStage =>
      decide ((HistoryLedger.ofRun historyRun ran.1).attached = [pastOf 1, pastOf 2, pastOf 3] ∧
        held ran.2.engine = [pastOf 3]))
    (show ((bareStage []).run historyRun).value?.any _ = true by decide +kernel)
  obtain ⟨hattached, hheld⟩ := of_decide_eq_true hcheck
  have hdistinct : (HistoryLedger.ofRun historyRun answers).attached.Nodup := by
    rw [hattached]
    decide
  obtain ⟨-, -, hruns⟩ := histories_disconnected_once (C := .expressions .standard {} 1000)
    (R := .bundled .standard {})
  obtain ⟨-, -, -, honce⟩ := hruns _ _ _ _ _ _ (run_bareStage hrun)
  have hone := honce hdistinct
  rw [hattached, hheld] at hone
  exact ⟨answers, s, hrun, hattached, hdistinct, hheld, (hone (pastOf 1) (by decide)).1,
    (hone (pastOf 2) (by decide)).1, (hone (pastOf 3) (by decide)).1,
    (hone (pastOf 3) (by decide)).2⟩

end Engine

end ProcessDisplay
