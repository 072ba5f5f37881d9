import Mathlib.Tactic.Common
import ProcessDisplay.Proofs.NameIdentity
import ProcessDisplay.Proofs.RedrawFlag
import ProcessDisplay.Proofs.RegistryIntegrity
import ProcessDisplay.Proofs.TracePoints

/-!
# Traces that are fed by ticks

A tick feeds every trace once, from what its formulas left and before its
rules and scripts run; no other operation reaches the points of a trace
except an edit from outside. So the points of a trace that nobody edits are
those of what it observed of its vertical variable along the run.
-/

namespace ProcessDisplay.Engine

open Trace

variable {C : FormulaCompiler} {R : ScriptInterpreter}

/-- What can be observed of a variable among changed ones: its number and its
time, if it is one of them and has a value that is no array. -/
def observe (id : VariableId) (vars : List Variable) (dirty : VariableSet)
    (now wall : Time.Instant) : Option Observation :=
  if dirty.contains id then
    match vars[id]? with
    | some v =>
      match v.value with
      | some value =>
        if value.isArray then none else some ⟨value.toNumber, v.time.getD now, wall⟩
      | none => none
    | none => none
  else none

/-- A horizontal value is staged apart from the points and the vertical value. -/
theorem feedHorizontal_eq (t : TraceUnit) (vars : List Variable) (dirty : VariableSet) :
    ∃ x xFresh xArray,
      t.feedHorizontal vars dirty = { t.buffer with x, xFresh, xArray } := by
  unfold TraceUnit.feedHorizontal
  split
  · exact ⟨_, _, _, rfl⟩
  · split
    · split
      · next value _ => cases value <;> exact ⟨_, _, _, rfl⟩
      · exact ⟨_, _, _, rfl⟩
    · exact ⟨_, _, _, rfl⟩

/-- A vertical value that is no array is staged as an observation. -/
theorem stageY_scalar (b : Buffer) {value : Value} (hscalar : value.isArray = false)
    (time wall : Time.Instant) :
    b.stageY value time = b.stage ⟨value.toNumber, time, wall⟩ := by
  cases value with
  | array xs => cases hscalar
  | _ => rfl

/-- An array is staged apart from the points. -/
theorem stageY_array (b : Buffer) {value : Value} (harray : value.isArray = true)
    (time : Time.Instant) : ∃ yArray, b.stageY value time = { b with yArray } := by
  cases value with
  | array xs => exact ⟨_, rfl⟩
  | _ => cases harray

/-- A trace before the commit of a tick. -/
def TraceUnit.staged (t : TraceUnit) (vars : List Variable) (dirty : VariableSet)
    (now : Time.Instant) : Buffer :=
  let b := t.feedHorizontal vars dirty
  if dirty.contains t.vertical then
    match vars[t.vertical]? with
    | some v =>
      match v.value with
      | some value => b.stageY value (v.time.getD now)
      | none => b
    | none => b
  else b

/-- A tick stages and commits. -/
theorem feed_eq (t : TraceUnit) (vars : List Variable) (dirty : VariableSet)
    (now wall : Time.Instant) :
    t.feed vars dirty now wall = { t with buffer := ((t.staged vars dirty now).commit wall).1 } :=
  rfl

/-- A tick stages an observation of the vertical variable, or there is none and
the vertical value stays as it was. -/
theorem staged_cases (t : TraceUnit) (vars : List Variable) (dirty : VariableSet)
    (now wall : Time.Instant) :
    (∃ x xFresh xArray yArray,
      t.staged vars dirty now = { t.buffer with x, xFresh, xArray, yArray } ∧
        observe t.vertical vars dirty now wall = none) ∨
      ∃ x xFresh xArray o,
        t.staged vars dirty now = Buffer.stage { t.buffer with x, xFresh, xArray } o ∧
          observe t.vertical vars dirty now wall = some o ∧ o.wall = wall := by
  obtain ⟨x, xFresh, xArray, hb⟩ := feedHorizontal_eq t vars dirty
  unfold TraceUnit.staged observe
  dsimp only
  rw [hb]
  by_cases hdirty : dirty.contains t.vertical = true
  · rw [if_pos hdirty, if_pos hdirty]
    cases vars[t.vertical]? with
    | none => exact Or.inl ⟨x, xFresh, xArray, _, rfl, rfl⟩
    | some v =>
      dsimp only
      cases v.value with
      | none => exact Or.inl ⟨x, xFresh, xArray, _, rfl, rfl⟩
      | some value =>
        dsimp only
        by_cases harray : value.isArray = true
        · obtain ⟨yArray, hstaged⟩ :=
            stageY_array { t.buffer with x, xFresh, xArray } harray (v.time.getD now)
          exact Or.inl ⟨x, xFresh, xArray, yArray, hstaged, if_pos harray⟩
        · have hscalar := stageY_scalar { t.buffer with x, xFresh, xArray }
            (Bool.eq_false_iff.mpr harray) (v.time.getD now) wall
          exact Or.inr ⟨x, xFresh, xArray, _, hscalar, if_neg harray, rfl⟩
  · rw [if_neg hdirty, if_neg hdirty]
    exact Or.inl ⟨x, xFresh, xArray, _, rfl, rfl⟩

/-- A tick feeds all traces from what its formulas left. -/
theorem Ticked.traces {s s' : Stage C R} {clock : Time.Clock} {wall : Time.Instant}
    {report : TickReport} {p : Prepared C R} (h : Ticked s s' clock wall report p)
    (hs : s.engine.state.WellFormed) :
    s'.engine.state.traces = s.engine.state.traces.map fun t =>
      t.feed p.stage.engine.state.vars p.dirty p.stage.engine.state.now wall := by
  have hran : s'.engine.state.traces = p.stage.engine.state.traces := by rw [h.runs.untouched]
  obtain ⟨now, generators, hframe⟩ := frame_of_prepare hs h.prepared
  have hnow : p.stage.engine.state.now = now := by rw [hframe]
  have hfed := congrArg (fun e : Engine C R => e.state.traces) hframe
  rw [hran, hnow]
  exact hfed

/-- Except in ticks and edits traces stay until a reset, and one that is new
comes behind the others and is empty. -/
theorem Transition.traces_cases {s s' : Stage C R} {entry : Operation × Answer}
    (h : Transition s entry s') (hs : s.engine.state.WellFormed)
    (hkind : entry.1.isAside = false) (hsettles : entry.1.settles = false) :
    s'.engine.state.traces = s.engine.state.traces ∨
      ∃ t settings, t.buffer = Buffer.empty settings ∧
        s'.engine.state.traces = s.engine.state.traces ++ [t] := by
  cases h with
  | @refused operation answer declared memory hrefused hdeclares hmemory =>
    have hsame : (s.engine.state.redeclareAll declared).traces = s.engine.state.traces := by
      rw [s.engine.state.untouched_redeclareAll declared]
    exact .inl hsame
  | created h hlocated => exact .inl (h.traces hs).1
  | attached hfree => exact .inl rfl
  | written hwrite =>
    obtain ⟨v, -, -, rfl⟩ := State.write_eq_ok_iff.mp hwrite
    exact .inl rfl
  | ruled hcompiled h hlocated => exact .inl (h.traces hs).1
  | scripted h hlocated => exact .inl (h.traces hs).1
  | @traced request ids e₁ h hlocated =>
    refine .inr ⟨_, request.settings, ?_, congrArg (· ++ [_]) (h.traces hs).1⟩
    rfl
  | ticked h => cases hsettles
  | reset => cases hsettles
  | aside haside hsettings hmemory hstate hcoordinates =>
    rw [haside] at hkind
    cases hkind

end ProcessDisplay.Engine
