import Mathlib.Tactic.Common
import ProcessDisplay.Proofs.Ticks

/-!
# Writes of scripts

The writes of a script to variables of the display take effect one by one when
its turn is over. A write that is accepted sets the redraw flag and makes its
variable pending; one that is refused is recorded. So after the units of a
tick the flag says whether one of them was a script that wrote, and nothing is
pending without it.
-/

namespace ProcessDisplay.Engine

variable {C : FormulaCompiler} {R : ScriptInterpreter}

namespace Stage

/-- The units that run with the stages on which each of them has its turn. -/
def turns (s : Stage C R) : List UnitRef → List (Stage C R × UnitRef)
  | [] => []
  | unit :: rest =>
    (s, unit) ::
      match s.runUnit unit with
      | .done (after, _) => after.turns rest
      | .crash => []

/-- A unit is a script that writes at least one of its inputs which the
display may write. -/
def Writes (s : Stage C R) (unit : UnitRef) : Prop :=
  ∃ id script result context memory, unit = .script id ∧
    s.engine.state.scripts[id]? = some script ∧
    R.run s.engine.memory script.body
      { script := script.name, widget := s.panel.widget script.widget
        snapshots := s.engine.state.snapshots script.inputs } =
          .done ((result, context), memory) ∧
    ∃ write ∈ context.writes, ∃ p v, script.inputs[write.1]? = some p ∧
      s.engine.state.vars[p]? = some v ∧ v.isWritable = true

end Stage

/-- Nothing is pending without the flag. -/
def State.Flagged (s : State C) : Prop :=
  s.pending ≠ [] → s.changed = true

/-- A write to an input that the display may write. -/
def State.Accepts (s : State C) (inputs : List VariableId) (write : Nat × Value) : Prop :=
  ∃ p v, inputs[write.1]? = some p ∧ s.vars[p]? = some v ∧ v.isWritable = true

/-- Which writes are accepted depends on the kinds of variables, which moves keep. -/
theorem accepts_of_moves {s s' : State C} {touched : VariableId → Prop}
    (hmoves : Moves s.vars s'.vars touched) (hlength : s'.vars.length = s.vars.length)
    (inputs : List VariableId) (write : Nat × Value) :
    s'.Accepts inputs write ↔ s.Accepts inputs write := by
  have hsame : ∀ v w : Variable, v.Becomes w → (w.isWritable = true ↔ v.isWritable = true) := by
    intro v w hbecomes
    rcases hbecomes.kind with hk | ⟨hv, hw⟩
    · rw [Variable.isWritable, Variable.isWritable, hk]
    · exact ⟨fun _ => hv, fun _ => hw⟩
  constructor
  · rintro ⟨p, w, hp, hw, hwritable⟩
    obtain ⟨v, hv, hbecomes⟩ := hmoves.of_length_eq hlength hw
    exact ⟨p, v, hp, hv, (hsame v w hbecomes).mp hwritable⟩
  · rintro ⟨p, v, hp, hv, hwritable⟩
    obtain ⟨w, hw, hbecomes, -⟩ := hmoves p v hv
    exact ⟨p, w, hp, hw, (hsame v w hbecomes).mpr hwritable⟩

/-- A write replaces one variable by what a sample makes of it. -/
theorem sameShape_write {s s' : State C} {id : VariableId} {value : Value}
    (h : s.write id value = .ok s') : State.SameShape s s' := by
  obtain ⟨v, hv, -, rfl⟩ := State.write_eq_ok_iff.mp h
  have hset := State.SameShape.of_set hv (v.becomes_apply { value, time := s.now })
  exact hset.trans ⟨rfl, .refl _ _, rfl, rfl, rfl, rfl, rfl, rfl⟩

/-- A write of a script changes one variable at most, and sets the flag if it
is accepted. -/
theorem applyWrite_spec (label : String) (inputs : List VariableId) (e : Engine C R)
    (write : Nat × Value) :
    State.SameShape e.state (applyWrite label inputs e write).state ∧
      ((applyWrite label inputs e write).state.changed = true ↔
        e.state.changed = true ∨ e.state.Accepts inputs write) := by
  unfold applyWrite
  cases hp : inputs[write.1]? with
  | none =>
    have hnot : ¬e.state.Accepts inputs write := by
      rintro ⟨p, v, hfound, -⟩
      rw [hp] at hfound
      cases hfound
    exact ⟨.refl _, Or.inl, fun h => h.resolve_right hnot⟩
  | some p =>
    dsimp only
    cases hwrite : e.state.write p write.2 with
    | ok state =>
      refine ⟨sameShape_write hwrite, ?_⟩
      obtain ⟨v, hv, hwritable, rfl⟩ := State.write_eq_ok_iff.mp hwrite
      exact ⟨fun _ => Or.inr ⟨p, v, hp, hv, hwritable⟩, fun _ => rfl⟩
    | error failure =>
      have hnot : ¬e.state.Accepts inputs write := by
        rintro ⟨q, v, hfound, hv, hwritable⟩
        obtain rfl := Option.some.inj (hp.symm.trans hfound)
        have hok : ∃ state, e.state.write p write.2 = .ok state :=
          ⟨_, State.write_eq_ok_iff.mpr ⟨v, hv, hwritable, rfl⟩⟩
        obtain ⟨state, hstate⟩ := hok
        rw [hwrite] at hstate
        cases hstate
      exact ⟨.refl _, Or.inl, fun h => h.resolve_right hnot⟩

/-- The writes of a script set the flag if one of them is accepted. -/
theorem applyWrites_spec (label : String) (inputs : List VariableId)
    (writes : List (Nat × Value)) (e : Engine C R) :
    State.SameShape e.state (writes.foldl (applyWrite label inputs) e).state ∧
      ((writes.foldl (applyWrite label inputs) e).state.changed = true ↔
        e.state.changed = true ∨ ∃ write ∈ writes, e.state.Accepts inputs write) := by
  induction writes generalizing e with
  | nil => exact ⟨.refl _, by simp⟩
  | cons first rest ih =>
    obtain ⟨hshape, hfirst⟩ := applyWrite_spec label inputs e first
    obtain ⟨hrest, hchanged⟩ := ih (applyWrite label inputs e first)
    have haccepts := fun write => accepts_of_moves hshape.moves hshape.length inputs write
    refine ⟨hshape.trans hrest, ?_⟩
    rw [List.foldl_cons, hchanged, hfirst]
    simp only [haccepts, List.mem_cons, or_assoc, exists_eq_or_imp]

/-- A rule leaves the flag alone. -/
theorem runRule_state {s s' : Stage C R} {unit : RuleUnit} {snapshots : List Snapshot}
    (h : s.runRule unit snapshots = .done s') : s'.engine.state = s.engine.state := by
  obtain ⟨result, -, h⟩ := Outcome.bind_eq_done_iff.mp h
  cases result with
  | ok widget =>
    obtain rfl := Outcome.done.inj h
    rfl
  | error failure =>
    obtain rfl := Outcome.done.inj h
    rfl

/-- The stage after the run of a script, whose result is recorded and whose
writes and messages take effect. -/
def Stage.afterScript (s : Stage C R) (unit : ScriptUnit)
    (ran : (Except Failure Unit × Script.Context) × R.Memory) : Stage C R :=
  let label := "script '" ++ unit.name ++ "'"
  let e := ran.1.2.writes.foldl (applyWrite label unit.inputs)
    (recordResult { s.engine with memory := ran.2 } label ran.1.1)
  ⟨{ e with messages := e.messages ++ ran.1.2.messages },
    s.panel.set unit.widget ran.1.2.widget⟩

/-- What a script does rests on the run of its body alone. -/
theorem runScript_eq (s : Stage C R) (unit : ScriptUnit) (snapshots : List Snapshot) :
    s.runScript unit snapshots = s.afterScript unit <$> R.run s.engine.memory unit.body
      { script := unit.name, widget := s.panel.widget unit.widget, snapshots } := rfl

/-- The result of a script reaches no variable. -/
theorem recordResult_state (e : Engine C R) (label : String) (result : Except Failure Unit) :
    (recordResult e label result).state = e.state := by
  cases result <;> rfl

/-- A script sets the flag if it writes. -/
theorem runScript_changed {s s' : Stage C R} {id : Nat} {unit : ScriptUnit}
    (hunit : s.engine.state.scripts[id]? = some unit)
    (h : s.runScript unit (s.engine.state.snapshots unit.inputs) = .done s') :
    s'.engine.state.changed = true ↔
      s.engine.state.changed = true ∨ s.Writes (.script id) := by
  obtain ⟨⟨⟨result, context⟩, memory⟩, hran, h⟩ := Outcome.bind_eq_done_iff.mp h
  obtain rfl := Outcome.done.inj h
  have hwrites := (applyWrites_spec ("script '" ++ unit.name ++ "'") unit.inputs
    context.writes (recordResult { s.engine with memory } ("script '" ++ unit.name ++ "'")
      result)).2
  rw [recordResult_state] at hwrites
  refine hwrites.trans (or_congr_right ?_)
  constructor
  · rintro ⟨write, hwrite, haccepted⟩
    exact ⟨id, unit, result, context, memory, rfl, hunit, hran, write, hwrite, haccepted⟩
  · rintro ⟨other, unit', result', context', memory', hother, hfound, hran', haccepted⟩
    obtain rfl := UnitRef.script.inj hother
    obtain rfl := Option.some.inj (hunit.symm.trans hfound)
    have hsame := Outcome.done.inj (hran.symm.trans hran')
    obtain rfl : context = context' := congrArg (fun ran => ran.1.2) hsame
    exact haccepted

/-- The turn of a unit sets the flag if it is a script that writes. -/
theorem runUnit_changed {s s' : Stage C R} {unit : UnitRef} {run : UnitRun}
    (h : s.runUnit unit = .done (s', run)) :
    s'.engine.state.changed = true ↔ s.engine.state.changed = true ∨ s.Writes unit := by
  cases (turn_of_runUnit h).1 with
  | absent hrule hscript =>
    have hnot : ¬s.Writes unit := by
      rintro ⟨id, script, _, _, _, rfl, hfound, -⟩
      rw [hscript id rfl] at hfound
      cases hfound
    exact ⟨Or.inl, fun h => h.resolve_right hnot⟩
  | @rule id _ _ hunit h =>
    have hnot : ¬s.Writes (.rule id) := by
      rintro ⟨_, _, _, _, _, hunit, -⟩
      cases hunit
    rw [runRule_state h]
    exact ⟨Or.inl, fun h => h.resolve_right hnot⟩
  | script hunit h => exact runScript_changed hunit h

/-- The units that run set the flag if one of them is a script that writes. -/
theorem runUnits_changed {units : List UnitRef} {s s' : Stage C R} {runs : List UnitRun}
    (h : s.runUnits units = .done (s', runs)) :
    s'.engine.state.changed = true ↔
      s.engine.state.changed = true ∨ ∃ turn ∈ s.turns units, turn.1.Writes turn.2 := by
  induction units generalizing s runs with
  | nil =>
    obtain ⟨rfl, -⟩ := runUnits_nil_eq_done_iff.mp h
    simp [Stage.turns]
  | cons unit rest ih =>
    obtain ⟨s₁, run, more, hfirst, hrest, -⟩ := runUnits_cons_eq_done_iff.mp h
    rw [ih hrest, runUnit_changed hfirst, Stage.turns]
    simp only [hfirst, List.mem_cons, or_assoc, exists_eq_or_imp]

/-- Writes keep it that nothing is pending without the flag. -/
theorem flagged_applyWrites (label : String) (inputs : List VariableId)
    (writes : List (Nat × Value)) (e : Engine C R) (h : e.state.Flagged) :
    (writes.foldl (applyWrite label inputs) e).state.Flagged := by
  induction writes generalizing e with
  | nil => exact h
  | cons first rest ih =>
    refine ih _ ?_
    unfold applyWrite
    cases inputs[first.1]? with
    | none => exact h
    | some p =>
      dsimp only
      cases hwrite : e.state.write p first.2 with
      | ok state =>
        obtain ⟨v, -, -, rfl⟩ := State.write_eq_ok_iff.mp hwrite
        exact fun _ => rfl
      | error failure => exact h

/-- The turn of a unit keeps it that nothing is pending without the flag. -/
theorem flagged_runUnit {s s' : Stage C R} {unit : UnitRef} {run : UnitRun}
    (h : s.runUnit unit = .done (s', run)) (hs : s.engine.state.Flagged) :
    s'.engine.state.Flagged := by
  cases (turn_of_runUnit h).1 with
  | absent hrule hscript => exact hs
  | rule hunit h =>
    rw [runRule_state h]
    exact hs
  | script hunit h =>
    obtain ⟨⟨⟨result, context⟩, memory⟩, -, h⟩ := Outcome.bind_eq_done_iff.mp h
    obtain rfl := Outcome.done.inj h
    refine flagged_applyWrites _ _ _ _ ?_
    rw [recordResult_state]
    exact hs

/-- The units that run keep it that nothing is pending without the flag. -/
theorem flagged_runUnits {units : List UnitRef} {s s' : Stage C R} {runs : List UnitRun}
    (h : s.runUnits units = .done (s', runs)) (hs : s.engine.state.Flagged) :
    s'.engine.state.Flagged := by
  induction units generalizing s runs with
  | nil =>
    obtain ⟨rfl, -⟩ := runUnits_nil_eq_done_iff.mp h
    exact hs
  | cons unit rest ih =>
    obtain ⟨s₁, run, more, hfirst, hrest, -⟩ := runUnits_cons_eq_done_iff.mp h
    exact ih hrest (flagged_runUnit hfirst hs)

end ProcessDisplay.Engine
