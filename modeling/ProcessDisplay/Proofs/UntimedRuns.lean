import Mathlib.Tactic.Common
import ProcessDisplay.Proofs.HostActions
import ProcessDisplay.Proofs.ScriptWrites

/-!
# Times that units do not see

A snapshot carries the time of its value, but no view of a rule and no
function of a script reads it. So a unit does the same with snapshots that
differ in their times alone.
-/

namespace ProcessDisplay

open Script

/-- The snapshot without the time of its value. -/
def Snapshot.untimed (s : Snapshot) : Snapshot := { s with time := none }

namespace Rule

/-- The accessors of an input do not show its time. -/
theorem inputSlots_untimed (a : Accessors) (index : Nat) (s : Snapshot) :
    inputSlots a index s.untimed = inputSlots a index s := by
  have hviews : ∀ view : View, view.datum s.untimed = view.datum s := fun view => by
    cases view <;> rfl
  unfold inputSlots
  simp only [hviews]

/-- The accessors of all inputs do not show their times. -/
theorem slotsFrom_untimed (a : Accessors) (index : Nat) (snapshots : List Snapshot) :
    slotsFrom a index (snapshots.map Snapshot.untimed) = slotsFrom a index snapshots := by
  induction snapshots generalizing index with
  | nil => rfl
  | cons s rest ih => rw [List.map_cons, slotsFrom, slotsFrom, inputSlots_untimed, ih]

variable {ε : Type} {snapshots snapshots' : List Snapshot}

/-- The variables in scope of a rule do not show times. -/
theorem bind_of_untimed (r : Rule ε)
    (h : snapshots'.map Snapshot.untimed = snapshots.map Snapshot.untimed) :
    r.bind snapshots' = r.bind snapshots := by
  have hbind : ∀ found : List Snapshot, r.bind found = r.bind (found.map Snapshot.untimed) :=
    fun found => by
      unfold Rule.bind
      rw [← List.map_take, slotsFrom_untimed]
  rw [hbind, h, ← hbind]

/-- A rule does the same with snapshots that differ in their times alone. -/
theorem execute_of_untimed (r : Rule ε) (evaluation : Evaluation ε (List Slot)) (w : Widget)
    (h : snapshots'.map Snapshot.untimed = snapshots.map Snapshot.untimed) :
    r.execute evaluation snapshots' w = r.execute evaluation snapshots w := by
  unfold execute evaluate
  rw [r.bind_of_untimed h]

end Rule

namespace Script

/-- The record without the times of the snapshots. -/
def RunRecord.untimed (r : RunRecord) : RunRecord :=
  { r with snapshots := r.snapshots.map Snapshot.untimed }

/-- An action neither reads nor changes the times of the snapshots. -/
def Act.OverlooksTimes (action : Act) : Prop :=
  ∀ r : RunRecord, action r.untimed = ((action r).1, (action r).2.untimed)

/-- An input of a record without times. -/
theorem RunRecord.input_untimed (r : RunRecord) (index : Int) :
    r.untimed.input index = (r.input index).map Snapshot.untimed := by
  have hlength : r.untimed.snapshots.length = r.snapshots.length := List.length_map _
  have hfound : r.untimed.snapshots[index.toNat]? =
      r.snapshots[index.toNat]?.map Snapshot.untimed := List.getElem?_map
  unfold input
  dsimp only
  rw [hlength, hfound]
  by_cases hindex : index < 0
  · rw [if_pos hindex, if_pos hindex]
    rfl
  · rw [if_neg hindex, if_neg hindex]
    cases r.snapshots[index.toNat]? <;> rfl

/-- The views of an input do not show its time. -/
theorem reading_overlooksTimes {name : String} {view : Snapshot → Datum}
    (h : inputView? name = some view) (index : Int) : (reading index view).OverlooksTimes := by
  have hview : ∀ s : Snapshot, view s.untimed = view s := by
    unfold inputView? at h
    split at h <;> cases h <;> exact fun _ => rfl
  intro r
  unfold reading
  rw [r.input_untimed]
  cases r.input index with
  | error text => rfl
  | ok s => exact congrArg (fun d => (Except.ok d, r.untimed)) (hview s)

/-- A write to an input does not depend on times. -/
theorem writing_overlooksTimes (index : Int) (d : Datum) : (writing index d).OverlooksTimes := by
  intro r
  unfold writing
  rw [r.input_untimed]
  cases r.input index with
  | error text => rfl
  | ok s => cases d.value? <;> rfl

/-- A write to a property of the widget does not depend on times. -/
theorem settingProperty_overlooksTimes (property : String) (d : Datum) :
    (settingProperty property d).OverlooksTimes := by
  intro r
  have hwidget : r.untimed.boundWidget = r.boundWidget := rfl
  unfold settingProperty
  rw [hwidget]
  cases r.boundWidget with
  | error text => rfl
  | ok widget =>
    cases d.value? with
    | none => rfl
    | some value =>
      dsimp only
      cases widget.assign property value <;> rfl

/-- The actions on the record neither read nor change the times of the snapshots. -/
theorem scriptAct?_overlooksTimes {name : String} {arguments : List Datum} {act : Act}
    (h : scriptAct? name arguments = some act) : act.OverlooksTimes := by
  unfold scriptAct? at h
  split at h
  · obtain rfl := Option.some.inj h
    exact fun r => congrArg (fun n : Nat => (Except.ok (Datum.integer n), r.untimed))
      (List.length_map _)
  · obtain rfl := Option.some.inj h
    exact fun _ => rfl
  · obtain rfl := Option.some.inj h
    exact fun _ => rfl
  · obtain ⟨view, hview, rfl⟩ := Option.map_eq_some_iff.mp h
    exact reading_overlooksTimes hview _
  · unfold textAct? at h
    split at h <;> cases h <;> exact fun _ => rfl
  · obtain rfl := Option.some.inj h
    exact writing_overlooksTimes _ _
  · obtain rfl := Option.some.inj h
    exact settingProperty_overlooksTimes _ _
  · obtain rfl := Option.some.inj h
    exact fun _ => rfl
  · obtain rfl := Option.some.inj h
    exact fun _ => rfl
  · obtain rfl := Option.some.inj h
    exact fun _ => rfl
  · cases h

/-- The host of scripts neither reads nor changes the times of the snapshots. -/
theorem scriptHost_overlooks : scriptHost.Overlooks RunRecord.untimed := by
  intro name arguments action haction r r' hsame
  rcases scriptHost_eq_some haction with hshared | ⟨act, hact, rfl⟩
  · obtain ⟨result, -, rfl⟩ := exists_of_sharedAction hshared
    cases result with
    | crash => rfl
    | done d => exact congrArg (fun r => Outcome.done (Except.ok d, r)) hsame
  · have hoverlooks := scriptAct?_overlooksTimes hact
    exact congrArg Outcome.done
      ((hoverlooks r').symm.trans ((congrArg act hsame).trans (hoverlooks r)))

/-- The surroundings without the times of the snapshots. -/
def Context.untimed (c : Context) : Context :=
  { c with snapshots := c.snapshots.map Snapshot.untimed }

variable {L : Language} {c c' : Context}

/-- What a run leaves, without the times of the snapshots. -/
def withoutTimes (ran : (Except Failure Unit × Context) × Memory L) :
    (Except Failure Unit × Context) × Memory L := ((ran.1.1, ran.1.2.untimed), ran.2)

/-- Records of runs in surroundings that differ in times alone. -/
theorem RunRecord.untimed_start (h : c'.untimed = c.untimed) :
    (start c').untimed = (start c).untimed := by
  have hstart : ∀ c : Context, (start c).untimed = start c.untimed := fun _ => rfl
  rw [hstart, hstart, h]

/-- What surroundings collect from a record, without times. -/
theorem Context.untimed_collect {r r' : RunRecord} (h : c'.untimed = c.untimed)
    (hr : r'.untimed = r.untimed) :
    (collect { c' with snapshots := [] } r').untimed =
      (collect { c with snapshots := [] } r).untimed := by
  have hcollect : ∀ (c : Context) (r : RunRecord),
      (collect { c with snapshots := [] } r).untimed = c.untimed.collect r.untimed :=
    fun _ _ => rfl
  rw [hcollect, hcollect, h, hr]

/-- A run of a script leaves the same in surroundings that differ in times alone. -/
theorem runCode_of_untimed (memory : Memory L) (code : Code L.Modules)
    (h : c'.untimed = c.untimed) :
    withoutTimes <$> runCode memory code c' = withoutTimes <$> runCode memory code c := by
  have hcourse := Course.run_overlooks scriptHost_overlooks (code.course memory.modules)
    (RunRecord.untimed_start h)
  unfold runCode Memory.enter Memory.evaluate
  dsimp only
  cases hrun' : (code.course memory.modules).run scriptHost (RunRecord.start c') with
  | crash =>
    cases hrun : (code.course memory.modules).run scriptHost (RunRecord.start c) with
    | crash => rfl
    | done ended => rw [hrun, hrun'] at hcourse; cases hcourse
  | done ended' =>
    cases hrun : (code.course memory.modules).run scriptHost (RunRecord.start c) with
    | crash => rw [hrun, hrun'] at hcourse; cases hcourse
    | done ended =>
      rw [hrun, hrun'] at hcourse
      obtain ⟨⟨result, modules⟩, record⟩ := ended
      obtain ⟨⟨result', modules'⟩, record'⟩ := ended'
      obtain ⟨hresult, hrecord⟩ := Prod.mk.inj (Outcome.done.inj hcourse)
      obtain ⟨rfl, rfl⟩ : result' = result ∧ modules' = modules := Prod.mk.inj hresult
      have hcollect := Context.untimed_collect h hrecord
      have hended : ∀ result : Except Failure Unit, _ := fun result =>
        congrArg (fun c => Outcome.done ((result, c), Memory.mk memory.cache modules' {})) hcollect
      cases result' with
      | error fault => exact hended (.error (.script (.stopped fault)))
      | ok d => exact hended (.ok ())

/-- A run of a body leaves the same in surroundings that differ in times alone. -/
theorem runBody_of_untimed (limits : Limits) (memory : Memory L) (body : String)
    (h : c'.untimed = c.untimed) :
    withoutTimes <$> runBody limits memory body c' =
      withoutTimes <$> runBody limits memory body c := by
  unfold runBody
  dsimp only
  cases (memory.code limits body).1 with
  | error failure =>
    exact congrArg (fun c => Outcome.done
      (((Except.error failure : Except Failure Unit), c), (memory.code limits body).2)) h
  | ok code => exact runCode_of_untimed _ code h

end Script

namespace Engine

variable {C : FormulaCompiler} {snapshots snapshots' : List Snapshot}

/-- A run of a rule does the same with snapshots that differ in their times alone. -/
theorem Stage.runRule_of_untimed {R : ScriptInterpreter} (s : Stage C R) (unit : RuleUnit)
    (h : snapshots'.map Snapshot.untimed = snapshots.map Snapshot.untimed) :
    s.runRule unit snapshots' = s.runRule unit snapshots := by
  unfold runRule
  rw [unit.rule.execute_of_untimed _ _ h]

/-- A run of a script does the same with snapshots that differ in their times alone. -/
theorem Stage.runScript_of_untimed {L : Script.Language} {limits : Script.Limits}
    (s : Stage C (.bundled L limits)) (unit : ScriptUnit)
    (h : snapshots'.map Snapshot.untimed = snapshots.map Snapshot.untimed) :
    s.runScript unit snapshots' = s.runScript unit snapshots := by
  let surroundings (found : List Snapshot) : Context :=
    { script := unit.name, widget := s.panel.widget unit.widget, snapshots := found }
  have hsurroundings : (surroundings snapshots').untimed = (surroundings snapshots).untimed :=
    congrArg surroundings h
  -- The snapshots that a run gives back are not looked at again.
  have hafter : ∀ found, s.runScript unit found = s.afterScript unit <$> withoutTimes <$>
      runBody limits s.engine.memory unit.body (surroundings found) := by
    intro found
    rw [runScript_eq]
    change _ <$> runBody limits s.engine.memory unit.body (surroundings found) = _
    cases runBody limits s.engine.memory unit.body (surroundings found) <;> rfl
  rw [hafter, hafter]
  exact congrArg (s.afterScript unit <$> ·) (runBody_of_untimed limits _ _ hsurroundings)

end Engine

end ProcessDisplay
