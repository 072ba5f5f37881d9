import Mathlib.Tactic.Common
import ProcessDisplay.Proofs.TriggerDelivery
import ProcessDisplay.Proofs.WriteLists

/-!
# Positions of inputs

When a unit is registered, its declared inputs stand for variables. From then
on the unit receives one snapshot for each of them, in this order, and what a
script writes to the input at a position goes to this variable.
-/

namespace ProcessDisplay

/-- The runs of an interpreter write to inputs that they have. -/
def ScriptInterpreter.WritesInputs (R : ScriptInterpreter) : Prop :=
  ∀ memory body context ran, R.run memory body context = .done ran →
    ∃ added, ran.1.2.writes = context.writes ++ added ∧
      ∀ write ∈ added, write.1 < context.snapshots.length

namespace Engine

variable {C : FormulaCompiler} {R : ScriptInterpreter}

/-- A rule or script with the names of its inputs in order, each with the
variable that it stood for. -/
structure Wiring where
  /-- The unit. -/
  unit : UnitRef
  /-- The inputs. -/
  inputs : List (String × Option VariableId)
  deriving DecidableEq, Repr

/-- The inputs of a unit as they stand now. -/
def State.wiring (s : State C) (unit : UnitRef) (inputs : List Input) : Wiring :=
  ⟨unit, inputs.map fun input => (input.name, s.located input.name)⟩

/-- Inputs that are located stand for their variables. -/
theorem State.wiring_inputs {s : State C} {inputs : List Input} {ids : List VariableId}
    (h : List.Forall₂ (fun name id => s.located name = some id) (inputs.map Input.name) ids)
    (unit : UnitRef) : (s.wiring unit inputs).inputs.map Prod.snd = ids.map some := by
  unfold wiring
  induction inputs generalizing ids with
  | nil =>
    cases h
    rfl
  | cons input rest ih =>
    cases h with
    | cons hfirst hrest => exact congrArg₂ List.cons hfirst (ih hrest)

/-- The wirings after a passage: a rule or script that was registered is
entered, and a new display has none. -/
def Passage.wire (wirings : List Wiring) (p : Passage C R) : List Wiring :=
  match p.operation, p.answer with
  | .addRule _ d, .position (.ok id) =>
    wirings ++ [p.after.engine.state.wiring (.rule id) d.inputs]
  | .addScript _ d, .position (.ok id) =>
    wirings ++ [p.after.engine.state.wiring (.script id) d.inputs]
  | .reset _, _ => []
  | _, _ => wirings

/-- The wirings of a trail from the start of a display. -/
def wiringsOf (trail : List (Passage C R)) : List Wiring := trail.foldl Passage.wire []

/-- What is not entered into journals enters no wiring. -/
theorem Passage.wire_of_quiet {s s' : Stage C R} {entry : Operation × Answer}
    (h : ∀ j : Journal, j.enter entry = j) (wirings : List Wiring) :
    Passage.wire wirings ⟨s, entry.1, entry.2, s'⟩ = wirings := by
  obtain ⟨operation, answer⟩ := entry
  have hregister : ∀ unit inputs, ({} : Journal).register unit inputs ≠ {} := by
    intro unit inputs heq
    exact absurd (congrArg Journal.registrations heq) (List.cons_ne_nil _ _)
  cases operation with
  | addRule widget d =>
    rcases answer with ⟨failure | id⟩ | _ | _ | _ | _ | _ | _ <;> try rfl
    exact absurd (h {}) (hregister _ _)
  | addScript widget d =>
    rcases answer with ⟨failure | id⟩ | _ | _ | _ | _ | _ | _ <;> try rfl
    exact absurd (h {}) (hregister _ _)
  | reset epoch =>
    have hnew := h (({} : Journal).register (.rule 0) [])
    exact absurd hnew.symm (hregister _ _)
  | _ => rfl

/-- Every rule and script is wired to its inputs. -/
structure Wired (wirings : List Wiring) (s : State C) : Prop where
  /-- Every rule and script is entered. -/
  exists_wiring : ∀ u, u.isFormula = false → s.Has u → ∃ w ∈ wirings, w.unit = u
  /-- What is entered is a rule or a script that is registered, -/
  has : ∀ w ∈ wirings, w.unit.isFormula = false ∧ s.Has w.unit
  /-- and its names stood for the variables that it reads. -/
  inputs : ∀ w ∈ wirings, w.inputs.map Prod.snd = (s.inputsOf w.unit).map some

namespace Wired

variable {wirings : List Wiring} {s s' : State C}

/-- A display that has just started has no wirings. -/
theorem start (C : FormulaCompiler) (epoch : Time.Instant) : Wired [] (State.start C epoch) := by
  refine ⟨fun u hkind hu => ?_, by simp, by simp⟩
  cases u with
  | formula id => cases hkind
  | rule id => cases hu
  | script id => cases hu

/-- Wirings stay as long as the rules and scripts do. -/
theorem of_same (h : Wired wirings s) (hrules : s'.rules = s.rules)
    (hscripts : s'.scripts = s.scripts) : Wired wirings s' := by
  have hhas : ∀ u, u.isFormula = false → (s'.Has u ↔ s.Has u) :=
    fun _ => State.has_congr hrules hscripts
  refine ⟨fun u hkind hu => h.exists_wiring u hkind ((hhas u hkind).mp hu), fun w hw => ?_,
    fun w hw => ?_⟩
  · obtain ⟨hkind, hw⟩ := h.has w hw
    exact ⟨hkind, (hhas w.unit hkind).mpr hw⟩
  · rw [State.inputsOf_congr hrules hscripts]
    exact h.inputs w hw

/-- One more unit is wired to its inputs. -/
theorem add (h : Wired wirings s) {w : Wiring} {ids triggers : List VariableId}
    (hadds : State.Adds s s' w.unit ids triggers)
    (hhas : ∀ u, s'.Has u ↔ s.Has u ∨ u = w.unit)
    (hinputs : w.inputs.map Prod.snd = ids.map some) : Wired (wirings ++ [w]) s' := by
  refine ⟨fun u hkind hu => ?_, fun other hother => ?_, fun other hother => ?_⟩
  · rcases (hhas u).mp hu with hold | rfl
    · obtain ⟨other, hother, hunit⟩ := h.exists_wiring u hkind hold
      exact ⟨other, List.mem_append_left _ hother, hunit⟩
    · exact ⟨w, List.mem_append_right _ List.mem_cons_self, rfl⟩
  · rcases List.mem_append.mp hother with hold | hnew
    · exact ⟨(h.has other hold).1, (hhas _).mpr (.inl (h.has other hold).2)⟩
    · obtain rfl := List.mem_singleton.mp hnew
      exact ⟨hadds.isFormula, (hhas _).mpr (.inr rfl)⟩
  · rcases List.mem_append.mp hother with hold | hnew
    · rw [hadds.others _ (h.has other hold).2]
      exact h.inputs other hold
    · obtain rfl := List.mem_singleton.mp hnew
      rw [hadds.inputs]
      exact hinputs

end Wired

/-- Every operation keeps the wirings. -/
theorem Effect.wired {s s' : Stage C R} {entry : Operation × Answer} (h : Effect s entry s')
    (hs : s.engine.state.WellFormed) {wirings : List Wiring}
    (hwired : Wired wirings s.engine.state) :
    Wired (Passage.wire wirings ⟨s, entry.1, entry.2, s'⟩) s'.engine.state := by
  cases h with
  | evolved hquiet h =>
    rw [Passage.wire_of_quiet hquiet]
    exact hwired.of_same h.quiet.rules h.quiet.scripts
  | rule unit h hlocated he =>
    have hwired₁ := hwired.of_same h.quiet.rules h.quiet.scripts
    change Wired (wirings ++ [s'.engine.state.wiring _ _]) _
    rw [he]
    exact hwired₁.add (State.adds_addRule _ _ _) (fun _ => State.has_addRule)
      (State.wiring_inputs hlocated _)
  | script unit h hlocated he =>
    have hwired₁ := hwired.of_same h.quiet.rules h.quiet.scripts
    change Wired (wirings ++ [s'.engine.state.wiring _ _]) _
    rw [he]
    exact hwired₁.add (State.adds_addScript _ _ _) (fun _ => State.has_addScript)
      (State.wiring_inputs hlocated _)
  | tick h =>
    obtain ⟨p, hticked⟩ := ticked_of_tick hs h
    exact hwired.of_same hticked.rules hticked.scripts
  | reset he =>
    rw [he]
    exact .start C _

/-- The wirings of a run continue wirings that were kept. -/
theorem run_wired {j : Journal} {s s' : Stage C R} {operations : List Operation}
    {answers : List Answer} (h : Session C R j s) (hrun : s.run operations = .done (answers, s'))
    {wirings : List Wiring} (hwired : Wired wirings s.engine.state) :
    Wired ((s.trail operations).foldl Passage.wire wirings) s'.engine.state := by
  induction operations generalizing j s answers wirings with
  | nil =>
    obtain ⟨-, rfl⟩ := run_nil_eq_done_iff.mp hrun
    exact hwired
  | cons operation rest ih =>
    obtain ⟨answer, s₁, more, hfirst, hrest, -⟩ := run_cons_eq_done_iff.mp hrun
    rw [trail_cons hfirst, List.foldl_cons]
    exact ih (h.step hfirst) hrest
      ((effect_of_perform h.wellFormed hfirst).wired h.wellFormed hwired)

section Turns

/-- What a unit receives at its turn. -/
def received (turn : Stage C R × UnitRef) : UnitRun :=
  ⟨turn.2, turn.1.engine.state.snapshots (turn.1.engine.state.inputsOf turn.2)⟩

/-- The runs of units are their turns, each of them on a stage that the turns
before it left. -/
theorem runUnits_turns {units : List UnitRef} {s s' : Stage C R} {runs : List UnitRun}
    (h : s.runUnits units = .done (s', runs)) : runs = (s.turns units).map received ∧
      ∀ turn ∈ s.turns units, turn.2 ∈ units ∧ Runs s.engine turn.1.engine ∧
        ∃ after, turn.1.runUnit turn.2 = .done (after, received turn) := by
  induction units generalizing s runs with
  | nil =>
    obtain ⟨rfl, rfl⟩ := runUnits_nil_eq_done_iff.mp h
    exact ⟨rfl, fun turn hturn => absurd hturn List.not_mem_nil⟩
  | cons unit rest ih =>
    obtain ⟨s₁, run, more, hfirst, hrest, rfl⟩ := runUnits_cons_eq_done_iff.mp h
    obtain ⟨hruns, rfl⟩ := runUnit_spec hfirst
    obtain ⟨rfl, hlater⟩ := ih hrest
    have hturns : s.turns (unit :: rest) = (s, unit) :: s₁.turns rest := by
      rw [Stage.turns, hfirst]
    rw [hturns]
    refine ⟨rfl, fun turn hturn => ?_⟩
    rcases List.mem_cons.mp hturn with rfl | hturn
    · exact ⟨List.mem_cons_self, .refl _, s₁, hfirst⟩
    · obtain ⟨hmem, hbefore, hafter⟩ := hlater turn hturn
      exact ⟨List.mem_cons_of_mem _ hmem, hruns.trans hbefore, hafter⟩

/-- There is a snapshot for every variable of the display. -/
theorem State.length_snapshots {s : State C} {ids : List VariableId}
    (hrange : ∀ q ∈ ids, q < s.vars.length) : (s.snapshots ids).length = ids.length := by
  refine List.filterMap_length_eq_length.mpr fun q hq => ?_
  rw [List.getElem?_eq_getElem (hrange q hq)]
  rfl

/-- Snapshots are those of some variables, one for each of them and in order. -/
structure State.Lists (s : State C) (ids : List VariableId) (snapshots : List Snapshot) :
    Prop where
  /-- There is one for each variable. -/
  length : snapshots.length = ids.length
  /-- They stand at the positions of their variables. -/
  entries : ∀ (k : Nat) (id : VariableId), ids[k]? = some id →
    ∃ v, s.vars[id]? = some v ∧ snapshots[k]? = some v.snapshot

/-- The snapshots of variables of the display list them. -/
theorem State.lists_snapshots {s : State C} {ids : List VariableId}
    (hrange : ∀ q ∈ ids, q < s.vars.length) : s.Lists ids (s.snapshots ids) :=
  ⟨length_snapshots hrange, fun _ _ hid => getElem?_snapshots hrange hid⟩

/-- If the unit is a rule and has its turn, then its expressions are evaluated
on what it received, and its widget or its failure is on the stage afterwards. -/
def RunsRule (turn : Stage C R × UnitRef) : Prop :=
  ∀ id after run, turn.2 = .rule id → turn.1.runUnit turn.2 = .done (after, run) →
    ∃ unit result, turn.1.engine.state.rules[id]? = some unit ∧
      unit.rule.execute Rule.expressionEvaluation (received turn).snapshots
        (turn.1.panel.widget unit.widget) = .done result ∧
      after = turn.1.afterRule unit result

/-- If the unit is a script and has its turn, then its body runs with what it
received, and its writes go to some variables. -/
def RunsScript (turn : Stage C R × UnitRef) (ids : List VariableId) : Prop :=
  ∀ id after run, turn.2 = .script id → turn.1.runUnit turn.2 = .done (after, run) →
    ∃ script ran, turn.1.engine.state.scripts[id]? = some script ∧
      R.run turn.1.engine.memory script.body
        { script := script.name, widget := turn.1.panel.widget script.widget
          snapshots := (received turn).snapshots } = .done ran ∧
      WritesBack ids ("script '" ++ script.name ++ "'") ran.1.1 ran.1.2.writes turn.1.engine
        after.engine

/-- A unit receives the variables that its declared inputs stood for when it
was registered. If the runs of scripts write to inputs that they have, the
writes of a script go to these variables. -/
def LinedUp (wirings : List Wiring) (turn : Stage C R × UnitRef) : Prop :=
  ∃ w ∈ wirings, ∃ ids, w.unit = turn.2 ∧ w.inputs.map Prod.snd = ids.map some ∧
    turn.1.engine.state.Lists ids (received turn).snapshots ∧ RunsRule turn ∧
    (R.WritesInputs → RunsScript turn ids)

/-- A registered rule that has its turn runs. -/
theorem runsRule_of_has {turn : Stage C R × UnitRef}
    (hhas : turn.1.engine.state.Has turn.2) : RunsRule turn := by
  intro id after run hunit hturn
  obtain ⟨s, unit⟩ := turn
  obtain rfl : unit = .rule id := hunit
  cases (turn_of_runUnit hturn).1 with
  | absent hrule hscript =>
    have hlt : id < s.engine.state.rules.length := hhas
    exact absurd (hrule id rfl) (by simpa using hlt)
  | @rule _ rule _ hfound hrule =>
    rw [runRule_eq] at hrule
    obtain ⟨result, hran, hafter⟩ := Outcome.bind_eq_done_iff.mp hrule
    refine ⟨rule, result, hfound, ?_, (Outcome.done.inj hafter).symm⟩
    rw [received, State.inputsOf_rule hfound]
    exact hran

/-- A registered script that has its turn runs and writes to its inputs. -/
theorem runsScript_of_has (hwrites : R.WritesInputs) {turn : Stage C R × UnitRef}
    (hs : turn.1.engine.state.WellFormed) (hhas : turn.1.engine.state.Has turn.2) :
    RunsScript turn (turn.1.engine.state.inputsOf turn.2) := by
  intro id after run hunit hturn
  obtain ⟨s, unit⟩ := turn
  obtain rfl : unit = .script id := hunit
  have hrange := hs.inputs_lt (.script id)
  cases (turn_of_runUnit hturn).1 with
  | absent hrule hscript =>
    have hlt : id < s.engine.state.scripts.length := hhas
    exact absurd (hscript id rfl) (by simpa using hlt)
  | @script _ script _ hfound hscript =>
    have hinputs := State.inputsOf_script hfound
    obtain ⟨ran, hran, hafter⟩ := Outcome.bind_eq_done_iff.mp hscript
    obtain rfl : s.afterScript script ran = after := Outcome.done.inj hafter
    refine ⟨script, ran, hfound, ?_, ?_⟩
    · rw [received, hinputs]
      exact hran
    · rw [hinputs] at hrange ⊢
      obtain ⟨added, hadded, hindices⟩ := hwrites _ _ _ _ hran
      have hlength : (s.engine.state.snapshots script.inputs).length = script.inputs.length :=
        State.length_snapshots hrange
      refine writesBack_afterScript (fun write hwrite => ?_) hrange
      rw [hadded] at hwrite
      rw [← hlength]
      exact hindices write hwrite

/-- Registered units are lined up. -/
theorem linedUp_of_has {wirings : List Wiring} {turn : Stage C R × UnitRef}
    (hs : turn.1.engine.state.WellFormed) (hwired : Wired wirings turn.1.engine.state)
    (hkind : turn.2.isFormula = false) (hhas : turn.1.engine.state.Has turn.2) :
    LinedUp wirings turn := by
  obtain ⟨w, hw, hunit⟩ := hwired.exists_wiring turn.2 hkind hhas
  have hinputs := hwired.inputs w hw
  rw [hunit] at hinputs
  exact ⟨w, hw, turn.1.engine.state.inputsOf turn.2, hunit, hinputs,
    State.lists_snapshots (hs.inputs_lt turn.2), runsRule_of_has hhas,
    fun hwrites => runsScript_of_has hwrites hs hhas⟩

/-- Units that have their turns in a tick are lined up. -/
theorem Ticked.linedUp {s s' : Stage C R} {clock : Time.Clock} {wall : Time.Instant}
    {report : TickReport} {p : Prepared C R} (h : Ticked s s' clock wall report p)
    (hs : s.engine.state.WellFormed) {wirings : List Wiring}
    (hwired : Wired wirings s.engine.state) {turn : Stage C R × UnitRef}
    (hdue : turn.2 ∈ p.due) (hbefore : Runs p.stage.engine turn.1.engine) :
    LinedUp wirings turn := by
  obtain ⟨run, hrun, hunit⟩ := (h.mem_units_iff turn.2).mpr hdue
  obtain ⟨hkind, hhas⟩ := h.registered hs hrun
  rw [hunit] at hkind hhas
  have hquiet := hbefore.evolution.quiet
  -- Neither the first phase nor the turns before this one register anything.
  have hwired₁ : Wired wirings turn.1.engine.state :=
    (hwired.of_same h.prepares.shape.rules h.prepares.shape.scripts).of_same
      hquiet.rules hquiet.scripts
  have hhas₁ : turn.1.engine.state.Has turn.2 := by
    obtain ⟨w, hw, hentered⟩ := hwired.exists_wiring turn.2 hkind hhas
    rw [← hentered]
    exact (hwired₁.has w hw).2
  exact linedUp_of_has (hbefore.evolution.wellFormed h.prepares.wellFormed) hwired₁ hkind hhas₁

end Turns

section Bundled

/-- The runs of the bundled interpreter write to inputs that they have. -/
theorem writesInputs_bundled (L : Script.Language) (limits : Script.Limits) :
    (ScriptInterpreter.bundled L limits).WritesInputs :=
  fun _ _ _ _ hran => (Script.extends_of_runBody hran).writes

end Bundled

/-- Whatever operations led to a display, its rules and scripts receive one
snapshot for each declared input, in order and of the variable that the name
stood for when the unit was registered; so do the units that run in a tick.
Whenever a script has run, however it ended, the variables that it may write
have the last of the values that it wrote to their positions, the others are
as they were, and each refused write is recorded. The writes are those that
the body called for, in order, and no position that has no input fails a run. -/
theorem inputs_line_up {settings : Settings} {epoch : Time.Instant} {panel : Panel}
    {operations : List Operation} {answers : List Answer} {s : Stage C R}
    (hrun : (Stage.mk (Engine.start C R settings epoch) panel).run operations =
      .done (answers, s)) :
    let wirings :=
      wiringsOf ((Stage.mk (Engine.start C R settings epoch) panel).trail operations)
    (∀ unit, unit.isFormula = false → s.engine.state.Has unit → LinedUp wirings (s, unit)) ∧
    (∀ clock wall s' report, s.tick clock wall = .done (s', report) →
      ∃ p, s.prepare clock wall = .done p ∧
        report.units = (p.stage.turns p.due).map received ∧
        ∀ turn ∈ p.stage.turns p.due, LinedUp wirings turn ∧
          ∃ after, turn.1.runUnit turn.2 = .done (after, received turn)) ∧
    ∀ L limits, (ScriptInterpreter.bundled L limits).WritesInputs ∧
      ∀ memory body context ran,
        Script.runBody (L := L) limits memory body context = .done ran →
        ran.1.2.writes = context.writes ++
          (Script.bodyCalls limits memory body context).flatMap
            (Script.written context.snapshots.length) ∧
        ∀ failure, ran.1.1 = .error failure → ∀ index, failure ≠ .script (.noInput index) := by
  have hsession := session_of_run hrun
  have hwired := run_wired (.start settings epoch panel) hrun (.start C epoch)
  refine ⟨fun unit hkind hhas => linedUp_of_has hsession.wellFormed hwired hkind hhas, ?_,
    fun L limits => ⟨writesInputs_bundled L limits, fun memory body context ran hran =>
      ⟨Script.writes_of_runBody hran, fun failure hfailed index => ?_⟩⟩⟩
  · intro clock wall s' report htick
    obtain ⟨p, hticked⟩ := ticked_of_tick hsession.wellFormed htick
    obtain ⟨hunits, hturns⟩ := runUnits_turns hticked.ran
    refine ⟨p, hticked.prepared, hunits, fun turn hturn => ?_⟩
    obtain ⟨hdue, hbefore, hafter⟩ := hturns turn hturn
    exact ⟨hticked.linedUp hsession.wellFormed hwired hdue hbefore, hafter⟩
  · rcases Script.failure_of_runBody hran hfailed with ⟨problem, rfl⟩ | ⟨fault, rfl⟩ <;> simp

/-- A script with two names of one variable and a formula, which it writes to
between two writes to the variable; then it fails. -/
def crossing : ScriptDeclaration where
  name := "cross"
  body := "write_pv(0, 5.0); write_pv(2, 8.0); write_pv(1, 7.0); throw 1;"
  inputs := [{ name := "loc://a(1)" }, { name := "loc://a" }, { name := "=2.0 * 3.0" }]

/-- The script is lined up whenever it has its turn. In a tick the variable
receives the later of its values, the formula keeps its result, and there are
two failures: the script itself and its write to the formula. -/
theorem inputs_line_up_crossing : ∃ answers s s' report p,
    (bareStage []).run [.addScript 0 crossing] = .done (answers, s) ∧
      s.tick 0 0 = .done (s', report) ∧ s.prepare 0 0 = .done p ∧
      report.units.length = 1 ∧ report.units = (p.stage.turns p.due).map received ∧
      (∀ turn ∈ p.stage.turns p.due, LinedUp
        [⟨.script 0, [("loc://a(1)", some 0), ("loc://a", some 0), ("=2.0 * 3.0", some 1)]⟩]
        turn) ∧
      s'.engine.value? "loc://a" = some (.number 7) ∧
      s'.engine.value? "=2.0 * 3.0" = some (.number 6) ∧
      s'.engine.errors.map UnitFailure.unit = ["script 'cross'", "script 'cross'"] := by
  obtain ⟨⟨answers, s⟩, hrun, hcheck⟩ := done_of_any
    (fun reached : List Answer × BundledStage =>
      (reached.2.tick 0 0).value?.any fun ended : BundledStage × TickReport =>
        decide (ended.2.units.length = 1 ∧
          ended.1.engine.value? "loc://a" = some (.number 7) ∧
          ended.1.engine.value? "=2.0 * 3.0" = some (.number 6) ∧
          ended.1.engine.errors.map UnitFailure.unit = ["script 'cross'", "script 'cross'"]))
    (show ((bareStage []).run [.addScript 0 crossing]).value?.any _ = true by decide +kernel)
  obtain ⟨⟨s', report⟩, htick, hended⟩ := done_of_any _ hcheck
  obtain ⟨hlength, hvalues⟩ := of_decide_eq_true hended
  have hwirings : wiringsOf ((bareStage []).trail [.addScript 0 crossing]) =
      [⟨.script 0, [("loc://a(1)", some 0), ("loc://a", some 0), ("=2.0 * 3.0", some 1)]⟩] := by
    decide +kernel
  obtain ⟨p, hprepare, hunits, hturns⟩ :=
    (inputs_line_up (run_bareStage hrun)).2.1 0 0 s' report htick
  refine ⟨answers, s, s', report, p, hrun, htick, hprepare, hlength, hunits, fun turn hturn => ?_,
    hvalues⟩
  rw [← hwirings]
  exact (hturns turn hturn).1

end Engine

end ProcessDisplay
