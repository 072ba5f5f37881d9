import Mathlib.Tactic.Common
import ProcessDisplay.Proofs.Ticks
import ProcessDisplay.Script.Standard

/-!
# Sessions

A session is a run of operations from the start of an engine, together with a
journal of what the application was told: which rules and scripts it has
registered with which inputs, which of them are new since the last tick, and
every run of a unit with the snapshots that it received. Claims about the
past of an engine are claims about the journal.
-/

namespace ProcessDisplay.Engine

variable {C : FormulaCompiler} {R : ScriptInterpreter}

/-- A rule or script as it was registered. -/
structure Registration where
  /-- The unit. -/
  unit : UnitRef
  /-- The declared inputs. -/
  inputs : List Input
  /-- Whether no tick has come since. -/
  isNew : Bool
  deriving DecidableEq

/-- What an application was told since the display started. -/
structure Journal where
  /-- The registered rules and scripts, in order. -/
  registrations : List Registration := []
  /-- The runs of rules and scripts, in order. -/
  runs : List UnitRun := []

namespace Journal

/-- The journal after a registration. -/
def register (j : Journal) (unit : UnitRef) (inputs : List Input) : Journal :=
  { j with registrations := j.registrations ++ [⟨unit, inputs, true⟩] }

/-- The journal after an operation and its answer. -/
def enter (j : Journal) : Operation × Answer → Journal
  | (.addRule _ d, .position (.ok position)) => j.register (.rule position) d.inputs
  | (.addScript _ d, .position (.ok position)) => j.register (.script position) d.inputs
  | (.tick _ _, .ticked report) =>
    ⟨j.registrations.map fun r => { r with isNew := false }, j.runs ++ report.units⟩
  | (.reset _, _) => {}
  | _ => j

/-- The journal of a run of operations with their answers. -/
def ofRun (operations : List Operation) (answers : List Answer) : Journal :=
  (operations.zip answers).foldl enter {}

end Journal

/-- The stages that an application can reach, with their journals. -/
inductive Session (C : FormulaCompiler) (R : ScriptInterpreter) : Journal → Stage C R → Prop where
  /-- An engine starts with the widgets of a display. -/
  | start (settings : Settings) (epoch : Time.Instant) (panel : Panel) :
    Session C R {} ⟨Engine.start C R settings epoch, panel⟩
  /-- One more operation returns. -/
  | step {j : Journal} {s s' : Stage C R} {operation : Operation} {answer : Answer}
    (h : Session C R j s) (hstep : s.perform operation = .done (answer, s')) :
    Session C R (j.enter (operation, answer)) s'

/-- Without operations nothing happens. -/
theorem run_nil_eq_done_iff {s s' : Stage C R} {answers : List Answer} :
    s.run [] = .done (answers, s') ↔ [] = answers ∧ s = s' := by
  simp [Stage.run]

/-- Operations run if the first one does, and the others do on the stage that it leaves. -/
theorem run_cons_eq_done_iff {operation : Operation} {rest : List Operation} {s s' : Stage C R}
    {answers : List Answer} : s.run (operation :: rest) = .done (answers, s') ↔
      ∃ answer s₁ more, s.perform operation = .done (answer, s₁) ∧
        s₁.run rest = .done (more, s') ∧ answer :: more = answers := by
  constructor
  · intro hrun
    obtain ⟨⟨answer, s₁⟩, hfirst, hrun⟩ := Outcome.bind_eq_done_iff.mp hrun
    obtain ⟨⟨more, s₂⟩, hrest, hrun⟩ := Outcome.bind_eq_done_iff.mp hrun
    obtain ⟨hanswers, rfl⟩ : answer :: more = answers ∧ s₂ = s' := by simpa using hrun
    exact ⟨answer, s₁, more, hfirst, hrest, hanswers⟩
  · rintro ⟨answer, s₁, more, hfirst, hrest, rfl⟩
    rw [Stage.run, hfirst, Outcome.done_bind]
    dsimp only
    rw [hrest]
    rfl

/-- A run of operations within a session. -/
theorem Session.run {j : Journal} {s s' : Stage C R} {operations : List Operation}
    {answers : List Answer} (h : Session C R j s)
    (hrun : s.run operations = .done (answers, s')) :
    Session C R ((operations.zip answers).foldl Journal.enter j) s' := by
  induction operations generalizing j s answers with
  | nil =>
    obtain ⟨rfl, rfl⟩ := run_nil_eq_done_iff.mp hrun
    exact h
  | cons operation rest ih =>
    obtain ⟨answer, s₁, more, hfirst, hrest, rfl⟩ := run_cons_eq_done_iff.mp hrun
    exact ih (h.step hfirst) hrest

/-- A run of operations from the start of an engine. -/
theorem session_of_run {settings : Settings} {epoch : Time.Instant} {panel : Panel}
    {operations : List Operation} {answers : List Answer} {s : Stage C R}
    (hrun : (Stage.mk (Engine.start C R settings epoch) panel).run operations =
      .done (answers, s)) : Session C R (.ofRun operations answers) s :=
  (Session.start settings epoch panel).run hrun

/-- What an operation did, by what the journal says about it. -/
inductive Effect (s : Stage C R) : Operation × Answer → Stage C R → Prop where
  /-- The engine evolved and the journal says nothing. -/
  | evolved {entry : Operation × Answer} {s' : Stage C R}
    (hquiet : ∀ j : Journal, j.enter entry = j) (h : Evolution s.engine s'.engine) :
    Effect s entry s'
  /-- A rule was added to an engine that had evolved. -/
  | rule {widget : Nat} {d : RuleDeclaration} {e₁ : Engine C R} (unit : RuleUnit)
    {s' : Stage C R} (h : Evolution s.engine e₁)
    (hlocated : List.Forall₂ (fun name id => e₁.state.located name = some id)
      (d.inputs.map Input.name) unit.inputs)
    (he : s'.engine = e₁.withState (e₁.state.addRule unit (triggersOf d.inputs unit.inputs))) :
    Effect s (.addRule widget d, .position (.ok e₁.state.rules.length)) s'
  /-- A script was added to an engine that had evolved. -/
  | script {widget : Nat} {d : ScriptDeclaration} {e₁ : Engine C R} (unit : ScriptUnit)
    {s' : Stage C R} (h : Evolution s.engine e₁)
    (hlocated : List.Forall₂ (fun name id => e₁.state.located name = some id)
      (d.inputs.map Input.name) unit.inputs)
    (he : s'.engine = e₁.withState (e₁.state.addScript unit (triggersOf d.inputs unit.inputs))) :
    Effect s (.addScript widget d, .position (.ok e₁.state.scripts.length)) s'
  /-- The display was ticked. -/
  | tick {clock : Time.Clock} {wall : Time.Instant} {report : TickReport} {s' : Stage C R}
    (h : s.tick clock wall = .done (s', report)) :
    Effect s (.tick clock wall, .ticked report) s'
  /-- The display was started again. -/
  | reset {epoch : Time.Instant} {answer : Answer} {s' : Stage C R}
    (he : s'.engine.state = State.start C epoch) : Effect s (.reset epoch, answer) s'

/-- An action of the engine that returned within an operation. -/
theorem act_eq_done {α : Type} {s s' : Stage C R} {action : Action C R α}
    {answer : Except Failure α → Answer} {told : Answer}
    (h : s.act action answer = .done (told, s')) :
    ∃ result e', action s.engine = .done (result, e') ∧ told = answer result ∧
      s' = { s with engine := e' } := by
  obtain ⟨⟨result, e'⟩, haction, h⟩ := Outcome.bind_eq_done_iff.mp h
  obtain ⟨rfl, rfl⟩ : answer result = told ∧ { s with engine := e' } = s' := by simpa using h
  exact ⟨result, e', haction, rfl, rfl⟩

/-- What an operation did. -/
theorem effect_of_perform {s s' : Stage C R} {operation : Operation} {answer : Answer}
    (hs : s.engine.state.WellFormed) (h : s.perform operation = .done (answer, s')) :
    Effect s (operation, answer) s' := by
  cases operation with
  | create name =>
    obtain ⟨result, e', haction, rfl, rfl⟩ := act_eq_done h
    exact .evolved (fun _ => rfl) (evolution_of_create hs haction)
  | registerGenerator name generator =>
    obtain ⟨result, e', haction, rfl, rfl⟩ := act_eq_done h
    refine .evolved (fun _ => rfl) ?_
    rcases registerGenerator_cases haction with ⟨failure, -, rfl⟩ | ⟨hfree, -, rfl⟩
    · exact .refl
    · exact .single (.attach hfree generator)
  | setValue name value =>
    obtain ⟨result, e', haction, rfl, rfl⟩ := act_eq_done h
    refine .evolved (fun _ => rfl) ?_
    rcases setValue_cases haction with ⟨failure, -, rfl⟩ | ⟨id, state, hwrite, -, rfl⟩
    · exact .refl
    · exact .single (.write hwrite)
  | addRule widget d =>
    obtain ⟨result, e', haction, rfl, rfl⟩ := act_eq_done h
    rcases addRule_cases hs haction with ⟨failure, rfl, hevolution⟩ |
      ⟨rule, inputs, e₁, hevolution, hlocated, hs₁, rfl, rfl⟩
    · exact .evolved (fun _ => rfl) hevolution
    · exact .rule { rule, widget, inputs } hevolution hlocated rfl
  | addScript widget d =>
    obtain ⟨result, e', haction, rfl, rfl⟩ := act_eq_done h
    rcases addScript_cases hs haction with ⟨failure, rfl, hevolution⟩ |
      ⟨inputs, e₁, hevolution, hlocated, hs₁, rfl, rfl⟩
    · exact .evolved (fun _ => rfl) hevolution
    · exact .script { name := d.name, body := d.body, widget, inputs } hevolution hlocated
        rfl
  | createTrace request =>
    obtain ⟨result, e', haction, rfl, rfl⟩ := act_eq_done h
    exact .evolved (fun _ => rfl) (evolution_of_createTrace hs haction)
  | tick clock wall =>
    obtain ⟨⟨after, report⟩, htick, h⟩ := Outcome.bind_eq_done_iff.mp h
    obtain ⟨rfl, rfl⟩ : Answer.ticked report = answer ∧ after = s' := by simpa using h
    exact .tick htick
  | reset epoch =>
    obtain ⟨rfl, rfl⟩ : _ = answer ∧ _ = s' := by simpa [Stage.perform] using h
    exact .reset rfl
  | assign widget property value =>
    obtain ⟨rfl, rfl⟩ : _ = answer ∧ (s.assign widget property value).2 = s' := by
      simpa [Stage.perform] using h
    refine .evolved (fun _ => rfl) ?_
    unfold Stage.assign
    split <;> exact .refl
  | editTrace trace edit =>
    obtain ⟨rfl, rfl⟩ : _ = answer ∧ (s.editTrace trace edit).2 = s' := by
      simpa [Stage.perform] using h
    refine .evolved (fun _ => rfl) ?_
    unfold Stage.editTrace
    dsimp only
    split
    · exact .refl
    · exact .single (.aside ⟨rfl, rfl, rfl⟩)
  | takeErrors =>
    obtain ⟨rfl, rfl⟩ : _ = answer ∧ _ = s' := by simpa [Stage.perform] using h
    exact .evolved (fun _ => rfl) (.single (.aside ⟨rfl, rfl, rfl⟩))
  | takeMessages =>
    obtain ⟨rfl, rfl⟩ : _ = answer ∧ _ = s' := by simpa [Stage.perform] using h
    exact .evolved (fun _ => rfl) (.single (.aside ⟨rfl, rfl, rfl⟩))

/-- Triggers are inputs. -/
theorem mem_of_mem_triggersOf {inputs : List Input} {ids : List VariableId} {p : VariableId}
    (h : p ∈ triggersOf inputs ids) : p ∈ ids := by
  obtain ⟨⟨input, id⟩, hpair, hp⟩ := List.mem_filterMap.mp h
  dsimp only at hp
  split at hp
  · obtain rfl := Option.some.inj hp
    exact (List.of_mem_zip hpair).2
  · cases hp

/-- Every operation keeps the registry well-formed. -/
theorem Effect.wellFormed {s s' : Stage C R} {entry : Operation × Answer}
    (h : Effect s entry s') (hs : s.engine.state.WellFormed) : s'.engine.state.WellFormed := by
  cases h with
  | evolved hquiet h => exact h.wellFormed hs
  | rule unit h hlocated he =>
    rw [he]
    have hs₁ := h.wellFormed hs
    have hrange := hs₁.forall_located_lt hlocated
    exact hs₁.addRule hrange fun p hp => hrange p (mem_of_mem_triggersOf hp)
  | script unit h hlocated he =>
    rw [he]
    have hs₁ := h.wellFormed hs
    have hrange := hs₁.forall_located_lt hlocated
    exact hs₁.addScript hrange fun p hp => hrange p (mem_of_mem_triggersOf hp)
  | tick h =>
    obtain ⟨p, runs, hprepare, hruns, -⟩ := tick_eq_done_iff.mp h
    exact (runUnits_spec hruns).1.evolution.wellFormed (prepares_of_prepare hs hprepare).wellFormed
  | reset he =>
    rw [he]
    exact State.wellFormed_start C _

/-- Registries are well-formed throughout a session. -/
theorem Session.wellFormed {j : Journal} {s : Stage C R} (h : Session C R j s) :
    s.engine.state.WellFormed := by
  induction h with
  | start settings epoch panel => exact State.wellFormed_start C epoch
  | step _ hstep ih => exact (effect_of_perform ih hstep).wellFormed ih

/-- An outcome that passes a check is a result that passes it. -/
theorem done_of_any {α : Type} {outcome : Outcome α} (check : α → Bool)
    (h : outcome.value?.any check = true) : ∃ a, outcome = .done a ∧ check a = true := by
  cases outcome with
  | done a => exact ⟨a, rfl, h⟩
  | crash => cases h

/-- A stage with the bundled compiler and interpreter of the standard language. -/
abbrev BundledStage := Stage (.expressions .standard {} 1000) (.bundled .standard {})

/-- A display with the standard language before any operation. -/
def bareStage (panel : Panel) : BundledStage :=
  ⟨Engine.start (.expressions .standard {} 1000) (.bundled .standard {}) {} 0, panel⟩

/-- The bare display is one that has started. -/
theorem run_bareStage {panel : Panel} {operations : List Operation} {answers : List Answer}
    {s : BundledStage} (hrun : (bareStage panel).run operations = .done (answers, s)) :
    (Stage.mk (Engine.start (.expressions .standard {} 1000) (.bundled .standard {}) {} 0)
      panel).run operations = .done (answers, s) := hrun

/-- A script that writes twice its first input to its second one. -/
def doubling : ScriptDeclaration where
  name := "double"
  body := "write_pv(1, pv_double(0) * 2.0);"
  inputs := [{ name := "loc://in(0)" }, { name := "loc://out(0)", isTrigger := false }]

/-- A rule that shows the variable that the script writes. -/
def showing : RuleDeclaration where
  name := "seen"
  property := "seen"
  outputs := [⟨"true", "pv0"⟩]
  outputsAreExpressions := true
  inputs := [{ name := "loc://out(0)" }]

/-- A widget with one number. -/
def numberWidget : Widget where
  name := "w"
  properties := [("seen", ⟨.number, .number (-1), .number (-1)⟩)]

/-- The first input of the script is written after a tick. -/
def doublingRun : List Operation :=
  [.addScript 0 doubling, .addRule 0 showing, .tick 0 0, .setValue "loc://in" (.number 4)]

end ProcessDisplay.Engine
