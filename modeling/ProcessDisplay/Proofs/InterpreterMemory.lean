import Mathlib.Tactic.Common
import ProcessDisplay.Proofs.Transitions

/-!
# What outlives a display

The settings of an engine never change. What the script interpreter remembers
changes where a body is checked or run and nowhere else, so what checks and
runs keep of it holds in every state that a display reaches. The rules of
a display were declared in its operations and compiled within the settings.
-/

namespace ProcessDisplay

/-- What holds of the memory of an interpreter from the start on. -/
structure ScriptInterpreter.Keeps (R : ScriptInterpreter) (good : R.Memory → Prop) : Prop where
  /-- It holds at the start. -/
  initial : good R.initial
  /-- The check of a body keeps it. -/
  validate : ∀ memory body, good memory → good (R.validate memory body).2
  /-- A run of a body keeps it. -/
  run : ∀ memory body context ran, good memory → R.run memory body context = .done ran →
    good ran.2

namespace Engine

variable {C : FormulaCompiler} {R : ScriptInterpreter}

/-- A small construction changes neither the memory nor the settings. -/
theorem ConstructionStep.outside {e e' : Engine C R} (h : ConstructionStep e e') :
    e'.memory = e.memory ∧ e'.settings = e.settings := by
  cases h with
  | createLocal hkey hfree initializer => exact ⟨rfl, rfl⟩
  | redeclare hfound initializer => exact ⟨rfl, rfl⟩
  | attach hkey hfree generator => exact ⟨rfl, rfl⟩
  | createFormula hkey hfree hcompiled hlocated heval =>
    obtain ⟨f, w, errors, -, rfl⟩ := evaluateFormula_inserted heval
    exact ⟨rfl, rfl⟩

/-- A construction changes neither the memory nor the settings. -/
theorem Construction.outside {e e' : Engine C R} (h : Construction e e') :
    e'.memory = e.memory ∧ e'.settings = e.settings := by
  induction h with
  | refl => exact ⟨rfl, rfl⟩
  | tail _ hstep ih =>
    exact ⟨hstep.outside.1.trans ih.1, hstep.outside.2.trans ih.2⟩

/-- The preparation of a tick changes neither the memory nor the settings. -/
theorem outside_of_prepare {s : Stage C R} {clock : Time.Clock} {wall : Time.Instant}
    {p : Prepared C R} (hs : s.engine.state.WellFormed) (h : s.prepare clock wall = .done p) :
    p.stage.engine.memory = s.engine.memory ∧ p.stage.engine.settings = s.engine.settings := by
  obtain ⟨now, generators, hframe⟩ := frame_of_prepare hs h
  rw [hframe]
  exact ⟨rfl, rfl⟩

/-- The writes of a script change neither the memory nor the settings. -/
theorem outside_applyWrites (label : String) (inputs : List VariableId)
    (writes : List (Nat × Value)) (e : Engine C R) :
    (writes.foldl (applyWrite label inputs) e).memory = e.memory ∧
      (writes.foldl (applyWrite label inputs) e).settings = e.settings := by
  induction writes generalizing e with
  | nil => exact ⟨rfl, rfl⟩
  | cons first rest ih =>
    have hfirst : (applyWrite label inputs e first).memory = e.memory ∧
        (applyWrite label inputs e first).settings = e.settings := by
      unfold applyWrite
      split
      · exact ⟨rfl, rfl⟩
      · split <;> exact ⟨rfl, rfl⟩
    obtain ⟨hmemory, hsettings⟩ := ih (applyWrite label inputs e first)
    exact ⟨hmemory.trans hfirst.1, hsettings.trans hfirst.2⟩

/-- The turn of a unit keeps the settings, and what runs keep of the memory. -/
theorem outside_runUnit {s s' : Stage C R} {unit : UnitRef} {run : UnitRun}
    {good : R.Memory → Prop} (hkeeps : R.Keeps good) (hgood : good s.engine.memory)
    (h : s.runUnit unit = .done (s', run)) :
    good s'.engine.memory ∧ s'.engine.settings = s.engine.settings := by
  cases (turn_of_runUnit h).1 with
  | absent hrule hscript => exact ⟨hgood, rfl⟩
  | rule hunit h =>
    obtain ⟨result, -, h⟩ := Outcome.bind_eq_done_iff.mp h
    cases result with
    | ok widget =>
      obtain rfl := Outcome.done.inj h
      exact ⟨hgood, rfl⟩
    | error failure =>
      obtain rfl := Outcome.done.inj h
      exact ⟨hgood, rfl⟩
  | @script id script _ hunit h =>
    obtain ⟨⟨⟨result, context⟩, memory⟩, hran, h⟩ := Outcome.bind_eq_done_iff.mp h
    obtain rfl := Outcome.done.inj h
    obtain ⟨hmemory, hsettings⟩ := outside_applyWrites ("script '" ++ script.name ++ "'")
      script.inputs context.writes
      (recordResult { s.engine with memory } ("script '" ++ script.name ++ "'") result)
    have hafter := hkeeps.run _ _ _ _ hgood hran
    dsimp only
    rw [hmemory, hsettings]
    cases result with
    | ok _ => exact ⟨hafter, rfl⟩
    | error failure => exact ⟨hafter, rfl⟩

/-- Units that run keep the settings, and what runs keep of the memory. -/
theorem outside_runUnits {units : List UnitRef} {s s' : Stage C R} {runs : List UnitRun}
    {good : R.Memory → Prop} (hkeeps : R.Keeps good) (hgood : good s.engine.memory)
    (h : s.runUnits units = .done (s', runs)) :
    good s'.engine.memory ∧ s'.engine.settings = s.engine.settings := by
  induction units generalizing s runs with
  | nil =>
    obtain ⟨rfl, -⟩ := runUnits_nil_eq_done_iff.mp h
    exact ⟨hgood, rfl⟩
  | cons unit rest ih =>
    obtain ⟨s₁, run, more, hfirst, hrest, -⟩ := runUnits_cons_eq_done_iff.mp h
    obtain ⟨hgood₁, hsettings⟩ := outside_runUnit hkeeps hgood hfirst
    obtain ⟨hgood₂, hsettings'⟩ := ih hgood₁ hrest
    exact ⟨hgood₂, hsettings'.trans hsettings⟩

/-- Every rule of a display is one of some declarations, compiled within the
settings of the display. -/
def Stage.RulesCompiled (declared : RuleDeclaration → Prop) (s : Stage C R) : Prop :=
  ∀ unit ∈ s.engine.state.rules, ∃ d w, declared d ∧
    Rule.compile (R.expression s.engine.settings.limits) d w = .ok unit.rule

/-- Rules that stay within settings that stay were compiled within them. -/
theorem Stage.RulesCompiled.of_eq {declared : RuleDeclaration → Prop} {s s' : Stage C R}
    (h : s.RulesCompiled declared)
    (hrules : s'.engine.state.rules = s.engine.state.rules)
    (hsettings : s'.engine.settings = s.engine.settings) : s'.RulesCompiled declared := by
  unfold Stage.RulesCompiled
  rw [hrules, hsettings]
  exact h

/-- What an operation keeps: the settings, what checks and runs keep of the
memory, and that all rules were compiled. -/
theorem Transition.outside {s s' : Stage C R} {entry : Operation × Answer}
    {good : R.Memory → Prop} {declared : RuleDeclaration → Prop} (h : Transition s entry s')
    (hs : s.engine.state.WellFormed) (hkeeps : R.Keeps good) (hgood : good s.engine.memory)
    (hrules : s.RulesCompiled declared)
    (hdeclared : ∀ widget d, entry.1 = .addRule widget d → declared d) :
    s'.engine.settings = s.engine.settings ∧ good s'.engine.memory ∧
      s'.RulesCompiled declared := by
  cases h with
  | @refused operation answer declared memory hrefused hdeclares hmemory =>
    refine ⟨rfl, ?_, hrules.of_eq ?_ rfl⟩
    · rcases hmemory with rfl | ⟨body, rfl⟩
      · exact hgood
      · exact hkeeps.validate _ body hgood
    · exact (evolution_declareSilently s.engine declared).quiet.rules
  | created h hlocated =>
    obtain ⟨hmemory, hsettings⟩ := h.outside
    refine ⟨hsettings, ?_, hrules.of_eq h.evolution.quiet.rules hsettings⟩
    dsimp only
    rw [hmemory]
    exact hgood
  | attached hfree => exact ⟨rfl, hgood, hrules⟩
  | written hwrite => exact ⟨rfl, hgood, hrules.of_eq (State.quiet_write hwrite).rules rfl⟩
  | @ruled widget d rule inputs e₁ hcompiled h hlocated =>
    obtain ⟨hmemory, hsettings⟩ := h.outside
    refine ⟨hsettings, ?_, fun unit hunit => ?_⟩
    · dsimp only [withState]
      rw [hmemory]
      exact hgood
    · dsimp only [withState, State.addRule] at hunit ⊢
      rw [h.evolution.quiet.rules] at hunit
      rw [hsettings]
      rcases List.mem_append.mp hunit with hold | hnew
      · exact hrules unit hold
      · obtain rfl := List.mem_singleton.mp hnew
        exact ⟨d, _, hdeclared widget d rfl, hcompiled⟩
  | @scripted widget d inputs e₁ h hlocated =>
    obtain ⟨hmemory, hsettings⟩ := h.outside
    refine ⟨hsettings, ?_, hrules.of_eq h.evolution.quiet.rules hsettings⟩
    dsimp only [withState]
    rw [hmemory]
    exact hkeeps.validate _ d.body hgood
  | traced h hlocated =>
    obtain ⟨hmemory, hsettings⟩ := h.outside
    refine ⟨hsettings, ?_, hrules.of_eq h.evolution.quiet.rules hsettings⟩
    dsimp only [withState]
    rw [hmemory]
    exact hgood
  | ticked h =>
    obtain ⟨p, hticked⟩ := ticked_of_tick hs h
    obtain ⟨hmemory, hsettings⟩ := outside_of_prepare hs hticked.prepared
    rw [← hmemory] at hgood
    obtain ⟨hgood', hsettings'⟩ := outside_runUnits hkeeps hgood hticked.ran
    have hsame := hsettings'.trans hsettings
    exact ⟨hsame, hgood', hrules.of_eq hticked.rules hsame⟩
  | reset => exact ⟨rfl, hgood, fun _ hunit => nomatch hunit⟩
  | aside hkind hsettings hmemory hstate hsame =>
    refine ⟨hsettings, ?_, hrules.of_eq ?_ hsettings⟩
    · rw [hmemory]
      exact hgood
    · rw [hstate]

/-- What a session keeps over a run of operations. -/
theorem Session.outside_run {j : Journal} {s s' : Stage C R} {operations : List Operation}
    {answers : List Answer} {good : R.Memory → Prop} {declared : RuleDeclaration → Prop}
    (h : Session C R j s) (hkeeps : R.Keeps good) (hgood : good s.engine.memory)
    (hrules : s.RulesCompiled declared)
    (hdeclared : ∀ widget d, .addRule widget d ∈ operations → declared d)
    (hrun : s.run operations = .done (answers, s')) :
    s'.engine.settings = s.engine.settings ∧ good s'.engine.memory ∧
      s'.RulesCompiled declared := by
  induction operations generalizing j s answers with
  | nil =>
    obtain ⟨-, rfl⟩ := run_nil_eq_done_iff.mp hrun
    exact ⟨rfl, hgood, hrules⟩
  | cons operation rest ih =>
    obtain ⟨answer, s₁, more, hfirst, hrest, -⟩ := run_cons_eq_done_iff.mp hrun
    have htransition := transition_of_perform h.wellFormed hfirst
    obtain ⟨hsettings₁, hgood₁, hrules₁⟩ :=
      htransition.outside h.wellFormed hkeeps hgood hrules fun widget d hadd =>
        hdeclared widget d (by rw [← hadd]; exact List.mem_cons_self)
    obtain ⟨hsettings, hafter⟩ := ih (h.step hfirst) hgood₁ hrules₁
      (fun widget d hadd => hdeclared widget d (List.mem_cons_of_mem _ hadd)) hrest
    exact ⟨hsettings.trans hsettings₁, hafter⟩

/-- What outlives a display after a run of operations from the start. -/
theorem run_outside {settings : Settings} {epoch : Time.Instant} {panel : Panel}
    {operations : List Operation} {answers : List Answer} {s : Stage C R} {good : R.Memory → Prop}
    (hkeeps : R.Keeps good)
    (hrun : (Stage.mk (Engine.start C R settings epoch) panel).run operations =
      .done (answers, s)) :
    s.engine.settings = settings ∧ good s.engine.memory ∧
      s.RulesCompiled fun d => ∃ widget, .addRule widget d ∈ operations :=
  (Session.start settings epoch panel).outside_run hkeeps hkeeps.initial
    (fun _ hunit => nomatch hunit) (fun widget _ hadd => ⟨widget, hadd⟩) hrun

end Engine

end ProcessDisplay
