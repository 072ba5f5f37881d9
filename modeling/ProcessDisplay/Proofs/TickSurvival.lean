import Mathlib.Tactic.Common
import ProcessDisplay.Proofs.BundledUnits
import ProcessDisplay.Proofs.ContainedFailures
import ProcessDisplay.Proofs.StandardLanguage
import ProcessDisplay.Proofs.UnitExecutions

/-!
# Failures do not stop a tick

In a language that returns errors for its own failures, a tick of a display with
the bundled compiler and interpreter returns in every state that the display
reaches, unless it is beyond the calendar, a clock has a pattern that cannot
be written, or a unit may clamp a number between bounds that are not in order:
then the whole program ends. All other failures are recorded, and every formula
that depends on a changed variable is evaluated and every due unit executed
nevertheless.
-/

namespace ProcessDisplay

/-- A pattern without parts that cannot be written is rendered. -/
theorem Time.render_eq_done {pattern : List PatternItem} (h : .unwritable ∉ pattern) (m : Moment) :
    ∃ text, render m pattern = .done text := by
  induction pattern with
  | nil => exact ⟨"", rfl⟩
  | cons item rest ih =>
    obtain ⟨more, hmore⟩ := ih fun hrest => h (List.mem_cons_of_mem _ hrest)
    have hitem : ∃ text, item.text m = .done text := by
      cases item with
      | unwritable => exact absurd List.mem_cons_self h
      | _ => exact ⟨_, rfl⟩
    obtain ⟨text, htext⟩ := hitem
    rw [render, htext, Outcome.done_bind, hmore]
    exact ⟨_, rfl⟩

/-- Whether the samples of a source can be written: the pattern of a clock may
have parts for reading only. -/
def Generator.Source.isWritable : Source → Bool
  | .clock pattern => !pattern.contains .unwritable
  | _ => true

/-- A generator with a writable source returns. -/
theorem Generator.step_eq_done {g : Generator} (h : g.source.isWritable = true) (clock : Time.Clock)
    (now : Time.Instant) : ∃ stepped, g.step clock now = .done stepped := by
  have hsource : ∃ generated, g.source.generate now = .done generated := by
    cases hkind : g.source with
    | clock pattern =>
      rw [hkind] at h
      have hpattern : Time.PatternItem.unwritable ∉ pattern := by
        simpa [Source.isWritable] using h
      obtain ⟨text, htext⟩ := Time.render_eq_done hpattern (Time.Moment.ofInstant now)
      unfold Source.generate
      dsimp only
      rw [htext]
      exact ⟨_, rfl⟩
    | _ => exact ⟨_, rfl⟩
  obtain ⟨generated, hgenerated⟩ := hsource
  unfold step
  dsimp only
  split
  · exact ⟨_, rfl⟩
  · exact ⟨_, rfl⟩
  · rw [hgenerated]
    exact ⟨_, rfl⟩

namespace Engine

section Ticks

variable {C : FormulaCompiler} {R : ScriptInterpreter}

/-- The stage on which the formulas of a tick are evaluated: the generators
have advanced. -/
def Stage.begin (s : Stage C R) (clock : Time.Clock) : Outcome (Stage C R) := do
  let now ← Time.instantAt s.engine.state.epoch clock
  let a ← advance clock now s.engine.state.generators { vars := s.engine.state.vars }
  return { s with engine := s.engine.beginTick a now }

/-- The generators of a tick that is within the calendar have advanced. -/
theorem Stage.begin_eq_done {s : Stage C R} {clock : Time.Clock} {now : Time.Instant} {a : Advance}
    (hnow : Time.instantAt s.engine.state.epoch clock = .done now)
    (hadvance : advance clock now s.engine.state.generators { vars := s.engine.state.vars } =
      .done a) : s.begin clock = .done { s with engine := s.engine.beginTick a now } := by
  rw [Stage.begin, hnow, Outcome.done_bind, hadvance]
  rfl

/-- A tick that does everything it has to do whatever fails in it. -/
structure Survives (s : Stage C R) (clock : Time.Clock) (wall : Time.Instant) (s' : Stage C R)
    (report : TickReport) (p : Prepared C R) : Prop where
  /-- The tick returns. -/
  returned : s.tick clock wall = .done (s', report)
  /-- What is prepared when the units start to run. -/
  prepared : s.prepare clock wall = .done p
  /-- Every formula that depends on a changed variable is evaluated. -/
  formulas : ∀ q ∈ p.dirty, ∀ id, (q, .formula id) ∈ s.engine.state.triggers.edges →
    ∃ run ∈ report.formulas, run.formula = id
  /-- The units that are new or depend on a changed variable are due. -/
  due : ∀ u, u ∈ p.due ↔ u ∈ s.engine.state.fresh ∨
    u.isFormula = false ∧ ∃ q ∈ p.dirty, (q, u) ∈ s.engine.state.triggers.edges
  /-- All due units run in order. -/
  units : report.units.map UnitRun.unit = p.due
  /-- They are executed, one after another. -/
  executed : Executions p.stage report.units s'
  /-- What is recorded is appended, under the labels of formulas that were
  evaluated and of units that ran. -/
  logs : Logs s.engine.state ((report.formulas.map fun run => .formula run.formula) ++ p.due)
    s.engine s'.engine
  /-- What fails in its turn is contained and recorded. -/
  failures : ∃ b, s.begin clock = .done b ∧
    ∀ turn ∈ b.evaluations (report.formulas.map FormulaRun.formula) ++ p.stage.turns p.due,
      ∀ failure, turn.1.Fails failure turn.2 →
        turn.1.Contains failure turn.2 ∧ Recorded s.engine.state turn.2 failure s'.engine

/-- The formulas of a tick: those that depend on a changed variable are
evaluated, and what fails in its turn is contained and recorded. -/
theorem formulas_of_prepare {s : Stage C R} {clock : Time.Clock} {wall : Time.Instant}
    {p : Prepared C R} (hs : s.engine.state.WellFormed) (h : s.prepare clock wall = .done p) :
    (∀ q ∈ p.dirty, ∀ id, (q, .formula id) ∈ s.engine.state.triggers.edges →
      ∃ run ∈ p.formulas, run.formula = id) ∧
    Logs s.engine.state (p.formulas.map fun run => .formula run.formula) s.engine
      p.stage.engine ∧
    ∃ b, s.begin clock = .done b ∧
      ∀ turn ∈ b.evaluations (p.formulas.map FormulaRun.formula),
        ∀ failure, turn.1.Fails failure turn.2 →
          turn.1.Contains failure turn.2 ∧
            Recorded s.engine.state turn.2 failure p.stage.engine := by
  obtain ⟨now, hnow, h⟩ := Outcome.bind_eq_done_iff.mp h
  obtain ⟨a, hadvance, h⟩ := Outcome.bind_eq_done_iff.mp h
  obtain ⟨q, hpropagate, h⟩ := Outcome.bind_eq_done_iff.mp h
  obtain rfl := Outcome.done.inj h
  have hadvances := advance_spec hs.generator_kind hadvance
  have hshape := sameShape_beginTick now hadvances
  have hsbegin := wellFormed_beginTick now hs hadvances
  obtain ⟨hlogs, hfailed⟩ := passes_spec hsbegin (Propagation.propagate_passes hpropagate)
  have hbegin := Stage.begin_eq_done hnow hadvance
  refine ⟨fun i hi id hedge => ?_, ?_, _, hbegin, fun turn hturn failure hfails => ?_⟩
  · exact Propagation.propagate_serves hsbegin hpropagate hi hedge
  · exact hlogs.of_sameShape hshape
  · obtain ⟨hcontains, hrecorded⟩ := hfailed s.panel turn hturn failure hfails
    exact ⟨hcontains, hrecorded.of_sameShape hshape⟩

/-- Due units are rules and scripts. -/
theorem isFormula_of_due {s : Stage C R} {p : Prepared C R} (hs : s.engine.state.WellFormed)
    (h : Prepares s p) {u : UnitRef} (hu : u ∈ p.due) : u.isFormula = false := by
  rcases (h.due u).mp hu with hnew | ⟨hkind, -⟩
  · exact (hs.fresh u hnew).1
  · exact hkind

/-- A tick that returns has done everything it has to do. -/
theorem survives_of_tick {s s' : Stage C R} {clock : Time.Clock} {wall : Time.Instant}
    {report : TickReport} (hs : s.engine.state.WellFormed)
    (h : s.tick clock wall = .done (s', report)) : ∃ p, Survives s clock wall s' report p := by
  obtain ⟨p, hticked⟩ := ticked_of_tick hs h
  have hprepares := hticked.prepares
  obtain ⟨hserved, hlogs, b, hbegin, hfailed⟩ := formulas_of_prepare hs hticked.prepared
  obtain ⟨hmore, hstopped⟩ :=
    runUnits_logs (fun u hu => isFormula_of_due hs hprepares hu) hticked.ran
  have hlater := hmore.of_sameShape hprepares.shape
  refine ⟨p, ⟨h, hticked.prepared, ?_, hprepares.due, hticked.units, hticked.executions hs, ?_, b,
    hbegin, ?_⟩⟩
  · rw [hticked.formulas]
    exact hserved
  · rw [hticked.formulas]
    exact hlogs.trans hlater
  · rw [hticked.formulas]
    intro turn hturn failure hfails
    rcases List.mem_append.mp hturn with hformula | hunit
    · obtain ⟨hcontains, hrecorded⟩ := hfailed turn hformula failure hfails
      exact ⟨hcontains, hrecorded.of_logs hlater⟩
    · obtain ⟨hcontains, hrecorded⟩ := hstopped turn hunit failure hfails
      exact ⟨hcontains, hrecorded.of_sameShape hprepares.shape⟩

end Ticks

section Bundled

open Script

variable {L : Language} {limits : Script.Limits} {nesting : Nat}

/-- No unit of a display with the bundled compiler and interpreter clamps a
number between bounds that are not in order, whatever variables are in scope,
whatever modules are loaded and whatever the host replies. -/
structure State.CallsSafely (s : State (.expressions L limits nesting)) : Prop where
  /-- No formula does. -/
  formulas : ∀ unit ∈ s.formulas, ∀ scope,
    ((unit.formula : Formula.ExpressionFormula).expression.course scope).Avoids Crossed
  /-- No rule does. -/
  rules : ∀ unit ∈ s.rules, ∀ e ∈ unit.rule.expressions, ∀ scope,
    (e.course scope).Avoids Crossed
  /-- No script does. -/
  scripts : ∀ unit ∈ s.scripts, ∀ code, L.script limits unit.body = .ok code →
    ∀ modules, (code.course modules).Avoids Crossed

/-- The execution of a formula that crosses no bounds returns, whatever data it
was supplied with. -/
theorem execute_of_derives (hreturns : L.ReturnsErrors limits) {source : String}
    {origin f : Formula.ExpressionFormula}
    (hcompiled : (FormulaCompiler.expressions L limits nesting).compile source = .ok origin)
    (havoids : ∀ scope, (origin.expression.course scope).Avoids Crossed)
    (hf : (FormulaCompiler.expressions L limits nesting).Derives origin f) :
    ∃ ran, (FormulaCompiler.expressions L limits nesting).execute f = .done ran := by
  obtain ⟨text, -, hexpression, -⟩ := Formula.ExpressionFormula.exists_of_compile hcompiled
  obtain ⟨hformula, -⟩ := FormulaCompiler.derives_expressions hf
  have hsafe : f.expression.IsSafe := by
    rw [hformula]
    exact Expression.isSafe_of_compile hreturns hexpression havoids
  obtain ⟨result, hresult⟩ := Formula.ExpressionFormula.execute_eq_done hsafe
  refine ⟨(result, f), ?_⟩
  change (do return (← f.execute, f)) = _
  rw [hresult]
  rfl

/-- The formulas of a display return if their expressions cross no bounds. -/
theorem executes_of_upToDate {s : State (.expressions L limits nesting)}
    {isStale : Nat → VariableId → Prop} (hreturns : L.ReturnsErrors limits)
    (hup : s.UpToDate isStale)
    (hsafe : ∀ unit ∈ s.formulas, ∀ scope,
      ((unit.formula : Formula.ExpressionFormula).expression.course scope).Avoids Crossed) :
    s.Executes := by
  intro unit hunit f hf
  obtain ⟨i, hi⟩ := List.getElem?_of_mem hunit
  obtain ⟨source, origin, v, hstems, -⟩ := hup i unit hi
  obtain ⟨hformula, -⟩ := FormulaCompiler.derives_expressions hstems.derives
  have havoids := hsafe unit hunit
  rw [hformula] at havoids
  exact execute_of_derives hreturns hstems.compiled havoids (hstems.derives.trans hf)

/-- In a state that a display reaches every unit returns if all of them call safely. -/
theorem returns_of_run (settings : Settings) {epoch : Time.Instant} {panel : Panel}
    {operations : List Operation} {answers : List Answer}
    {s : Stage (.expressions L settings.limits nesting) (.bundled L settings.limits)}
    (hreturns : L.ReturnsErrors settings.limits)
    (hrun : (Stage.mk (Engine.start (.expressions L settings.limits nesting)
      (.bundled L settings.limits) settings epoch) panel).run operations = .done (answers, s))
    (hsafe : s.engine.state.CallsSafely) :
    s.Returns (Memory.IsSettled settings.limits) := by
  obtain ⟨hsettings, hgood, hcompiled⟩ := run_outside (keeps_bundled L settings.limits) hrun
  constructor
  case formulas =>
    exact executes_of_upToDate hreturns (session_of_run hrun).upToDate hsafe.formulas
  case rules =>
    intro unit hunit snapshots w
    obtain ⟨d, w', -, hrule⟩ := hcompiled unit hunit
    rw [hsettings] at hrule
    refine Rule.execute_eq_done (fun e he => ?_) snapshots w
    obtain ⟨source, -, hexpression⟩ := Rule.parse_of_compile hrule he
    exact Expression.isSafe_of_compile hreturns hexpression (hsafe.rules unit hunit e he)
  case scripts =>
    intro unit hunit memory context hmemory
    exact runBody_eq_done hreturns hmemory (hsafe.scripts unit hunit) context
  case memory => exact hgood

end Bundled

/-- In every state that a display with the bundled compiler and interpreter
reaches, a tick returns if it is within the calendar, every clock can be written
and no unit clamps a number between bounds that are not in order. The language
may be any that returns errors for its own failures. Whatever fails in the tick
is recorded, and everything else has its turn. -/
theorem tick_survives (L : Script.Language) (settings : Settings) (nesting : Nat)
    (hreturns : L.ReturnsErrors settings.limits) {epoch : Time.Instant} {panel : Panel}
    {operations : List Operation} {answers : List Answer}
    {s : Stage (.expressions L settings.limits nesting) (.bundled L settings.limits)}
    (hrun : (Stage.mk (Engine.start (.expressions L settings.limits nesting)
      (.bundled L settings.limits) settings epoch) panel).run operations = .done (answers, s))
    (hsafe : s.engine.state.CallsSafely)
    (hwritable : ∀ slot ∈ s.engine.state.generators, slot.generator.source.isWritable = true)
    {clock : Time.Clock} (hclock : s.engine.state.epoch + Time.offsetOf clock ≤ Time.lastInstant)
    (wall : Time.Instant) : ∃ s' report p, Survives s clock wall s' report p := by
  have hs := (session_of_run hrun).wellFormed
  have hnow : Time.instantAt s.engine.state.epoch clock =
      .done (s.engine.state.epoch + Time.offsetOf clock) := if_pos hclock
  have hgenerators : ∀ slot ∈ s.engine.state.generators, ∃ stepped,
      slot.generator.step clock (s.engine.state.epoch + Time.offsetOf clock) = .done stepped :=
    fun slot hslot => Generator.step_eq_done (hwritable slot hslot) _ _
  obtain ⟨s', report, htick⟩ := tick_returns wall hs (Script.keeps_bundled L settings.limits)
    (returns_of_run settings hreturns hrun hsafe) hnow hgenerators
  obtain ⟨p, hsurvives⟩ := survives_of_tick hs htick
  exact ⟨s', report, p, hsurvives⟩

section Standard

open Script

/-- Whether every call of `clamp` in a formula has its bounds written in order. -/
def ordersFormula (limits : Script.Limits) (source : String) : Bool :=
  (Formula.replaceReferences source).toOption.all fun found => ordersExpression limits found.1

/-- Whether every call of `clamp` in a formula that a name spells has its bounds
written in order. -/
def ordersName (limits : Script.Limits) (name : String) : Bool :=
  match name.toList with
  | '=' :: source => ordersFormula limits (String.ofList source)
  | _ => true

/-- In the standard language a formula with all bounds in order crosses none. -/
theorem avoids_of_ordersName {limits : Script.Limits} {nesting : Nat}
    (hlimit : limits.operations ≠ 0) {source : String} {origin : Formula.ExpressionFormula}
    (hcompiled : (FormulaCompiler.expressions .standard limits nesting).compile source =
      .ok origin)
    (h : ordersName limits ("=" ++ source) = true) (scope : List Slot) :
    (origin.expression.course scope).Avoids Crossed := by
  obtain ⟨text, hreplaced, hexpression, -⟩ :=
    Formula.ExpressionFormula.exists_of_compile hcompiled
  have hsource : ordersFormula limits source = true := by
    rw [ordersName, String.toList_append] at h
    rw [← String.ofList_toList (s := source)]
    exact h
  rw [ordersFormula, hreplaced] at hsource
  exact avoids_of_ordersExpression hlimit hexpression hsource scope

/-- Whether every call of `clamp` in a rule of an operation has its bounds
written in order. -/
def Operation.ordersRule (limits : Script.Limits) : Operation → Bool
  | .addRule _ d => (Rule.sources d).all (ordersExpression limits)
  | _ => true

/-- Whether every call of `clamp` in the texts of a display has its bounds
written in order: in the names of formulas, in the rules of its operations and
in the bodies of scripts. -/
def State.ordersBounds {C : FormulaCompiler} (limits : Script.Limits)
    (operations : List Operation) (s : State C) : Bool :=
  (s.vars.all fun v => ordersName limits v.name) &&
    operations.all (Operation.ordersRule limits) &&
    s.scripts.all fun unit => ordersScript limits unit.body

/-- In the standard language a display whose texts have all bounds in order calls
safely. -/
theorem callsSafely_of_ordersBounds (settings : Settings) {nesting : Nat} {epoch : Time.Instant}
    {panel : Panel} {operations : List Operation} {answers : List Answer}
    {s : Stage (.expressions .standard settings.limits nesting)
      (.bundled .standard settings.limits)}
    (hlimit : settings.limits.operations ≠ 0)
    (hrun : (Stage.mk (Engine.start (.expressions .standard settings.limits nesting)
      (.bundled .standard settings.limits) settings epoch) panel).run operations =
        .done (answers, s))
    (h : s.engine.state.ordersBounds settings.limits operations = true) :
    s.engine.state.CallsSafely := by
  obtain ⟨h, hscripts⟩ := Bool.and_eq_true_iff.mp h
  obtain ⟨hnames, hrules⟩ := Bool.and_eq_true_iff.mp h
  obtain ⟨hsettings, -, hcompiled⟩ := run_outside (keeps_bundled .standard settings.limits) hrun
  constructor
  case formulas =>
    intro unit hunit
    obtain ⟨i, hi⟩ := List.getElem?_of_mem hunit
    obtain ⟨source, origin, v, hstems, -⟩ := (session_of_run hrun).upToDate i unit hi
    obtain ⟨hformula, -⟩ := FormulaCompiler.derives_expressions hstems.derives
    have hordered := List.all_eq_true.mp hnames v (List.mem_of_getElem? hstems.computes)
    rw [hstems.name] at hordered
    have havoids := avoids_of_ordersName hlimit hstems.compiled hordered
    rw [hformula]
    exact havoids
  case rules =>
    intro unit hunit e he
    obtain ⟨d, w, ⟨widget, hadd⟩, hrule⟩ := hcompiled unit hunit
    rw [hsettings] at hrule
    obtain ⟨source, hsource, hexpression⟩ := Rule.parse_of_compile hrule he
    have hordered := List.all_eq_true.mp hrules _ hadd
    exact avoids_of_ordersExpression hlimit hexpression
      (List.all_eq_true.mp hordered source hsource)
  case scripts =>
    intro unit hunit code hcode
    exact avoids_of_ordersScript hlimit hcode (List.all_eq_true.mp hscripts unit hunit)

end Standard

/-- A rule whose condition calls a function that does not exist. -/
def failingRule : RuleDeclaration where
  name := "bad"
  property := "seen"
  outputs := [⟨"nothing(pv0)", "1"⟩]
  inputs := [{ name := "loc://a(5)" }]

/-- A script that throws. -/
def failingScript : ScriptDeclaration where
  name := "bad"
  body := "throw 1;"
  inputs := [{ name := "loc://a(5)" }]

/-- A script that keeps its first input within bounds and writes its second one. -/
def boundingScript : ScriptDeclaration where
  name := "good"
  body := "write_pv(1, clamp(pv_double(0), 0.0, 6.0));"
  inputs := [{ name := "loc://a(5)" }, { name := "loc://out(0)", isTrigger := false }]

/-- A clock, and a formula, a rule and a script that fail, with a script after
them that does not. -/
def failingRun : List Operation :=
  [.create "sys://time", .create "=nothing('loc://a(5)')", .addRule 0 failingRule,
    .addScript 0 failingScript, .addScript 0 boundingScript, .tick 0 0, .takeErrors,
    .setValue "loc://a" (.number 7)]

/-- The next tick records three failures, and the last script has its turn. -/
theorem tick_survives_failures : ∃ answers s s' report p,
    (bareStage [numberWidget]).run failingRun = .done (answers, s) ∧
      Survives s 1000 0 s' report p ∧
      report.units.map UnitRun.unit = [.rule 0, .script 0, .script 1] ∧
      s'.engine.errors.map UnitFailure.unit =
        ["=nothing('loc://a(5)')", "rule 'bad'", "script 'bad'"] ∧
      s'.engine.value? "loc://out" = some (.number 6) := by
  obtain ⟨⟨answers, s⟩, hrun, hcheck⟩ := done_of_any
    (fun reached : List Answer × BundledStage =>
      reached.2.engine.state.ordersBounds {} failingRun &&
        (reached.2.engine.state.generators.all fun slot => slot.generator.source.isWritable) &&
        decide (reached.2.engine.state.epoch + Time.offsetOf 1000 ≤ Time.lastInstant) &&
        (reached.2.tick 1000 0).value?.any fun ticked : BundledStage × TickReport =>
          decide (ticked.2.units.map UnitRun.unit = [.rule 0, .script 0, .script 1]) &&
            decide (ticked.1.engine.errors.map UnitFailure.unit =
              ["=nothing('loc://a(5)')", "rule 'bad'", "script 'bad'"]) &&
            decide (ticked.1.engine.value? "loc://out" = some (Value.number 6)))
    (show ((bareStage [numberWidget]).run failingRun).value?.any _ = true by decide +kernel)
  obtain ⟨hstate, hcheck⟩ := Bool.and_eq_true_iff.mp hcheck
  obtain ⟨hstate, hclock⟩ := Bool.and_eq_true_iff.mp hstate
  obtain ⟨hsafe, hwritable⟩ := Bool.and_eq_true_iff.mp hstate
  have hlimit : ({} : Script.Limits).operations ≠ 0 := by decide
  obtain ⟨s', report, p, hsurvives⟩ := tick_survives .standard {} 1000
    (Script.returnsErrors_standard hlimit) (run_bareStage hrun)
    (callsSafely_of_ordersBounds {} hlimit (run_bareStage hrun) hsafe)
    (List.all_eq_true.mp hwritable) (of_decide_eq_true hclock) 0
  rw [hsurvives.returned] at hcheck
  obtain ⟨hfound, hvalue⟩ := Bool.and_eq_true_iff.mp hcheck
  obtain ⟨hunits, herrors⟩ := Bool.and_eq_true_iff.mp hfound
  exact ⟨answers, s, s', report, p, hrun, hsurvives, of_decide_eq_true hunits,
    of_decide_eq_true herrors, of_decide_eq_true hvalue⟩

/-- An outcome without a result is the end of the program. -/
theorem eq_crash_of_isNone {α : Type} {outcome : Outcome α} (h : outcome.value?.isNone = true) :
    outcome = .crash := by
  cases outcome with
  | done a => cases h
  | crash => rfl

/-- A formula whose bounds a write crosses. -/
def crossingRun : List Operation :=
  [.create "=clamp('loc://x(1)', 0.0, 'loc://hi(5)')", .setValue "loc://hi" (.number (-1))]

/-- A display whose clock has a pattern that can be read but not be written. -/
def mutedStage : BundledStage :=
  ⟨Engine.start (.expressions .standard {} 1000) (.bundled .standard {})
    { clockPattern := "%#z" } 0, []⟩

/-- Crossed bounds, an instant beyond the calendar and a clock that cannot be
written: each of them ends the program in a tick. -/
theorem tick_crashes :
    (∃ answers s, (bareStage []).run crossingRun = .done (answers, s) ∧
      s.tick 1000000000 0 = .crash) ∧
    (bareStage []).tick (9000000000000000000 * Time.nanosPerMilli) 0 = .crash ∧
    ∃ answers s, mutedStage.run [.create "sys://time"] = .done (answers, s) ∧
      s.tick 0 0 = .crash := by
  refine ⟨?_, eq_crash_of_isNone (by decide +kernel), ?_⟩
  · obtain ⟨⟨answers, s⟩, hrun, hcheck⟩ := done_of_any
      (fun reached : List Answer × BundledStage =>
        (reached.2.tick 1000000000 0).value?.isNone)
      (show ((bareStage []).run crossingRun).value?.any _ = true by decide +kernel)
    exact ⟨answers, s, hrun, eq_crash_of_isNone hcheck⟩
  · obtain ⟨⟨answers, s⟩, hrun, hcheck⟩ := done_of_any
      (fun reached : List Answer × BundledStage => (reached.2.tick 0 0).value?.isNone)
      (show (mutedStage.run [.create "sys://time"]).value?.any _ = true by decide +kernel)
    exact ⟨answers, s, hrun, eq_crash_of_isNone hcheck⟩

end Engine

end ProcessDisplay
