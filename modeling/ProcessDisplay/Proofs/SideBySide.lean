import Mathlib.Tactic.Common
import ProcessDisplay.Proofs.Actions
import ProcessDisplay.Proofs.RunIsolation

/-!
# Engines side by side

Two engines that differ only in what their interpreters remember go through
the same operations with the same answers, if no answer of the interpreter
tells between the two memories. This is shown for each part of an operation,
with closure lemmas for the ways in which parts are put together.
-/

namespace ProcessDisplay

namespace Engine

variable {C : FormulaCompiler} {R : ScriptInterpreter} {α β : Type}

/-- What engines side by side have in common as long as they last. -/
structure Common (R : ScriptInterpreter) where
  /-- The settings. -/
  settings : Settings
  /-- The seed. -/
  seed : UInt64
  /-- Which memories of the interpreters belong together. -/
  same : R.Memory → R.Memory → Prop
  /-- No answer tells between them. -/
  confuses : R.Confuses same

variable {c : Common R}

/-- Engines that differ at most in what the interpreter remembers, and in
whether their seed was given. -/
structure Alike (c : Common R) (e e' : Engine C R) : Prop where
  /-- The settings of the first engine. -/
  settings : e.settings = c.settings
  /-- The settings of the second engine, besides the seed. -/
  settings' : { e'.settings with seed := c.settings.seed } = c.settings
  /-- The seed of the first engine. -/
  seed : e.seed = c.seed
  /-- The seed of the second engine. -/
  seed' : e'.seed = c.seed
  /-- The state of the display. -/
  state : e'.state = e.state
  /-- The recorded failures. -/
  errors : e'.errors = e.errors
  /-- The recorded messages. -/
  messages : e'.messages = e.messages
  /-- What the interpreters remember. -/
  remembers : c.same e.memory e'.memory

namespace Alike

variable {e e' : Engine C R} (h : Alike c e e')

include h

/-- The limits of scripts and expressions. -/
theorem limits : e'.settings.limits = e.settings.limits := by
  rw [h.settings]
  exact h.settings' ▸ rfl

/-- The pattern of the clock. -/
theorem clockPattern : e'.settings.clockPattern = e.settings.clockPattern := by
  rw [h.settings]
  exact h.settings' ▸ rfl

/-- The interval of the clock. -/
theorem clockSeconds : e'.settings.clockSeconds = e.settings.clockSeconds := by
  rw [h.settings]
  exact h.settings' ▸ rfl

/-- The seeds. -/
theorem sameSeed : e'.seed = e.seed := h.seed'.trans h.seed.symm

/-- Another state of the display. -/
theorem withState (s : State C) : Alike c (e.withState s) (e'.withState s) :=
  ⟨h.settings, h.settings', h.seed, h.seed', rfl, h.errors, h.messages, h.remembers⟩

/-- Other failures. -/
theorem withErrors (errors : List UnitFailure) :
    Alike c { e with errors } { e' with errors } :=
  ⟨h.settings, h.settings', h.seed, h.seed', h.state, rfl, h.messages, h.remembers⟩

/-- Other messages. -/
theorem withMessages (messages : List Script.Message) :
    Alike c { e with messages } { e' with messages } :=
  ⟨h.settings, h.settings', h.seed, h.seed', h.state, h.errors, rfl, h.remembers⟩

/-- Other things to remember. -/
theorem withMemory {memory memory' : R.Memory} (hmemory : c.same memory memory') :
    Alike c { e with memory } { e' with memory := memory' } :=
  ⟨h.settings, h.settings', h.seed, h.seed', h.state, h.errors, h.messages, hmemory⟩

/-- One more recorded failure. -/
theorem record (unit : String) (failure : Failure) :
    Alike c (e.record unit failure) (e'.record unit failure) := by
  unfold Engine.record
  rw [h.errors]
  exact h.withErrors _

end Alike

/-- The same result with engines that are alike. -/
def SameResult (c : Common R) (x y : α × Engine C R) : Prop :=
  x.1 = y.1 ∧ Alike c x.2 y.2

/-- A result for the variable of a formula. -/
theorem Alike.accept {e e' : Engine C R} (h : Alike c e e') (id : VariableId)
    (severity : Severity) (result : Except Failure Value) :
    SameResult c (e.accept id severity result) (e'.accept id severity result) := by
  cases result with
  | ok value =>
    unfold Engine.accept
    dsimp only
    rw [h.state]
    exact ⟨rfl, h.withState _⟩
  | error failure =>
    unfold Engine.accept
    dsimp only
    rw [h.state]
    cases e.state.vars[id]? with
    | none => exact ⟨rfl, h⟩
    | some v => exact ⟨rfl, (h.record v.name failure).withState _⟩

/-- The evaluation of a formula. -/
theorem Alike.evaluateFormula {e e' : Engine C R} (h : Alike c e e') (id : Nat) :
    Outcome.Match (SameResult c) (evaluateFormula id e) (evaluateFormula id e') := by
  unfold Engine.evaluateFormula
  rw [h.state]
  cases e.state.formulas[id]? with
  | none => exact .done ⟨rfl, h⟩
  | some unit =>
    dsimp only
    split
    · refine (Outcome.Match.refl _).bind fun executed executed' hexecuted => ?_
      subst hexecuted
      exact .done ((h.withState _).accept _ _ _)
    · exact .done ⟨rfl, h.withState _⟩

namespace Action

/-- Actions that do the same on engines that are alike. -/
def Matches (c : Common R) (first second : Action C R α) : Prop :=
  ∀ e e', Alike c e e' → Outcome.Match (SameResult c) (first e) (second e')

/-- A known result. -/
theorem matches_ofExcept {result : Except Failure α} :
    Matches c (ofExcept result : Action C R α) (ofExcept result) :=
  fun _ _ h => .done ⟨rfl, h⟩

/-- A success. -/
theorem matches_pure {a : α} : Matches c (pure a : Action C R α) (pure a) :=
  fun _ _ h => .done ⟨rfl, h⟩

/-- A change of the state. -/
theorem matches_update {change : State C → State C} :
    Matches c (update change : Action C R Unit) (update change) := by
  intro e e' h
  unfold update
  rw [h.state]
  exact .done ⟨rfl, h.withState _⟩

/-- A computation of the engine. -/
theorem matches_ofOutcome {compute : Engine C R → Outcome (α × Engine C R)}
    (hcompute : ∀ e e', Alike c e e' →
      Outcome.Match (SameResult c) (compute e) (compute e')) :
    Matches c (ofOutcome compute) (ofOutcome compute) := fun e e' h =>
  (hcompute e e' h).bind fun _ _ hsame => .done ⟨congrArg Except.ok hsame.1, hsame.2⟩

/-- Sequencing as that of outcomes. -/
theorem bind_eq (first : Action C R α) (next : α → Action C R β) (e : Engine C R) :
    (first >>= next) e = first e >>= fun ended =>
      match ended.1 with
      | .error failure => .done (.error failure, ended.2)
      | .ok a => next a ended.2 := by
  rw [bind_apply]
  rcases first e with ⟨_ | _, _⟩ | _ <;> rfl

/-- A sequence. -/
theorem Matches.bind {first first' : Action C R α} {next next' : α → Action C R β}
    (hfirst : Matches c first first') (hnext : ∀ a, Matches c (next a) (next' a)) :
    Matches c (first >>= next) (first' >>= next') := by
  intro e e' h
  rw [bind_eq, bind_eq]
  refine (hfirst e e' h).bind fun ended ended' ⟨hresult, hafter⟩ => ?_
  rw [← hresult]
  cases ended.1 with
  | error failure => exact .done ⟨rfl, hafter⟩
  | ok a => exact hnext a ended.2 ended'.2 hafter

/-- A part that depends on the engine as it is. -/
theorem matches_current {next next' : Engine C R → Action C R β}
    (h : ∀ e e', Alike c e e' → Matches c (next e) (next' e')) :
    Matches c (current >>= next) (current >>= next') :=
  fun e e' halike => h e e' halike e e' halike

/-- Something for each of some items. -/
theorem matches_mapM {act : α → Action C R β} (hact : ∀ a, Matches c (act a) (act a))
    (items : List α) : Matches c (items.mapM act) (items.mapM act) := by
  induction items with
  | nil => exact matches_pure
  | cons first rest ih =>
    rw [List.mapM_cons]
    exact (hact first).bind fun _ => ih.bind fun _ => matches_pure

/-- A whole as a sequence of outcomes. -/
theorem transaction_eq (build : Action C R α) (e : Engine C R) :
    transaction build e = build e >>= fun ended =>
      match ended.1 with
      | .error failure => .done (.error failure,
          { ended.2.withState (ended.2.state.rollback e.state.checkpoint) with
            errors := ended.2.errors.take e.errors.length })
      | .ok _ => .done ended := by
  unfold transaction
  rcases build e with ⟨_ | _, _⟩ | _ <;> rfl

/-- Something done as a whole. -/
theorem Matches.transaction {build build' : Action C R α} (h : Matches c build build') :
    Matches c (transaction build) (transaction build') := by
  intro e e' halike
  rw [transaction_eq, transaction_eq]
  refine (h e e' halike).bind fun ended ended' ⟨hresult, hafter⟩ => ?_
  rw [← hresult]
  cases ended.1 with
  | error failure =>
    dsimp only
    rw [hafter.state, hafter.errors, halike.state, halike.errors]
    exact .done ⟨rfl, (hafter.withState _).withErrors _⟩
  | ok a => exact .done ⟨hresult, hafter⟩

/-- A variable that a generator drives. -/
theorem matches_attach {key : String} {generator : Generator} :
    Matches c (attach key generator : Action C R VariableId) (attach key generator) := by
  refine matches_current fun e e' h => ?_
  rw [h.state]
  exact matches_update.bind fun _ => matches_pure

/-- The variable of a formula. -/
theorem matches_createFormula {resolve : String → Action C R VariableId}
    (hresolve : ∀ name, Matches c (resolve name) (resolve name)) {key expression : String} :
    Matches c (createFormula resolve key expression)
      (createFormula resolve key expression) := by
  refine matches_ofExcept.bind fun formula => matches_current fun e e' h => ?_
  rw [h.state]
  refine matches_ofExcept.bind fun _ => (matches_mapM hresolve _).bind fun parameters =>
    matches_current fun e₁ e₁' h₁ => ?_
  dsimp only
  rw [h₁.state]
  refine matches_update.bind fun _ => ?_
  have hevaluated : Matches c (ofOutcome (evaluateFormula e₁.state.formulas.length))
      (ofOutcome (evaluateFormula e₁.state.formulas.length) : Action C R Bool) :=
    matches_ofOutcome fun e e' h => h.evaluateFormula e₁.state.formulas.length
  refine hevaluated.bind fun changed => ?_
  split
  · exact matches_update.bind fun _ => matches_pure
  · exact matches_pure

/-- The variable of a name that is not registered. -/
theorem matches_createNamed {resolve : String → Action C R VariableId}
    (hresolve : ∀ name, Matches c (resolve name) (resolve name)) (parsed : VariableName) :
    Matches c (createNamed resolve parsed) (createNamed resolve parsed) := by
  cases parsed with
  | localVariable name initializer =>
    refine matches_current fun e e' h => ?_
    rw [h.state]
    exact matches_update.bind fun _ => matches_pure
  | simulated function arguments =>
    refine matches_current fun e e' h => ?_
    rw [h.state, h.sameSeed]
    exact matches_attach
  | clock =>
    refine matches_current fun e e' h => ?_
    dsimp only
    rw [h.clockPattern, h.clockSeconds]
    exact matches_attach
  | formula expression => exact matches_createFormula hresolve

/-- The variable of a name. -/
theorem matches_resolve (depth : Nat) (name : String) :
    Matches c (resolve depth name : Action C R VariableId) (resolve depth name) := by
  induction depth generalizing name with
  | zero => exact fun _ _ _ => .crash
  | succ depth ih =>
    refine matches_current fun e e' h => ?_
    dsimp only
    rw [h.state]
    split
    · exact matches_pure
    · refine matches_ofExcept.bind fun parsed => ?_
      split
      · split
        · exact matches_update.bind fun _ => matches_pure
        · exact matches_pure
      · exact matches_createNamed ih parsed

/-- The variables of names. -/
theorem matches_resolveAll (names : List String) :
    Matches c (resolveAll names : Action C R (List VariableId)) (resolveAll names) :=
  matches_mapM (matches_resolve (C.nesting + 1)) names

/-- The variables of inputs. -/
theorem matches_createInputs (inputs : List Input) :
    Matches c (createInputs inputs : Action C R (List VariableId)) (createInputs inputs) := by
  refine matches_current fun e e' h => ?_
  rw [h.state]
  exact matches_ofExcept.bind fun _ => (matches_resolveAll _).transaction

/-- A variable with a custom generator. -/
theorem matches_registerGenerator (name : String) (generator : Generator) :
    Matches c (registerGenerator name generator : Action C R VariableId)
      (registerGenerator name generator) := by
  unfold registerGenerator
  dsimp only
  split
  · exact matches_ofExcept
  · refine matches_current fun e e' h => ?_
    rw [h.state]
    split
    · exact matches_ofExcept
    · exact matches_attach

/-- A write to a variable. -/
theorem matches_setValue (name : String) (value : Value) :
    Matches c (setValue name value : Action C R Unit) (setValue name value) := by
  intro e e' h
  unfold setValue
  rw [h.state]
  split
  · exact .done ⟨rfl, h⟩
  · split
    · exact .done ⟨rfl, h.withState _⟩
    · exact .done ⟨rfl, h⟩

/-- A rule. -/
theorem matches_addRule (panel : Panel) (widget : Nat) (d : RuleDeclaration) :
    Matches c (addRule panel widget d : Action C R Nat) (addRule panel widget d) := by
  refine matches_current fun e e' h => ?_
  dsimp only
  rw [h.limits]
  refine matches_ofExcept.bind fun rule => (matches_createInputs _).bind fun inputs =>
    matches_current fun e₁ e₁' h₁ => ?_
  rw [h₁.state]
  exact matches_update.bind fun _ => matches_pure

/-- The check of a body. -/
theorem matches_validate (name body : String) :
    Matches c (validate name body : Action C R Unit) (validate name body) := by
  intro e e' h
  unfold validate
  dsimp only
  obtain ⟨hresult, hmemory⟩ := c.confuses.validate body h.remembers
  rw [hresult]
  exact .done ⟨rfl, h.withMemory hmemory⟩

/-- A script. -/
theorem matches_addScript (widget : Nat) (d : ScriptDeclaration) :
    Matches c (addScript widget d : Action C R Nat) (addScript widget d) := by
  refine (matches_validate _ _).bind fun _ => (matches_createInputs _).bind fun inputs =>
    matches_current fun e e' h => ?_
  dsimp only
  rw [h.state]
  exact matches_update.bind fun _ => matches_pure

/-- A trace. -/
theorem matches_createTrace (request : TraceRequest) :
    Matches c (createTrace request : Action C R Nat) (createTrace request) := by
  refine matches_ofExcept.bind fun _ => matches_current fun e e' h => ?_
  dsimp only
  rw [h.state]
  refine matches_ofExcept.bind fun _ => (matches_resolveAll _).transaction.bind fun ids =>
    matches_current fun e₁ e₁' h₁ => ?_
  rw [h₁.state]
  exact matches_update.bind fun _ => matches_pure

end Action

/-- Propagations on engines that are alike. -/
structure Propagation.Alike (c : Common R) (p p' : Propagation C R) : Prop where
  /-- The engines so far. -/
  engine : Engine.Alike c p.engine p'.engine
  /-- The waiting variables. -/
  queue : p'.queue = p.queue
  /-- The changed variables. -/
  dirty : p'.dirty = p.dirty
  /-- The evaluations. -/
  runs : p'.runs = p.runs

namespace Propagation.Alike

variable {p p' : Propagation C R}

/-- The evaluation of a formula. -/
theorem visit (h : p.Alike c p') (id : Nat) :
    Outcome.Match (Propagation.Alike c) (p.visit id) (p'.visit id) := by
  refine (h.engine.evaluateFormula id).bind fun ended ended' ⟨hchanged, hafter⟩ => ?_
  obtain ⟨changed, e₁⟩ := ended
  obtain ⟨changed', e₁'⟩ := ended'
  obtain rfl : changed = changed' := hchanged
  dsimp only at hafter ⊢
  rw [hafter.state, h.queue, h.dirty, h.runs]
  split
  · split
    · exact .done ⟨hafter, rfl, rfl, rfl⟩
    · exact .done ⟨hafter, rfl, rfl, rfl⟩
  · exact .done ⟨hafter, rfl, rfl, rfl⟩

/-- The evaluations of formulas. -/
theorem visitAll (h : p.Alike c p') (ids : List Nat) :
    Outcome.Match (Propagation.Alike c) (p.visitAll ids) (p'.visitAll ids) := by
  induction ids generalizing p p' with
  | nil => exact .done h
  | cons id rest ih => exact (h.visit id).bind fun _ _ hafter => ih hafter

/-- The formulas of the waiting variables. -/
theorem settle (h : p.Alike c p') (bound : Nat) :
    Outcome.Match (Propagation.Alike c) (p.settle bound) (p'.settle bound) := by
  induction bound generalizing p p' with
  | zero => exact .done h
  | succ bound ih =>
    unfold Propagation.settle
    rw [h.queue]
    split
    · exact .done h
    · next first rest _ =>
      have hrest : Propagation.Alike c { p with queue := rest } { p' with queue := rest } :=
        ⟨h.engine, rfl, h.dirty, h.runs⟩
      unfold Propagation.advance
      rw [h.engine.state]
      exact (hrest.visitAll _).bind fun _ _ hafter => ih hafter

end Propagation.Alike

/-- The propagation of changed variables. -/
theorem Alike.propagate {e e' : Engine C R} (h : Alike c e e') (dirty : VariableSet) :
    Outcome.Match (Propagation.Alike c) (propagate e dirty) (propagate e' dirty) := by
  have hbegin : (Propagation.begin e dirty).Alike c (Propagation.begin e' dirty) :=
    ⟨h, rfl, rfl, rfl⟩
  unfold Engine.propagate
  rw [h.state]
  exact hbegin.settle _

/-- Stages with engines that are alike and with the same widgets. -/
structure Stage.Alike (c : Common R) (s s' : Stage C R) : Prop where
  /-- The engines. -/
  engine : Engine.Alike c s.engine s'.engine
  /-- The widgets. -/
  panel : s'.panel = s.panel

/-- The failure of a script. -/
theorem Alike.recordResult {e e' : Engine C R} (h : Alike c e e') (label : String)
    (result : Except Failure Unit) :
    Alike c (e.recordResult label result) (e'.recordResult label result) := by
  cases result with
  | ok _ => exact h
  | error failure => exact h.record label failure

/-- The writes of a script. -/
theorem Alike.applyWrites {e e' : Engine C R} (h : Alike c e e') (label : String)
    (inputs : List VariableId) (writes : List (Nat × Value)) :
    Alike c (writes.foldl (applyWrite label inputs) e)
      (writes.foldl (applyWrite label inputs) e') := by
  induction writes generalizing e e' with
  | nil => exact h
  | cons first rest ih =>
    refine ih ?_
    unfold applyWrite
    rw [h.state]
    split
    · exact h.record _ _
    · split
      · exact h.withState _
      · exact h.record _ _

namespace Stage.Alike

variable {s s' : Stage C R}

/-- A run of a rule. -/
theorem runRule (h : s.Alike c s') (unit : RuleUnit) (snapshots : List Snapshot) :
    Outcome.Match (Stage.Alike c) (s.runRule unit snapshots) (s'.runRule unit snapshots) := by
  unfold Stage.runRule
  rw [h.panel]
  refine (Outcome.Match.refl _).bind fun result result' hresult => ?_
  subst hresult
  cases result with
  | ok widget => exact .done ⟨h.engine, rfl⟩
  | error failure => exact .done ⟨h.engine.record _ failure, rfl⟩

/-- A run of a script. -/
theorem runScript (h : s.Alike c s') (unit : ScriptUnit)
    (snapshots : List Snapshot) :
    Outcome.Match (Stage.Alike c) (s.runScript unit snapshots)
      (s'.runScript unit snapshots) := by
  unfold Stage.runScript
  rw [h.panel]
  have hran := c.confuses.run unit.body
    { script := unit.name, widget := s.panel.widget unit.widget, snapshots }
    h.engine.remembers
  refine hran.bind fun ran ran' ⟨hsame, hmemory⟩ => ?_
  obtain ⟨⟨result, context⟩, memory⟩ := ran
  obtain ⟨⟨result', context'⟩, memory'⟩ := ran'
  obtain ⟨rfl, rfl⟩ : result = result' ∧ context = context' := Prod.mk.inj hsame
  have hwritten := ((h.engine.withMemory hmemory).recordResult
    ("script '" ++ unit.name ++ "'") result).applyWrites ("script '" ++ unit.name ++ "'")
    unit.inputs context.writes
  dsimp only
  rw [hwritten.messages]
  exact .done ⟨hwritten.withMessages _, rfl⟩

/-- The turn of a unit. -/
theorem runUnit (h : s.Alike c s') (unit : UnitRef) :
    Outcome.Match (fun ended ended' => ended.1.Alike c ended'.1 ∧ ended.2 = ended'.2)
      (s.runUnit unit) (s'.runUnit unit) := by
  unfold Stage.runUnit
  dsimp only
  rw [h.engine.state]
  cases unit with
  | formula id => exact .done ⟨h, rfl⟩
  | rule id =>
    dsimp only
    split
    · exact (h.runRule _ _).bind fun _ _ hafter => .done ⟨hafter, rfl⟩
    · exact .done ⟨h, rfl⟩
  | script id =>
    dsimp only
    split
    · exact (h.runScript _ _).bind fun _ _ hafter => .done ⟨hafter, rfl⟩
    · exact .done ⟨h, rfl⟩

/-- The turns of units. -/
theorem runUnits (h : s.Alike c s') (units : List UnitRef) :
    Outcome.Match (fun ended ended' => ended.1.Alike c ended'.1 ∧ ended.2 = ended'.2)
      (s.runUnits units) (s'.runUnits units) := by
  induction units generalizing s s' with
  | nil => exact .done ⟨h, rfl⟩
  | cons unit rest ih =>
    refine (h.runUnit unit).bind fun _ _ ⟨hfirst, hrun⟩ =>
      (ih hfirst).bind fun _ _ ⟨hrest, hruns⟩ => ?_
    dsimp only
    rw [hrun, hruns]
    exact .done ⟨hrest, rfl⟩

/-- A tick. -/
theorem tick (h : s.Alike c s') (clock : Time.Clock)
    (wall : Time.Instant) :
    Outcome.Match (fun ended ended' => ended.1.Alike c ended'.1 ∧ ended.2 = ended'.2)
      (s.tick clock wall) (s'.tick clock wall) := by
  unfold Stage.tick
  dsimp only
  rw [h.engine.state, h.panel]
  refine (Outcome.Match.refl _).bind fun now now' hnow => ?_
  subst hnow
  refine (Outcome.Match.refl _).bind fun a a' ha => ?_
  subst ha
  have hbegun : Engine.Alike c (s.engine.beginTick a now) (s'.engine.beginTick a now) := by
    unfold beginTick
    rw [h.engine.state]
    exact h.engine.withState _
  refine (hbegun.propagate _).bind fun p p' hp => ?_
  rw [hp.engine.state, hp.dirty, hp.runs]
  have hfed : Stage.Alike c
      ⟨p.engine.withState { p.engine.state.feed p.dirty wall with fresh := [] }, s.panel⟩
      ⟨p'.engine.withState { p.engine.state.feed p.dirty wall with fresh := [] }, s.panel⟩ :=
    ⟨hp.engine.withState _, rfl⟩
  refine (hfed.runUnits _).bind fun ended ended' ⟨hafter, hruns⟩ => ?_
  rw [hruns]
  exact .done ⟨hafter, rfl⟩

/-- An action of the engine. -/
theorem act (h : s.Alike c s') {action : Action C R α} (haction : action.Matches c action)
    (answer : Except Failure α → Answer) :
    Outcome.Match (fun ended ended' => ended.1 = ended'.1 ∧ ended.2.Alike c ended'.2)
      (s.act action answer) (s'.act action answer) := by
  refine (haction _ _ h.engine).bind fun ended ended' ⟨hresult, hafter⟩ => ?_
  exact .done ⟨congrArg answer hresult, hafter, h.panel⟩

/-- An operation. -/
theorem perform (h : s.Alike c s') (operation : Operation) :
    Outcome.Match (fun ended ended' => ended.1 = ended'.1 ∧ ended.2.Alike c ended'.2)
      (s.perform operation) (s'.perform operation) := by
  cases operation with
  | create name => exact h.act (Action.matches_resolve (C.nesting + 1) name).transaction _
  | registerGenerator name generator => exact h.act (Action.matches_registerGenerator _ _) _
  | setValue name value => exact h.act (Action.matches_setValue name value) _
  | addRule widget d =>
    unfold Stage.perform
    dsimp only
    rw [h.panel]
    exact h.act (Action.matches_addRule _ _ _) _
  | addScript widget d => exact h.act (Action.matches_addScript _ _) _
  | createTrace request => exact h.act (Action.matches_createTrace request) _
  | tick clock wall =>
    refine (h.tick clock wall).bind fun ended ended' ⟨hafter, hreport⟩ => ?_
    exact .done ⟨congrArg Answer.ticked hreport, hafter⟩
  | reset epoch =>
    refine .done ⟨?_, ?_, h.panel⟩
    · dsimp only
      rw [h.engine.state]
    · exact ((h.engine.withState (State.start C epoch)).withErrors []).withMessages []
  | assign widget property value =>
    unfold Stage.perform Stage.assign
    dsimp only
    rw [h.panel]
    split
    · exact .done ⟨rfl, h.engine, rfl⟩
    · exact .done ⟨rfl, h.engine, h.panel⟩
  | editTrace trace edit =>
    unfold Stage.perform Stage.editTrace
    dsimp only
    rw [h.engine.state]
    split
    · exact .done ⟨rfl, h⟩
    · exact .done ⟨rfl, h.engine.withState _, h.panel⟩
  | takeErrors =>
    refine .done ⟨?_, h.engine.withErrors [], h.panel⟩
    exact congrArg Answer.errors h.engine.errors.symm
  | takeMessages =>
    refine .done ⟨?_, h.engine.withMessages [], h.panel⟩
    exact congrArg Answer.messages h.engine.messages.symm

/-- Any number of operations. -/
theorem run (h : s.Alike c s') (operations : List Operation) :
    Outcome.Match (fun ended ended' => ended.1 = ended'.1 ∧ ended.2.Alike c ended'.2)
      (s.run operations) (s'.run operations) := by
  induction operations generalizing s s' with
  | nil => exact .done ⟨rfl, h⟩
  | cons operation rest ih =>
    refine (h.perform operation).bind fun _ _ ⟨hanswer, hfirst⟩ =>
      (ih hfirst).bind fun _ _ ⟨hanswers, hrest⟩ => ?_
    dsimp only
    rw [hanswer, hanswers]
    exact .done ⟨rfl, hrest⟩

end Stage.Alike

end Engine

end ProcessDisplay
