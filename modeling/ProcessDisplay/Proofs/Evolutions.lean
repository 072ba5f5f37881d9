import Mathlib.Logic.Relation
import Mathlib.Tactic.Common
import ProcessDisplay.Engine.Operation
import ProcessDisplay.Proofs.Resolution
import ProcessDisplay.Proofs.Rollback

/-!
# What operations do to an engine

Between two ticks an engine evolves by few kinds of changes: constructions,
custom generators, writes, declarations that outlive a refused construction,
and changes that no variable and no unit sees. An operation that registers a
rule or a script does so at the end of such an evolution.
-/

namespace ProcessDisplay.Engine

variable {C : FormulaCompiler} {R : ScriptInterpreter}

/-- Changes that no variable and no unit sees: of traces, of recorded failures
and messages, of the memory of the interpreter and of the redraw flag. -/
structure Aside (e e' : Engine C R) : Prop where
  /-- The settings stay. -/
  settings : e'.settings = e.settings
  /-- The seed stays. -/
  seed : e'.seed = e.seed
  /-- All else of the state stays. -/
  state : { e'.state with traces := e.state.traces, changed := e.state.changed } = e.state

/-- One kind of change between two ticks. -/
inductive Primitive : Engine C R → Engine C R → Prop where
  /-- A small construction. -/
  | construct {e e' : Engine C R} (h : ConstructionStep e e') : Primitive e e'
  /-- A variable with a custom generator is added under a free name. -/
  | attach {e : Engine C R} {name : String} (hfree : e.state.lookup name = none)
    (generator : Generator) : Primitive e (e.withState (e.state.attachGenerator name generator))
  /-- A variable of the display is written. -/
  | write {e : Engine C R} {state : State C} {id : VariableId} {value : Value}
    (h : e.state.write id value = .ok state) : Primitive e (e.withState state)
  /-- A variable that may exist is declared with an initializer. -/
  | redeclare (e : Engine C R) (id : VariableId) (initializer : String) :
    Primitive e (e.withState (e.state.redeclare id initializer))
  /-- Something else is changed. -/
  | aside {e e' : Engine C R} (h : Aside e e') : Primitive e e'

/-- What happens to an engine between two ticks. -/
def Evolution : Engine C R → Engine C R → Prop := Relation.ReflTransGen Primitive

/-- A construction is an evolution. -/
theorem Construction.evolution {e e' : Engine C R} (h : Construction e e') : Evolution e e' := by
  induction h with
  | refl => exact .refl
  | tail _ hstep ih => exact ih.tail (.construct hstep)

/-- Declarations that outlive a refused construction are an evolution. -/
theorem evolution_declareSilently (e : Engine C R) (declared : List (VariableId × String)) :
    Evolution e (declareSilently e declared) := by
  have hall : Evolution e (e.withState (e.state.redeclareAll declared)) := by
    unfold State.redeclareAll
    induction declared generalizing e with
    | nil => exact .refl
    | cons first rest ih => exact (ih _).head (.redeclare e first.1 first.2)
  exact hall.tail (.aside ⟨rfl, rfl, rfl⟩)

/-- A transaction of a construction is an evolution, and the construction
itself where it succeeds. -/
theorem evolution_of_transaction {α : Type} {build : Action C R α} {e e' : Engine C R}
    {result : Except Failure α} (hs : e.state.WellFormed)
    (hbuild : ∀ result after, build e = .done (result, after) → Construction e after)
    (h : transaction build e = .done (result, e')) :
    Evolution e e' ∧ ∀ a, result = .ok a → build e = .done (.ok a, e') := by
  cases result with
  | error failure =>
    obtain ⟨declared, -, rfl⟩ := transaction_refused hs hbuild h
    exact ⟨evolution_declareSilently e declared, fun a ha => by cases ha⟩
  | ok a =>
    have hok : build e = .done (.ok a, e') := by
      unfold transaction at h
      split at h
      · cases h
      · exact h
    refine ⟨(hbuild _ _ hok).evolution, ?_⟩
    intro b hb
    rw [← Except.ok.inj hb]
    exact hok

/-- The resolution of one name is a construction. -/
theorem construction_of_resolve_alone {depth : Nat} {name : String} {e e' : Engine C R}
    {result : Except Failure VariableId} (h : resolve depth name e = .done (result, e')) :
    Construction e e' := by
  have hnone : Free (fun _ => False) e := fun _ hkey => hkey.elim
  have hwaiting : Waiting C (fun _ => False) name := fun _ _ _ hkey => hkey.elim
  exact (construction_of_resolve hnone hwaiting h).1

/-- The creation of inputs is an evolution that locates them where it succeeds. -/
theorem evolution_of_createInputs {inputs : List Input} {e e' : Engine C R}
    {result : Except Failure (List VariableId)} (hs : e.state.WellFormed)
    (h : createInputs inputs e = .done (result, e')) :
    Evolution e e' ∧ ∀ ids, result = .ok ids →
      List.Forall₂ (fun name id => e'.state.located name = some id) (inputs.map Input.name) ids ∧
        e'.state.WellFormed := by
  unfold createInputs at h
  rw [Action.current_bind] at h
  rcases Action.of_ofExcept_bind_done h with ⟨-, -, h⟩ | ⟨failure, -, rfl, rfl⟩
  · have hbuild := fun result after (hdone : resolveAll (inputs.map Input.name) e =
        .done (result, after)) => (construction_of_resolveAll hdone).1
    obtain ⟨hevolution, hok⟩ := evolution_of_transaction hs hbuild h
    refine ⟨hevolution, ?_⟩
    rintro ids rfl
    obtain ⟨hchain, hlocated⟩ := construction_of_resolveAll (hok ids rfl)
    exact ⟨hlocated ids rfl, hchain.wellFormed hs⟩
  · exact ⟨.refl, fun ids hids => by cases hids⟩

/-- Finding or creating a variable is an evolution. -/
theorem evolution_of_create {name : String} {e e' : Engine C R}
    {result : Except Failure VariableId} (hs : e.state.WellFormed)
    (h : create name e = .done (result, e')) : Evolution e e' :=
  (evolution_of_transaction hs (fun _ _ => construction_of_resolve_alone) h).1

/-- A custom generator is attached under a free name, or nothing happens. -/
theorem registerGenerator_cases {name : String} {generator : Generator} {e e' : Engine C R}
    {result : Except Failure VariableId}
    (h : registerGenerator name generator e = .done (result, e')) :
    (∃ failure, result = .error failure ∧ e' = e) ∨
      e.state.lookup (Text.trim name) = none ∧ result = .ok e.state.nextId ∧
        e' = e.withState (e.state.attachGenerator (Text.trim name) generator) := by
  unfold registerGenerator at h
  split at h
  · obtain ⟨rfl, rfl⟩ : Except.error _ = result ∧ e = e' := by simpa using h
    exact Or.inl ⟨_, rfl, rfl⟩
  · rw [Action.current_bind] at h
    cases hname : e.state.lookup (Text.trim name) with
    | some id =>
      rw [hname] at h
      obtain ⟨rfl, rfl⟩ : Except.error _ = result ∧ e = e' := by simpa using h
      exact Or.inl ⟨_, rfl, rfl⟩
    | none =>
      simp only [hname] at h
      rw [attach, Action.current_bind, Action.update_bind] at h
      obtain ⟨rfl, rfl⟩ : Except.ok e.state.nextId = result ∧
          e.withState (e.state.attachGenerator (Text.trim name) generator) = e' := by
        simpa using h
      exact Or.inr ⟨rfl, rfl, rfl⟩

/-- A value is written to a variable, or nothing happens. -/
theorem setValue_cases {name : String} {value : Value} {e e' : Engine C R}
    {result : Except Failure Unit} (h : setValue name value e = .done (result, e')) :
    (∃ failure, result = .error failure ∧ e' = e) ∨
      ∃ id state, e.state.write id value = .ok state ∧ result = .ok () ∧
        e' = e.withState state := by
  unfold setValue at h
  split at h
  · obtain ⟨rfl, rfl⟩ : Except.error _ = result ∧ e = e' := by simpa using h
    exact Or.inl ⟨_, rfl, rfl⟩
  · next id _ =>
    cases hwrite : e.state.write id value with
    | ok state =>
      rw [hwrite] at h
      obtain ⟨rfl, rfl⟩ : Except.ok () = result ∧ e.withState state = e' := by simpa using h
      exact Or.inr ⟨id, state, hwrite, rfl, rfl⟩
    | error failure =>
      rw [hwrite] at h
      obtain ⟨rfl, rfl⟩ : Except.error failure = result ∧ e = e' := by simpa using h
      exact Or.inl ⟨failure, rfl, rfl⟩

/-- A trace is added behind its variables, or the engine evolves. -/
theorem evolution_of_createTrace {request : TraceRequest} {e e' : Engine C R}
    {result : Except Failure Nat} (hs : e.state.WellFormed)
    (h : createTrace request e = .done (result, e')) : Evolution e e' := by
  unfold createTrace at h
  rcases Action.of_ofExcept_bind_done h with ⟨-, -, h⟩ | ⟨failure, -, -, rfl⟩
  · rw [Action.current_bind] at h
    rcases Action.of_ofExcept_bind_done h with ⟨-, -, h⟩ | ⟨failure, -, -, rfl⟩
    · have hbuild := fun result after (hdone : resolveAll (R := R) (C := C)
          (request.vertical :: request.horizontal.toList) e = .done (result, after)) =>
        (construction_of_resolveAll hdone).1
      rcases Action.of_bind_done h with ⟨ids, e₁, hids, h⟩ | ⟨failure, hrefused, -⟩
      · have hevolution := (evolution_of_transaction hs hbuild hids).1
        rw [Action.current_bind, Action.update_bind] at h
        obtain ⟨-, rfl⟩ : Except.ok e₁.state.traces.length = result ∧
            e₁.withState (e₁.state.addTrace
              { vertical := ids.headD invalidId, horizontal := ids.tail.head?
                buffer := Trace.Buffer.empty request.settings }) = e' := by simpa using h
        exact hevolution.tail (.aside ⟨rfl, rfl, rfl⟩)
      · exact (evolution_of_transaction hs hbuild hrefused).1
    · exact .refl
  · exact .refl

/-- A rule is added behind its inputs, or it is refused. -/
theorem addRule_cases {panel : Panel} {widget : Nat} {d : RuleDeclaration} {e e' : Engine C R}
    {result : Except Failure Nat} (hs : e.state.WellFormed)
    (h : addRule panel widget d e = .done (result, e')) :
    (∃ failure, result = .error failure ∧ Evolution e e') ∨
      ∃ rule inputs e₁, Evolution e e₁ ∧
        List.Forall₂ (fun name id => e₁.state.located name = some id)
          (d.inputs.map Input.name) inputs ∧
        e₁.state.WellFormed ∧ result = .ok e₁.state.rules.length ∧
        e' = e₁.withState
          (e₁.state.addRule { rule, widget, inputs } (triggersOf d.inputs inputs)) := by
  unfold addRule at h
  rw [Action.current_bind] at h
  rcases Action.of_ofExcept_bind_done h with ⟨rule, -, h⟩ | ⟨failure, -, rfl, rfl⟩
  · rcases Action.of_bind_done h with ⟨inputs, e₁, hinputs, h⟩ | ⟨failure, hrefused, rfl⟩
    · obtain ⟨hevolution, hok⟩ := evolution_of_createInputs hs hinputs
      obtain ⟨hlocated, hs₁⟩ := hok inputs rfl
      rw [Action.current_bind, Action.update_bind] at h
      obtain ⟨rfl, rfl⟩ : Except.ok e₁.state.rules.length = result ∧ e₁.withState
          (e₁.state.addRule { rule, widget, inputs } (triggersOf d.inputs inputs)) = e' := by
        simpa using h
      exact Or.inr ⟨rule, inputs, e₁, hevolution, hlocated, hs₁, rfl, rfl⟩
    · exact Or.inl ⟨failure, rfl, (evolution_of_createInputs hs hrefused).1⟩
  · exact Or.inl ⟨failure, rfl, .refl⟩

/-- A script is added behind its inputs, or it is refused. -/
theorem addScript_cases {widget : Nat} {d : ScriptDeclaration} {e e' : Engine C R}
    {result : Except Failure Nat} (hs : e.state.WellFormed)
    (h : addScript widget d e = .done (result, e')) :
    (∃ failure, result = .error failure ∧ Evolution e e') ∨
      ∃ inputs e₁, Evolution e e₁ ∧
        List.Forall₂ (fun name id => e₁.state.located name = some id)
          (d.inputs.map Input.name) inputs ∧
        e₁.state.WellFormed ∧ result = .ok e₁.state.scripts.length ∧
        e' = e₁.withState
          (e₁.state.addScript { name := d.name, body := d.body, widget, inputs }
            (triggersOf d.inputs inputs)) := by
  unfold addScript at h
  have hvalidate : ∀ result e₀, validate d.name d.body e = .done (result, e₀) →
      Evolution e e₀ ∧ e₀.state = e.state := by
    intro result e₀ hdone
    obtain ⟨-, rfl⟩ : _ = result ∧ _ = e₀ := by simpa [validate] using hdone
    exact ⟨.single (.aside ⟨rfl, rfl, rfl⟩), rfl⟩
  rcases Action.of_bind_done h with ⟨_, e₀, hok, h⟩ | ⟨failure, hrefused, rfl⟩
  · obtain ⟨hmemory, hstate⟩ := hvalidate _ _ hok
    have hs₀ : e₀.state.WellFormed := by
      rw [hstate]
      exact hs
    rcases Action.of_bind_done h with ⟨inputs, e₁, hinputs, h⟩ | ⟨failure, hrefused, rfl⟩
    · obtain ⟨hevolution, hok⟩ := evolution_of_createInputs hs₀ hinputs
      obtain ⟨hlocated, hs₁⟩ := hok inputs rfl
      rw [Action.current_bind, Action.update_bind] at h
      obtain ⟨rfl, rfl⟩ : Except.ok e₁.state.scripts.length = result ∧ e₁.withState
          (e₁.state.addScript { name := d.name, body := d.body, widget, inputs }
            (triggersOf d.inputs inputs)) = e' := by simpa using h
      exact Or.inr ⟨inputs, e₁, hmemory.trans hevolution, hlocated, hs₁, rfl, rfl⟩
    · exact Or.inl ⟨failure, rfl,
        hmemory.trans (evolution_of_createInputs hs₀ hrefused).1⟩
  · exact Or.inl ⟨failure, rfl, (hvalidate _ _ hrefused).1⟩

namespace State

/-- What happens between two ticks apart from registrations: no rule and no
script comes or goes, edges to them stay, and changes are recorded. -/
structure Quiet (s s' : State C) : Prop where
  /-- Touched variables are pending. -/
  records : Records s s'
  /-- The rules stay. -/
  rules : s'.rules = s.rules
  /-- The scripts stay. -/
  scripts : s'.scripts = s.scripts
  /-- The new units stay. -/
  fresh : s'.fresh = s.fresh
  /-- Edges to rules and scripts stay. -/
  edges : ∀ p u, u.isFormula = false →
    ((p, u) ∈ s'.triggers.edges ↔ (p, u) ∈ s.triggers.edges)

theorem Quiet.refl (s : State C) : Quiet s s := ⟨.refl s, rfl, rfl, rfl, fun _ _ _ => Iff.rfl⟩

theorem Quiet.trans {s s' s'' : State C} (h : Quiet s s') (h' : Quiet s' s'') : Quiet s s'' :=
  ⟨h.records.trans h'.records, h'.rules.trans h.rules, h'.scripts.trans h.scripts,
    h'.fresh.trans h.fresh, fun p u hu => (h'.edges p u hu).trans (h.edges p u hu)⟩

/-- A variable is added behind the others. -/
theorem records_append {s s' : State C} {v : Variable} (hvars : s'.vars = s.vars ++ [v])
    (hpending : ∀ p ∈ s.pending, p ∈ s'.pending) : Records s s' := by
  refine ⟨?_, ?_, hpending⟩
  · rw [hvars]
    exact .append _ _ _
  · rw [hvars]
    exact .append _ _

theorem mem_pending_markIf {s : State C} {changed : Bool} {id p : VariableId}
    (hp : p ∈ s.pending) : p ∈ (s.markIf changed id).pending := by
  cases changed with
  | true => exact VariableSet.mem_add.mpr (Or.inr hp)
  | false => exact hp

theorem markIf_vars (s : State C) (changed : Bool) (id : VariableId) :
    (s.markIf changed id).vars = s.vars := by
  cases changed <;> rfl

theorem quiet_markIf (s : State C) (changed : Bool) (id : VariableId) :
    Quiet s (s.markIf changed id) := by
  refine ⟨⟨?_, ?_, fun p hp => mem_pending_markIf hp⟩, ?_, ?_, ?_, ?_⟩
  · rw [markIf_vars]
    exact .refl _ _
  · rw [markIf_vars]
    exact .refl _
  all_goals cases changed <;> first | rfl | exact fun _ _ _ => Iff.rfl

/-- A declaration registers no unit. -/
theorem quiet_redeclare (s : State C) (id : VariableId) (initializer : String) :
    Quiet s (s.redeclare id initializer) := by
  have hrecords := s.redeclare_records id initializer
  rcases s.redeclare_cases id initializer with ⟨he, -⟩ | ⟨v, -, -, ⟨-, he⟩ | ⟨-, he⟩⟩
  · rw [he]
    exact .refl s
  · rw [he] at hrecords ⊢
    exact ⟨hrecords, rfl, rfl, rfl, fun _ _ _ => Iff.rfl⟩
  · rw [he] at hrecords ⊢
    exact ⟨hrecords, rfl, rfl, rfl, fun _ _ _ => Iff.rfl⟩

/-- A write registers no unit. -/
theorem quiet_write {s s' : State C} {id : VariableId} {value : Value}
    (h : s.write id value = .ok s') : Quiet s s' := by
  have hrecords := write_records h
  obtain ⟨v, -, -, rfl⟩ := write_eq_ok_iff.mp h
  exact ⟨hrecords, rfl, rfl, rfl, fun _ _ _ => Iff.rfl⟩

/-- A variable with a generator registers no unit. -/
theorem quiet_attachGenerator (s : State C) (name : String) (generator : Generator) :
    Quiet s (s.attachGenerator name generator) :=
  ⟨records_append rfl fun _ hp => hp, rfl, rfl, rfl, fun _ _ _ => Iff.rfl⟩

end State

/-- A small construction registers no unit. -/
theorem ConstructionStep.quiet {e e' : Engine C R} (h : ConstructionStep e e') :
    State.Quiet e.state e'.state := by
  cases h with
  | @createLocal key hkey hfree initializer =>
    have hinserted : State.Quiet e.state
        (e.state.insertVariable (e.state.newLocal key initializer)) :=
      ⟨State.records_append rfl fun _ hp => hp, rfl, rfl, rfl, fun _ _ _ => Iff.rfl⟩
    rw [withState, State.createLocal_eq]
    exact hinserted.trans (State.quiet_markIf _ _ _)
  | redeclare hfound initializer => exact e.state.quiet_redeclare _ initializer
  | attach hkey hfree generator => exact e.state.quiet_attachGenerator _ generator
  | @createFormula e₁ source formula parameters changed hkey hfree hcompiled hlocated heval =>
    obtain ⟨f, w, errors, -, rfl⟩ := evaluateFormula_inserted heval
    have hinserted : State.Quiet e.state ((e.state.insertVariable w).addFormula
        { variableId := e.state.nextId, parameters, formula := f }) := by
      refine ⟨State.records_append rfl fun _ hp => hp, rfl, rfl, rfl, ?_⟩
      intro p u hu
      simp only [State.addFormula, State.insertVariable, State.mem_connect]
      constructor
      · rintro (hedge | ⟨-, rfl⟩)
        · exact hedge
        · cases hu
      · exact Or.inl
    exact hinserted.trans (State.quiet_markIf _ _ _)

/-- Changes that no unit sees leave everything else as it is. -/
theorem Aside.eq {e e' : Engine C R} (h : Aside e e') :
    e'.state = { e.state with traces := e'.state.traces, changed := e'.state.changed } := by
  rw [← h.state]

/-- Changes that no unit sees keep the shape. -/
theorem Aside.sameShape {e e' : Engine C R} (h : Aside e e') :
    State.SameShape e.state e'.state := by
  rw [h.eq]
  exact ⟨rfl, .refl _ _, rfl, rfl, rfl, rfl, rfl, rfl⟩

/-- One kind of change registers no unit. -/
theorem Primitive.quiet {e e' : Engine C R} (h : Primitive e e') :
    State.Quiet e.state e'.state := by
  cases h with
  | construct h => exact h.quiet
  | attach hfree generator => exact e.state.quiet_attachGenerator _ generator
  | write h => exact State.quiet_write h
  | redeclare id initializer => exact e.state.quiet_redeclare id initializer
  | aside h =>
    rw [h.eq]
    exact ⟨⟨.refl _ _, .refl _, fun _ hp => hp⟩, rfl, rfl, rfl, fun _ _ _ => Iff.rfl⟩

/-- One kind of change keeps the registry well-formed. -/
theorem Primitive.wellFormed {e e' : Engine C R} (h : Primitive e e') (hs : e.state.WellFormed) :
    e'.state.WellFormed := by
  cases h with
  | construct h => exact h.wellFormed hs
  | attach hfree generator => exact hs.attachGenerator hfree generator
  | write h => exact hs.write h
  | redeclare id initializer => exact hs.redeclare id initializer
  | aside h =>
    have hpending : e'.state.pending = e.state.pending := by rw [h.eq]
    have hfresh : e'.state.fresh = e.state.fresh := by rw [h.eq]
    refine hs.of_sameShape h.sameShape ?_ ?_ ?_
    · rw [hpending]
      exact hs.pending
    · rw [hpending]
      exact hs.ascending
    · rw [hfresh]

/-- An evolution registers no unit. -/
theorem Evolution.quiet {e e' : Engine C R} (h : Evolution e e') :
    State.Quiet e.state e'.state := by
  induction h with
  | refl => exact .refl _
  | tail _ hstep ih => exact ih.trans hstep.quiet

/-- An evolution keeps the registry well-formed. -/
theorem Evolution.wellFormed {e e' : Engine C R} (h : Evolution e e') (hs : e.state.WellFormed) :
    e'.state.WellFormed := by
  induction h with
  | refl => exact hs
  | tail _ hstep ih => exact hstep.wellFormed ih

end ProcessDisplay.Engine
