import Mathlib.Tactic.Common
import ProcessDisplay.Proofs.Atomicity

/-!
# Operations in full

An operation that returned was refused, or it did one thing: it constructed
variables, added one item behind them, wrote a variable, ticked, started
again, or changed what no variable and no unit sees. A transition says which
of these it was and what the stage is afterwards, so that a property of all
runs needs one case for each of them.
-/

namespace ProcessDisplay.Engine

variable {C : FormulaCompiler} {R : ScriptInterpreter}

/-- The variables of the coordinates of a trace. -/
def TraceUnit.coordinates (t : TraceUnit) : List VariableId := t.vertical :: t.horizontal.toList

/-- Operations that reach neither the variables nor the units of a display. -/
def Operation.isAside : Operation → Bool
  | .assign _ _ _ | .editTrace _ _ | .takeErrors | .takeMessages => true
  | _ => false

/-- What an operation that returned did to a stage. -/
inductive Transition (s : Stage C R) : Operation × Answer → Stage C R → Prop where
  /-- The operation was refused and left first initializers at most. -/
  | refused {operation : Operation} {answer : Answer} {declared : List (VariableId × String)}
    {memory : R.Memory} (hrefused : operation.IsRefused answer)
    (hdeclares : s.engine.state.Declares declared)
    (hmemory : memory = s.engine.memory ∨
      ∃ body, memory = (R.validate s.engine.memory body).2) :
    Transition s (operation, answer)
      { s with engine := { declareSilently s.engine declared with memory } }
  /-- The variable of a name was found or created. -/
  | created {name : String} {id : VariableId} {e' : Engine C R} (h : Construction s.engine e')
    (hlocated : e'.state.located name = some id) :
    Transition s (.create name, .position (.ok id)) { s with engine := e' }
  /-- A variable with a custom generator was added under a free name. -/
  | attached {name : String} {generator : Generator}
    (hfree : s.engine.state.lookup (Text.trim name) = none) :
    Transition s (.registerGenerator name generator, .position (.ok s.engine.state.nextId))
      { s with
        engine := s.engine.withState
          (s.engine.state.attachGenerator (Text.trim name) generator) }
  /-- A variable of the display was written. -/
  | written {name : String} {value : Value} {id : VariableId} {state : State C}
    (hwrite : s.engine.state.write id value = .ok state) :
    Transition s (.setValue name value, .settled (.ok ()))
      { s with engine := s.engine.withState state }
  /-- A rule was added behind its inputs. -/
  | ruled {widget : Nat} {d : RuleDeclaration} {rule : Rule Script.Expression}
    {inputs : List VariableId} {e₁ : Engine C R}
    (hcompiled : Rule.compile (R.expression s.engine.settings.limits) d
      (s.panel.widget widget) = .ok rule)
    (h : Construction s.engine e₁)
    (hlocated : List.Forall₂ (fun name id => e₁.state.located name = some id)
      (d.inputs.map Input.name) inputs) :
    Transition s (.addRule widget d, .position (.ok e₁.state.rules.length))
      { s with
        engine := e₁.withState
          (e₁.state.addRule { rule, widget, inputs } (triggersOf d.inputs inputs)) }
  /-- A script was added behind its inputs. -/
  | scripted {widget : Nat} {d : ScriptDeclaration} {inputs : List VariableId} {e₁ : Engine C R}
    (h : Construction { s.engine with memory := (R.validate s.engine.memory d.body).2 } e₁)
    (hlocated : List.Forall₂ (fun name id => e₁.state.located name = some id)
      (d.inputs.map Input.name) inputs) :
    Transition s (.addScript widget d, .position (.ok e₁.state.scripts.length))
      { s with
        engine := e₁.withState
          (e₁.state.addScript { name := d.name, body := d.body, widget, inputs }
            (triggersOf d.inputs inputs)) }
  /-- A trace was added behind its coordinates. -/
  | traced {request : TraceRequest} {ids : List VariableId} {e₁ : Engine C R}
    (h : Construction s.engine e₁)
    (hlocated : List.Forall₂ (fun name id => e₁.state.located name = some id)
      (request.vertical :: request.horizontal.toList) ids) :
    Transition s (.createTrace request, .position (.ok e₁.state.traces.length))
      { s with
        engine := e₁.withState
          (e₁.state.addTrace
            { vertical := ids.headD invalidId, horizontal := ids.tail.head?
              buffer := Trace.Buffer.empty request.settings }) }
  /-- The display was ticked. -/
  | ticked {clock : Time.Clock} {wall : Time.Instant} {report : TickReport} {s' : Stage C R}
    (h : s.tick clock wall = .done (s', report)) :
    Transition s (.tick clock wall, .ticked report) s'
  /-- The display was started again. -/
  | reset {epoch : Time.Instant} {answer : Answer} :
    Transition s (.reset epoch, answer) { s with engine := (s.engine.reset epoch).1 }
  /-- Something else was changed. -/
  | aside {operation : Operation} {answer : Answer} {s' : Stage C R}
    (hkind : operation.isAside = true)
    (hsettings : s'.engine.settings = s.engine.settings)
    (hmemory : s'.engine.memory = s.engine.memory)
    (hstate : s'.engine.state = { s.engine.state with traces := s'.engine.state.traces })
    (htraces : s'.engine.state.traces.map TraceUnit.coordinates =
      s.engine.state.traces.map TraceUnit.coordinates) :
    Transition s (operation, answer) s'

/-- A transaction that succeeded did what it was built from. -/
theorem transaction_ok {α : Type} {build : Action C R α} {e e' : Engine C R} {a : α}
    (h : transaction build e = .done (.ok a, e')) : build e = .done (.ok a, e') := by
  unfold transaction at h
  split at h
  · cases h
  · exact h

/-- Inputs that are not refused are constructed and located. -/
theorem createInputs_ok {inputs : List Input} {e e' : Engine C R} {ids : List VariableId}
    (h : createInputs inputs e = .done (.ok ids, e')) :
    Construction e e' ∧
      List.Forall₂ (fun name id => e'.state.located name = some id)
        (inputs.map Input.name) ids := by
  unfold createInputs at h
  rw [Action.current_bind] at h
  rcases Action.of_ofExcept_bind_done h with ⟨-, -, h⟩ | ⟨failure, -, hr, -⟩
  · obtain ⟨hchain, hlocated⟩ := construction_of_resolveAll (transaction_ok h)
    exact ⟨hchain, hlocated ids rfl⟩
  · cases hr

/-- A rule that is not refused is added behind its inputs. -/
theorem addRule_ok {panel : Panel} {widget : Nat} {d : RuleDeclaration} {e e' : Engine C R}
    {id : Nat} (h : addRule panel widget d e = .done (.ok id, e')) :
    ∃ rule inputs e₁,
      Rule.compile (R.expression e.settings.limits) d (panel.widget widget) = .ok rule ∧
      Construction e e₁ ∧
      List.Forall₂ (fun name id => e₁.state.located name = some id)
        (d.inputs.map Input.name) inputs ∧
      id = e₁.state.rules.length ∧
      e' = e₁.withState
        (e₁.state.addRule { rule, widget, inputs } (triggersOf d.inputs inputs)) := by
  unfold addRule at h
  rw [Action.current_bind] at h
  rcases Action.of_ofExcept_bind_done h with ⟨rule, hcompiled, h⟩ | ⟨failure, -, hr, -⟩
  · rcases Action.of_bind_done h with ⟨inputs, e₁, hinputs, h⟩ | ⟨failure, -, hr⟩
    · obtain ⟨hchain, hlocated⟩ := createInputs_ok hinputs
      rw [Action.current_bind, Action.update_bind] at h
      obtain ⟨rfl, rfl⟩ : e₁.state.rules.length = id ∧ e₁.withState
          (e₁.state.addRule { rule, widget, inputs } (triggersOf d.inputs inputs)) = e' := by
        simpa using h
      exact ⟨rule, inputs, e₁, hcompiled, hchain, hlocated, rfl, rfl⟩
    · cases hr
  · cases hr

/-- The check of a body only changes what the interpreter remembers. -/
theorem validate_done {name body : String} {e e' : Engine C R} {result : Except Failure Unit}
    (h : validate name body e = .done (result, e')) :
    e' = { e with memory := (R.validate e.memory body).2 } := by
  obtain ⟨-, rfl⟩ : _ = result ∧ _ = e' := by simpa [validate] using h
  rfl

/-- A script that is not refused is added behind its inputs. -/
theorem addScript_ok {widget : Nat} {d : ScriptDeclaration} {e e' : Engine C R} {id : Nat}
    (h : addScript widget d e = .done (.ok id, e')) :
    ∃ inputs e₁,
      Construction { e with memory := (R.validate e.memory d.body).2 } e₁ ∧
      List.Forall₂ (fun name id => e₁.state.located name = some id)
        (d.inputs.map Input.name) inputs ∧
      id = e₁.state.scripts.length ∧
      e' = e₁.withState
        (e₁.state.addScript { name := d.name, body := d.body, widget, inputs }
          (triggersOf d.inputs inputs)) := by
  unfold addScript at h
  rcases Action.of_bind_done h with ⟨_, e₀, hvalid, h⟩ | ⟨failure, -, hr⟩
  · obtain rfl := validate_done hvalid
    rcases Action.of_bind_done h with ⟨inputs, e₁, hinputs, h⟩ | ⟨failure, -, hr⟩
    · obtain ⟨hchain, hlocated⟩ := createInputs_ok hinputs
      rw [Action.current_bind, Action.update_bind] at h
      obtain ⟨rfl, rfl⟩ : e₁.state.scripts.length = id ∧ e₁.withState
          (e₁.state.addScript { name := d.name, body := d.body, widget, inputs }
            (triggersOf d.inputs inputs)) = e' := by simpa using h
      exact ⟨inputs, e₁, hchain, hlocated, rfl, rfl⟩
    · cases hr
  · cases hr

/-- A refused script leaves what its check left to the interpreter. -/
theorem addScript_refused_memory {widget : Nat} {d : ScriptDeclaration} {e e' : Engine C R}
    {failure : Failure} (hs : e.state.WellFormed)
    (h : addScript widget d e = .done (.error failure, e')) :
    e'.memory = (R.validate e.memory d.body).2 := by
  unfold addScript at h
  rcases Action.of_bind_done h with ⟨_, e₀, hvalid, h⟩ | ⟨failure, hrefused, -⟩
  · obtain rfl := validate_done hvalid
    rcases Action.of_bind_done h with ⟨inputs, e₁, -, h⟩ | ⟨failure, hrefused, -⟩
    · rw [Action.current_bind, Action.update_bind] at h
      cases h
    · obtain ⟨declared, -, rfl⟩ := createInputs_refused
        (e := { e with memory := (R.validate e.memory d.body).2 }) hs hrefused
      rfl
  · rw [validate_done hrefused]

/-- A trace that is not refused is added behind its coordinates. -/
theorem createTrace_ok {request : TraceRequest} {e e' : Engine C R} {id : Nat}
    (h : createTrace request e = .done (.ok id, e')) :
    ∃ ids e₁, Construction e e₁ ∧
      List.Forall₂ (fun name id => e₁.state.located name = some id)
        (request.vertical :: request.horizontal.toList) ids ∧
      id = e₁.state.traces.length ∧
      e' = e₁.withState (e₁.state.addTrace
        { vertical := ids.headD invalidId, horizontal := ids.tail.head?
          buffer := Trace.Buffer.empty request.settings }) := by
  unfold createTrace at h
  rcases Action.of_ofExcept_bind_done h with ⟨-, -, h⟩ | ⟨failure, -, hr, -⟩
  · rw [Action.current_bind] at h
    rcases Action.of_ofExcept_bind_done h with ⟨-, -, h⟩ | ⟨failure, -, hr, -⟩
    · rcases Action.of_bind_done h with ⟨ids, e₁, hids, h⟩ | ⟨failure, -, hr⟩
      · obtain ⟨hchain, hlocated⟩ := construction_of_resolveAll (transaction_ok hids)
        rw [Action.current_bind, Action.update_bind] at h
        obtain ⟨rfl, rfl⟩ : e₁.state.traces.length = id ∧ e₁.withState (e₁.state.addTrace
            { vertical := ids.headD invalidId, horizontal := ids.tail.head?
              buffer := Trace.Buffer.empty request.settings }) = e' := by simpa using h
        exact ⟨ids, e₁, hchain, hlocated ids rfl, rfl, rfl⟩
      · cases hr
    · cases hr
  · cases hr

/-- An edit of a trace leaves its coordinates where they are. -/
theorem map_coordinates_set {traces : List TraceUnit} {k : Nat} {t : TraceUnit}
    (ht : traces[k]? = some t) (buffer : Trace.Buffer) :
    (traces.set k { t with buffer }).map TraceUnit.coordinates =
      traces.map TraceUnit.coordinates := by
  rw [List.map_set]
  obtain ⟨hk, rfl⟩ := List.getElem?_eq_some_iff.mp ht
  refine List.ext_getElem (by simp) ?_
  intro i hi hi'
  by_cases hki : k = i
  · subst hki
    simp [TraceUnit.coordinates]
  · rw [List.getElem_set_ne hki]

/-- A refused operation is a transition. -/
theorem transition_of_refused {s s' : Stage C R} {operation : Operation} {answer : Answer}
    (hs : s.engine.state.WellFormed) (h : s.perform operation = .done (answer, s'))
    (hrefused : operation.IsRefused answer) : Transition s (operation, answer) s' := by
  obtain ⟨declared, hdeclares, hs', hkept⟩ := perform_refused hs h hrefused
  have hmemory : s'.engine.memory = s.engine.memory ∨
      ∃ body, s'.engine.memory = (R.validate s.engine.memory body).2 := by
    by_cases hscript : ∃ widget d, operation = .addScript widget d
    · obtain ⟨widget, d, rfl⟩ := hscript
      obtain ⟨result, e', haction, rfl, rfl⟩ := act_eq_done h
      cases result with
      | ok id => exact hrefused.elim
      | error failure => exact Or.inr ⟨d.body, addScript_refused_memory hs haction⟩
    · refine Or.inl (hkept fun widget d he => hscript ⟨widget, d, he⟩)
  rw [hs']
  exact .refused hrefused hdeclares hmemory

/-- Every operation that returned is a transition. -/
theorem transition_of_perform {s s' : Stage C R} {operation : Operation} {answer : Answer}
    (hs : s.engine.state.WellFormed) (h : s.perform operation = .done (answer, s')) :
    Transition s (operation, answer) s' := by
  by_cases hrefused : operation.IsRefused answer
  · exact transition_of_refused hs h hrefused
  cases operation with
  | create name =>
    obtain ⟨result, e', haction, rfl, rfl⟩ := act_eq_done h
    cases result with
    | error failure => exact absurd trivial hrefused
    | ok id =>
      have hresolved := transaction_ok haction
      exact .created (construction_of_resolve_alone hresolved) (located_of_resolve hresolved)
  | registerGenerator name generator =>
    obtain ⟨result, e', haction, rfl, rfl⟩ := act_eq_done h
    rcases registerGenerator_cases haction with ⟨failure, rfl, -⟩ | ⟨hfree, rfl, rfl⟩
    · exact absurd trivial hrefused
    · exact .attached hfree
  | setValue name value =>
    obtain ⟨result, e', haction, rfl, rfl⟩ := act_eq_done h
    rcases setValue_cases haction with ⟨failure, rfl, -⟩ | ⟨id, state, hwrite, rfl, rfl⟩
    · exact absurd trivial hrefused
    · exact .written hwrite
  | addRule widget d =>
    obtain ⟨result, e', haction, rfl, rfl⟩ := act_eq_done h
    cases result with
    | error failure => exact absurd trivial hrefused
    | ok id =>
      obtain ⟨rule, inputs, e₁, hcompiled, hchain, hlocated, rfl, rfl⟩ := addRule_ok haction
      exact .ruled hcompiled hchain hlocated
  | addScript widget d =>
    obtain ⟨result, e', haction, rfl, rfl⟩ := act_eq_done h
    cases result with
    | error failure => exact absurd trivial hrefused
    | ok id =>
      obtain ⟨inputs, e₁, hchain, hlocated, rfl, rfl⟩ := addScript_ok haction
      exact .scripted hchain hlocated
  | createTrace request =>
    obtain ⟨result, e', haction, rfl, rfl⟩ := act_eq_done h
    cases result with
    | error failure => exact absurd trivial hrefused
    | ok id =>
      obtain ⟨ids, e₁, hchain, hlocated, rfl, rfl⟩ := createTrace_ok haction
      exact .traced hchain hlocated
  | tick clock wall =>
    obtain ⟨⟨after, report⟩, htick, h⟩ := Outcome.bind_eq_done_iff.mp h
    obtain ⟨rfl, rfl⟩ : Answer.ticked report = answer ∧ after = s' := by simpa using h
    exact .ticked htick
  | reset epoch =>
    obtain ⟨rfl, rfl⟩ : _ = answer ∧ _ = s' := by simpa [Stage.perform] using h
    exact .reset
  | assign widget property value =>
    obtain ⟨rfl, rfl⟩ : _ = answer ∧ (s.assign widget property value).2 = s' := by
      simpa [Stage.perform] using h
    have hengine : (s.assign widget property value).2.engine = s.engine := by
      unfold Stage.assign
      split <;> rfl
    exact .aside rfl (by rw [hengine]) (by rw [hengine]) (by rw [hengine]) (by rw [hengine])
  | editTrace trace edit =>
    obtain ⟨rfl, rfl⟩ : _ = answer ∧ (s.editTrace trace edit).2 = s' := by
      simpa [Stage.perform] using h
    cases ht : s.engine.state.traces[trace]? with
    | none =>
      have hsame : (s.editTrace trace edit).2 = s := by simp only [Stage.editTrace, ht]
      exact .aside rfl (by rw [hsame]) (by rw [hsame]) (by rw [hsame]) (by rw [hsame])
    | some t =>
      have hedited : (s.editTrace trace edit).2 =
          { s with
            engine := s.engine.withState
              { s.engine.state with
                traces := s.engine.state.traces.set trace
                  { t with buffer := (t.buffer.edit edit).buffer } } } := by
        simp only [Stage.editTrace, ht]
      rw [hedited]
      exact .aside rfl rfl rfl rfl (map_coordinates_set ht _)
  | takeErrors =>
    obtain ⟨rfl, rfl⟩ : _ = answer ∧ _ = s' := by simpa [Stage.perform] using h
    exact .aside rfl rfl rfl rfl rfl
  | takeMessages =>
    obtain ⟨rfl, rfl⟩ : _ = answer ∧ _ = s' := by simpa [Stage.perform] using h
    exact .aside rfl rfl rfl rfl rfl

end ProcessDisplay.Engine
