import Mathlib.Tactic.Common
import ProcessDisplay.Proofs.Sessions

/-!
# Refused operations

A refused operation leaves no variable, no unit and no trace behind, and the
redraw flag, the recorded failures and the messages are those from before. It
does not always leave the state as it was: a variable of the display that was
registered without an initializer keeps the first one that the refused
construction declared it with, and with it a value and a place among the
pending variables.
-/

namespace ProcessDisplay.Engine

variable {C : FormulaCompiler} {R : ScriptInterpreter}

/-- The refusals of the operations that create, register or write. -/
def Operation.IsRefused : Operation → Answer → Prop
  | .create _, .position (.error _) => True
  | .registerGenerator _ _, .position (.error _) => True
  | .setValue _ _, .settled (.error _) => True
  | .addRule _ _, .position (.error _) => True
  | .addScript _ _, .position (.error _) => True
  | .createTrace _, .position (.error _) => True
  | _, _ => False

/-- Inputs that are refused leave first initializers at most. -/
theorem createInputs_refused {inputs : List Input} {e e' : Engine C R} {failure : Failure}
    (hs : e.state.WellFormed) (h : createInputs inputs e = .done (.error failure, e')) :
    ∃ declared, e.state.Declares declared ∧ e' = declareSilently e declared := by
  unfold createInputs at h
  rw [Action.current_bind] at h
  rcases Action.of_ofExcept_bind_done h with ⟨-, -, h⟩ | ⟨failure, -, -, rfl⟩
  · exact transaction_refused hs (fun _ _ hdone => (construction_of_resolveAll hdone).1) h
  · exact ⟨[], .nil _, rfl⟩

/-- A rule that is refused leaves first initializers at most. -/
theorem addRule_refused {panel : Panel} {widget : Nat} {d : RuleDeclaration} {e e' : Engine C R}
    {failure : Failure} (hs : e.state.WellFormed)
    (h : addRule panel widget d e = .done (.error failure, e')) :
    ∃ declared, e.state.Declares declared ∧ e' = declareSilently e declared := by
  unfold addRule at h
  rw [Action.current_bind] at h
  rcases Action.of_ofExcept_bind_done h with ⟨rule, -, h⟩ | ⟨failure, -, -, rfl⟩
  · rcases Action.of_bind_done h with ⟨inputs, e₁, -, h⟩ | ⟨failure, hrefused, -⟩
    · rw [Action.current_bind, Action.update_bind] at h
      cases h
    · exact createInputs_refused hs hrefused
  · exact ⟨[], .nil _, rfl⟩

/-- A script that is refused leaves first initializers at most, and what the
interpreter remembers of its body. -/
theorem addScript_refused {widget : Nat} {d : ScriptDeclaration} {e e' : Engine C R}
    {failure : Failure} (hs : e.state.WellFormed)
    (h : addScript widget d e = .done (.error failure, e')) :
    ∃ declared, e.state.Declares declared ∧
      e' = { declareSilently e declared with memory := e'.memory } := by
  unfold addScript at h
  have hvalidate : ∀ result e₀, validate d.name d.body e = .done (result, e₀) →
      e₀ = { e with memory := e₀.memory } := by
    intro result e₀ hdone
    obtain ⟨-, rfl⟩ : _ = result ∧ _ = e₀ := by simpa [validate] using hdone
    rfl
  rcases Action.of_bind_done h with ⟨_, e₀, hok, h⟩ | ⟨failure, hrefused, -⟩
  · have hmemory := hvalidate _ _ hok
    have hstate : e₀.state = e.state := by rw [hmemory]
    rcases Action.of_bind_done h with ⟨inputs, e₁, -, h⟩ | ⟨failure, hrefused, -⟩
    · rw [Action.current_bind, Action.update_bind] at h
      cases h
    · obtain ⟨declared, hdeclares, rfl⟩ := createInputs_refused (hstate ▸ hs) hrefused
      refine ⟨declared, hstate ▸ hdeclares, ?_⟩
      rw [hmemory]
      rfl
  · exact ⟨[], .nil _, hvalidate _ _ hrefused⟩

/-- A trace that is refused leaves first initializers at most. -/
theorem createTrace_refused {request : TraceRequest} {e e' : Engine C R} {failure : Failure}
    (hs : e.state.WellFormed) (h : createTrace request e = .done (.error failure, e')) :
    ∃ declared, e.state.Declares declared ∧ e' = declareSilently e declared := by
  unfold createTrace at h
  rcases Action.of_ofExcept_bind_done h with ⟨-, -, h⟩ | ⟨failure, -, -, rfl⟩
  · rw [Action.current_bind] at h
    rcases Action.of_ofExcept_bind_done h with ⟨-, -, h⟩ | ⟨failure, -, -, rfl⟩
    · rcases Action.of_bind_done h with ⟨ids, e₁, -, h⟩ | ⟨failure, hrefused, -⟩
      · rw [Action.current_bind, Action.update_bind] at h
        cases h
      · exact transaction_refused hs (fun _ _ hdone => (construction_of_resolveAll hdone).1)
          hrefused
    · exact ⟨[], .nil _, rfl⟩
  · exact ⟨[], .nil _, rfl⟩

/-- What a refused operation leaves behind. -/
theorem perform_refused {s s' : Stage C R} {operation : Operation} {answer : Answer}
    (hs : s.engine.state.WellFormed) (h : s.perform operation = .done (answer, s'))
    (hrefused : operation.IsRefused answer) :
    ∃ declared, s.engine.state.Declares declared ∧
      s' = { s with
        engine := { declareSilently s.engine declared with memory := s'.engine.memory } } ∧
      ((∀ widget d, operation ≠ .addScript widget d) →
        s'.engine.memory = s.engine.memory) := by
  cases operation with
  | create name =>
    obtain ⟨result, e', haction, rfl, rfl⟩ := act_eq_done h
    cases result with
    | ok id => exact hrefused.elim
    | error failure =>
      obtain ⟨declared, hdeclares, rfl⟩ :=
        transaction_refused hs (fun _ _ => construction_of_resolve_alone) haction
      exact ⟨declared, hdeclares, rfl, fun _ => rfl⟩
  | registerGenerator name generator =>
    obtain ⟨result, e', haction, rfl, rfl⟩ := act_eq_done h
    rcases registerGenerator_cases haction with ⟨failure, rfl, rfl⟩ | ⟨-, rfl, -⟩
    · exact ⟨[], .nil _, rfl, fun _ => rfl⟩
    · exact hrefused.elim
  | setValue name value =>
    obtain ⟨result, e', haction, rfl, rfl⟩ := act_eq_done h
    rcases setValue_cases haction with ⟨failure, rfl, rfl⟩ | ⟨id, state, -, rfl, -⟩
    · exact ⟨[], .nil _, rfl, fun _ => rfl⟩
    · exact hrefused.elim
  | addRule widget d =>
    obtain ⟨result, e', haction, rfl, rfl⟩ := act_eq_done h
    cases result with
    | ok id => exact hrefused.elim
    | error failure =>
      obtain ⟨declared, hdeclares, rfl⟩ := addRule_refused hs haction
      exact ⟨declared, hdeclares, rfl, fun _ => rfl⟩
  | addScript widget d =>
    obtain ⟨result, e', haction, rfl, rfl⟩ := act_eq_done h
    cases result with
    | ok id => exact hrefused.elim
    | error failure =>
      obtain ⟨declared, hdeclares, he⟩ := addScript_refused hs haction
      exact ⟨declared, hdeclares, congrArg (Stage.mk · s.panel) he,
        fun hne => absurd rfl (hne widget d)⟩
  | createTrace request =>
    obtain ⟨result, e', haction, rfl, rfl⟩ := act_eq_done h
    cases result with
    | ok id => exact hrefused.elim
    | error failure =>
      obtain ⟨declared, hdeclares, rfl⟩ := createTrace_refused hs haction
      exact ⟨declared, hdeclares, rfl, fun _ => rfl⟩
  | tick clock wall => exact hrefused.elim
  | reset epoch => exact hrefused.elim
  | assign widget property value => exact hrefused.elim
  | editTrace trace edit => exact hrefused.elim
  | takeErrors => exact hrefused.elim
  | takeMessages => exact hrefused.elim

/-- A refused operation restores the state of every reachable stage, but for
first initializers: the widgets, the settings, the failures and the messages
are those from before, and so is the state up to declarations of variables
that were without an initializer. The state is exactly the one from before if
and only if no such variable got its initializer. -/
theorem refused_restores_iff {settings : Settings} {epoch : Time.Instant} {panel : Panel}
    {operations : List Operation} {answers : List Answer} {s s' : Stage C R}
    {operation : Operation} {answer : Answer}
    (hrun : (Stage.mk (Engine.start C R settings epoch) panel).run operations =
      .done (answers, s))
    (h : s.perform operation = .done (answer, s')) (hrefused : operation.IsRefused answer) :
    (∃ declared, s.engine.state.Declares declared ∧
      s' = { s with
        engine := { declareSilently s.engine declared with memory := s'.engine.memory } } ∧
      ((∀ widget d, operation ≠ .addScript widget d) →
        s'.engine.memory = s.engine.memory)) ∧
      (s'.engine.state = s.engine.state ↔
        ∀ id, s.engine.state.IsOpen id → s'.engine.state.IsOpen id) := by
  obtain ⟨declared, hdeclares, hs', hmemory⟩ :=
    perform_refused (session_of_run hrun).wellFormed h hrefused
  refine ⟨⟨declared, hdeclares, hs', hmemory⟩, ?_⟩
  have hstate : s'.engine.state =
      { s.engine.state.redeclareAll declared with changed := s.engine.state.changed } := by
    rw [hs']
    rfl
  constructor
  · intro hsame id hid
    rw [hsame]
    exact hid
  · intro hopen
    have hnil : declared = [] := by
      refine hdeclares.eq_nil fun id hid => ?_
      have hstill := hopen id hid
      rw [hstate] at hstill
      exact hstill
    rw [hstate, hnil]
    rfl

/-- Whether an answer refuses a position. -/
def Answer.isRefusedPosition : Answer → Bool
  | .position (.error _) => true
  | _ => false

/-- An answer that passes the check is a refusal. -/
theorem position_error_of_check {answer : Answer} (h : answer.isRefusedPosition = true) :
    ∃ failure, answer = .position (.error failure) := by
  cases answer with
  | position result =>
    cases result with
    | error failure => exact ⟨failure, rfl⟩
    | ok _ => cases h
  | _ => cases h

/-- A trace of a variable of the display, against a formula that is no formula. -/
def hopelessTrace (vertical : String) : Operation :=
  .createTrace { vertical, horizontal := some "='" }

/-- A refused trace of a variable that did not exist leaves no variable behind. -/
theorem refused_trace_restored : ∃ failure s',
    (bareStage []).perform (hopelessTrace "loc://x(5)") = .done (.position (.error failure), s') ∧
      s'.engine.state = (bareStage []).engine.state := by
  have hrun : (Stage.mk (Engine.start (.expressions .standard {} 1000)
      (.bundled .standard {}) {} 0) []).run [] = .done ([], bareStage []) := rfl
  obtain ⟨⟨answer, s'⟩, hperform, hanswer⟩ := done_of_any
    (fun told : Answer × BundledStage =>
      told.1.isRefusedPosition)
    (show ((bareStage []).perform (hopelessTrace "loc://x(5)")).value?.any _ = true by
      decide +kernel)
  obtain ⟨failure, rfl⟩ := position_error_of_check hanswer
  refine ⟨failure, s', hperform, (refused_restores_iff hrun hperform trivial).2.mpr ?_⟩
  rintro id ⟨v, hv, -⟩
  cases hv

/-- The trace is refused, and the variable of its vertical name, registered
before without an initializer, keeps the one that the trace spelled. -/
theorem refused_trace_declares : ∃ answers s failure s',
    (bareStage []).run [.create "loc://x"] = .done (answers, s) ∧
      s.perform (hopelessTrace "loc://x(5)") = .done (.position (.error failure), s') ∧
      s.engine.value? "loc://x" = none ∧ s'.engine.value? "loc://x" ≠ none ∧
      s'.engine.state ≠ s.engine.state := by
  obtain ⟨⟨answers, s⟩, hrun, hcheck⟩ := done_of_any
    (fun reached : List Answer × BundledStage =>
      (reached.2.engine.value? "loc://x").isNone &&
      (reached.2.perform (hopelessTrace "loc://x(5)")).value?.any fun told =>
        (told.2.engine.value? "loc://x").isSome && told.1.isRefusedPosition)
    (show ((bareStage []).run [.create "loc://x"]).value?.any _ = true by decide +kernel)
  obtain ⟨hbefore, hcheck⟩ := Bool.and_eq_true_iff.mp hcheck
  obtain ⟨⟨answer, s'⟩, hperform, hcheck⟩ := done_of_any _ hcheck
  obtain ⟨hafter, hanswer⟩ := Bool.and_eq_true_iff.mp hcheck
  have hnone : s.engine.value? "loc://x" = none := Option.isNone_iff_eq_none.mp hbefore
  have hsome : s'.engine.value? "loc://x" ≠ none := Option.isSome_iff_ne_none.mp hafter
  obtain ⟨failure, rfl⟩ := position_error_of_check hanswer
  refine ⟨answers, s, failure, s', hrun, hperform, hnone, hsome, ?_⟩
  intro hstate
  have hsame : s'.engine.value? "loc://x" = s.engine.value? "loc://x" := by
    unfold value? variableNamed
    rw [hstate]
  exact hsome (hsame.trans hnone)

end ProcessDisplay.Engine
