import Mathlib.Tactic.Common
import ProcessDisplay.Engine.Operation

/-!
# Actions taken apart

An action that returned did so in one of two ways: all of its parts
succeeded in turn, or one of them was refused and the rest did not run. The
lemmas below take sequences apart along these lines, so that no later proof
opens the definition of sequencing.
-/

namespace ProcessDisplay.Engine.Action

variable {C : FormulaCompiler} {R : ScriptInterpreter} {α β : Type}

/-- Sequencing by the three ways in which the first part can end. -/
theorem bind_apply (first : Action C R α) (next : α → Action C R β) (e : Engine C R) :
    (first >>= next) e =
      match first e with
      | .crash => .crash
      | .done (.error failure, e) => .done (.error failure, e)
      | .done (.ok a, e) => next a e := rfl

/-- A known result changes nothing. -/
@[simp] theorem pure_apply (a : α) (e : Engine C R) :
    (pure a : Action C R α) e = .done (.ok a, e) := rfl

instance : LawfulMonad (Action C R) := by
  refine LawfulMonad.mk' _ ?_ ?_ ?_
  · intro α first
    funext e
    change (first >>= fun a => pure a) e = first e
    rw [bind_apply]
    rcases first e with ⟨_ | _, _⟩ | _ <;> rfl
  · intro α β a next
    rfl
  · intro α β γ first next last
    funext e
    rw [bind_apply, bind_apply, bind_apply]
    rcases first e with ⟨_ | _, _⟩ | _ <;> rfl

/-- Reading the engine hands it to what follows. -/
@[simp] theorem current_bind (next : Engine C R → Action C R β) (e : Engine C R) :
    (current >>= next) e = next e e := rfl

/-- What follows a change of the state runs on the changed state. -/
@[simp] theorem update_bind (change : State C → State C) (next : Unit → Action C R β)
    (e : Engine C R) : (update change >>= next) e = next () (e.withState (change e.state)) := rfl

/-- A change of the state by itself. -/
@[simp] theorem update_apply (change : State C → State C) (e : Engine C R) :
    (update change : Action C R Unit) e = .done (.ok (), e.withState (change e.state)) := rfl

/-- What follows a known result receives it. -/
@[simp] theorem ofExcept_ok_bind (a : α) (next : α → Action C R β) (e : Engine C R) :
    (ofExcept (.ok a) >>= next) e = next a e := rfl

/-- Nothing follows a refusal. -/
@[simp] theorem ofExcept_error_bind (failure : Failure) (next : α → Action C R β)
    (e : Engine C R) : (ofExcept (.error failure) >>= next) e = .done (.error failure, e) := rfl

/-- A known result by itself. -/
@[simp] theorem ofExcept_apply (result : Except Failure α) (e : Engine C R) :
    (ofExcept result : Action C R α) e = .done (result, e) := rfl

/-- A sequence that returned either had all of its parts succeed up to the
last one, or ended with the refusal of its first part. -/
theorem of_bind_done {first : Action C R α} {next : α → Action C R β} {e e' : Engine C R}
    {result : Except Failure β} (h : (first >>= next) e = .done (result, e')) :
    (∃ a e₁, first e = .done (.ok a, e₁) ∧ next a e₁ = .done (result, e')) ∨
      ∃ failure, first e = .done (.error failure, e') ∧ result = .error failure := by
  rw [bind_apply] at h
  rcases hf : first e with ⟨failure | a, e₁⟩ | _
  · rw [hf] at h
    obtain ⟨rfl, rfl⟩ : Except.error failure = result ∧ e₁ = e' := by simpa using h
    exact Or.inr ⟨failure, rfl, rfl⟩
  · rw [hf] at h
    exact Or.inl ⟨a, e₁, rfl, h⟩
  · rw [hf] at h
    cases h

/-- What follows a check either runs on the engine as it was, or is refused
and leaves the engine as it was. -/
theorem of_ofExcept_bind_done {checked : Except Failure α} {next : α → Action C R β}
    {e e' : Engine C R} {result : Except Failure β}
    (h : (ofExcept checked >>= next) e = .done (result, e')) :
    (∃ a, checked = .ok a ∧ next a e = .done (result, e')) ∨
      ∃ failure, checked = .error failure ∧ result = .error failure ∧ e' = e := by
  cases checked with
  | ok a => exact Or.inl ⟨a, rfl, h⟩
  | error failure =>
    rw [ofExcept_error_bind] at h
    obtain ⟨rfl, rfl⟩ : Except.error failure = result ∧ e = e' := by simpa using h
    exact Or.inr ⟨failure, rfl, rfl, rfl⟩

/-- What follows a computation of the engine runs on the engine it left. -/
theorem of_ofOutcome_bind_done {compute : Engine C R → Outcome (α × Engine C R)}
    {next : α → Action C R β} {e e' : Engine C R} {result : Except Failure β}
    (h : (ofOutcome compute >>= next) e = .done (result, e')) :
    ∃ a e₁, compute e = .done (a, e₁) ∧ next a e₁ = .done (result, e') := by
  rw [bind_apply] at h
  rcases hc : compute e with ⟨a, e₁⟩ | _
  · simp only [ofOutcome, hc, Outcome.done_bind, Outcome.pure_eq] at h
    exact ⟨a, e₁, rfl, h⟩
  · simp only [ofOutcome, hc, Outcome.crash_bind] at h
    cases h

/-- Doing nothing for no items. -/
@[simp] theorem mapM_nil (f : α → Action C R β) (e : Engine C R) :
    ([].mapM f) e = .done (.ok [], e) := rfl

/-- An action for a list of items is the action for the first one and then
that for the others. -/
theorem of_mapM_cons_done {f : α → Action C R β} {item : α} {items : List α} {e e' : Engine C R}
    {result : Except Failure (List β)} (h : ((item :: items).mapM f) e = .done (result, e')) :
    (∃ b e₁, f item e = .done (.ok b, e₁) ∧
      ((∃ bs, (items.mapM f) e₁ = .done (.ok bs, e') ∧ result = .ok (b :: bs)) ∨
        ∃ failure, (items.mapM f) e₁ = .done (.error failure, e') ∧ result = .error failure)) ∨
      ∃ failure, f item e = .done (.error failure, e') ∧ result = .error failure := by
  rw [List.mapM_cons] at h
  rcases of_bind_done h with ⟨b, e₁, hb, hrest⟩ | hrefused
  · refine Or.inl ⟨b, e₁, hb, ?_⟩
    rcases of_bind_done hrest with ⟨bs, e₂, hbs, hlast⟩ | hrefused
    · rw [pure_apply] at hlast
      obtain ⟨rfl, rfl⟩ : Except.ok (b :: bs) = result ∧ e₂ = e' := by simpa using hlast
      exact Or.inl ⟨bs, hbs, rfl⟩
    · exact Or.inr hrefused
  · exact Or.inr hrefused

end ProcessDisplay.Engine.Action
