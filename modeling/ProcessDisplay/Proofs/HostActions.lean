import Mathlib.Tactic.Common
import ProcessDisplay.Proofs.Courses
import ProcessDisplay.Script.Expression
import ProcessDisplay.Script.Host

/-!
# What the actions of hosts do

The host of expressions and the host of scripts have the shared functions,
which look at nothing but their arguments. Of all functions of both hosts
only `clamp` can end the program, and it does so exactly between bounds that
are not in order.
-/

namespace ProcessDisplay.Script

/-- A number is to be clamped between bounds that are not in order. -/
def Crossed (name : String) (arguments : List Datum) : Prop :=
  name = "clamp" ∧ ∃ x low high, arguments = [.float x, .float low, .float high] ∧ ¬low ≤ high

/-- A shared function ends the program exactly between crossed bounds. -/
theorem Functions.call_eq_crash_iff {name : String} {arguments : List Datum} :
    Functions.call name arguments = some .crash ↔ Crossed name arguments := by
  refine ⟨fun h => ?_, ?_⟩
  · unfold Functions.call at h
    split at h
    · cases hfound : Functions.constant name <;> simp [hfound] at h
    · next x => cases hfound : Functions.ofNumber name x <;> simp [hfound] at h
    · split at h <;> cases h
    · next x y => cases hfound : Functions.ofNumbers name x y <;> simp [hfound] at h
    · next m n => cases hfound : Functions.ofIntegers name m n <;> simp [hfound] at h
    · next x low high =>
      unfold Functions.ofThree at h
      split at h
      · split at h
        · cases h
        · next hcrossed => exact ⟨rfl, x, low, high, rfl, hcrossed⟩
      · cases h
      · cases h
      · cases h
    · split at h <;> cases h
    · cases h
  · rintro ⟨rfl, x, low, high, rfl, hcrossed⟩
    exact congrArg some (if_neg hcrossed)

section Shared

variable {σ : Type} {name : String} {arguments : List Datum}
  {action : σ → Outcome (Except String Datum × σ)}

/-- A shared function answers with its value and leaves the state as it is. -/
theorem exists_of_sharedAction (h : sharedAction name arguments = some action) :
    ∃ result, Functions.call name arguments = some result ∧
      action = fun state => do return (.ok (← result), state) := by
  obtain ⟨result, hcall, rfl⟩ := Option.map_eq_some_iff.mp h
  exact ⟨result, hcall, rfl⟩

/-- A shared function leaves the state as it is. -/
theorem sharedAction_keeps (h : sharedAction name arguments = some action) {state : σ}
    {answered : Except String Datum × σ} (hanswered : action state = .done answered) :
    answered.2 = state := by
  obtain ⟨result, -, rfl⟩ := exists_of_sharedAction h
  obtain ⟨d, -, hdone⟩ := Outcome.bind_eq_done_iff.mp hanswered
  obtain rfl := Outcome.done.inj hdone
  rfl

/-- A shared function returns unless bounds are crossed. -/
theorem sharedAction_answers (h : sharedAction name arguments = some action)
    (hordered : ¬Crossed name arguments) (state : σ) :
    ∃ answered, action state = .done answered := by
  obtain ⟨result, hcall, rfl⟩ := exists_of_sharedAction h
  cases result with
  | crash => exact absurd (Functions.call_eq_crash_iff.mp hcall) hordered
  | done d => exact ⟨_, rfl⟩

end Shared

/-- An action of the host of scripts is that of a shared function, or it is an
action on the record. -/
theorem scriptHost_eq_some {name : String} {arguments : List Datum}
    {action : RunRecord → Outcome (Except String Datum × RunRecord)}
    (h : scriptHost name arguments = some action) :
    sharedAction name arguments = some action ∨
      ∃ act, scriptAct? name arguments = some act ∧ action = fun record => .done (act record) := by
  rcases Option.or_eq_some_iff.mp h with hshared | ⟨-, hmapped⟩
  · exact .inl hshared
  · obtain ⟨act, hact, rfl⟩ := Option.map_eq_some_iff.mp hmapped
    exact .inr ⟨act, hact, rfl⟩

/-- A function of the host of scripts returns unless bounds are crossed. -/
theorem scriptHost_answers {name : String} {arguments : List Datum}
    {action : RunRecord → Outcome (Except String Datum × RunRecord)}
    (h : scriptHost name arguments = some action) (hordered : ¬Crossed name arguments)
    (record : RunRecord) : ∃ answered, action record = .done answered := by
  rcases scriptHost_eq_some h with hshared | ⟨act, -, rfl⟩
  · exact sharedAction_answers hshared hordered record
  · exact ⟨_, rfl⟩

/-- A function of the host of expressions returns unless bounds are crossed. -/
theorem expressionHost_answers {name : String} {arguments : List Datum}
    {action : Unit → Outcome (Except String Datum × Unit)}
    (h : expressionHost name arguments = some action) (hordered : ¬Crossed name arguments)
    (state : Unit) : ∃ answered, action state = .done answered := by
  rcases Option.or_eq_some_iff.mp h with hshared | ⟨-, hprint⟩
  · exact sharedAction_answers hshared hordered state
  · split at hprint
    · obtain rfl := Option.some.inj hprint
      exact ⟨_, rfl⟩
    · cases hprint

/-- Where the actions on the record keep a property, the host of scripts does. -/
theorem scriptHost_keeps_of {good : RunRecord → Prop}
    (h : ∀ name arguments act, scriptAct? name arguments = some act →
      ∀ record, good record → good (act record).2) : scriptHost.Keeps good := by
  intro name arguments action haction record answered hrecord hanswered
  rcases scriptHost_eq_some haction with hshared | ⟨act, hact, rfl⟩
  · rw [sharedAction_keeps hshared hanswered]
    exact hrecord
  · obtain rfl := Outcome.done.inj hanswered
    exact h name arguments act hact record hrecord

end ProcessDisplay.Script
