import Mathlib.Tactic.Common

/-!
# Computations that may fail

Parsers, compilers and readers put computations together that may fail. What
such a computation yields was yielded by its parts.
-/

namespace ProcessDisplay

/-- A sequence of computations that may fail succeeds if both parts do. -/
theorem exceptBind_eq_ok_iff {ε α β : Type} {first : Except ε α} {next : α → Except ε β} {b : β} :
    (first >>= next) = .ok b ↔ ∃ a, first = .ok a ∧ next a = .ok b := by
  cases first with
  | error e =>
    constructor
    · intro h
      cases h
    · rintro ⟨a, h, -⟩
      cases h
  | ok a =>
    constructor
    · exact fun h => ⟨a, rfl, h⟩
    · rintro ⟨a', h, hnext⟩
      obtain rfl := Except.ok.inj h
      exact hnext

/-- A computation that may fail is mapped to a result if it succeeds. -/
theorem exceptMap_eq_ok_iff {ε α β : Type} {f : α → β} {result : Except ε α} {b : β} :
    result.map f = .ok b ↔ ∃ a, result = .ok a ∧ f a = b := by
  cases result with
  | error e => simp [Except.map]
  | ok a => simp [Except.map]

/-- A computation that may fail has a result if it succeeds. -/
theorem exceptToOption_eq_some_iff {ε α : Type} {result : Except ε α} {a : α} :
    result.toOption = some a ↔ result = .ok a := by
  cases result with
  | error e => simp [Except.toOption]
  | ok a => simp [Except.toOption]

/-- A computation whose result passes a check succeeds with it. -/
theorem exceptOk_of_any {ε α : Type} {result : Except ε α} (check : α → Bool)
    (h : result.toOption.any check = true) : ∃ a, result = .ok a ∧ check a = true := by
  obtain ⟨a, ha, hcheck⟩ := (Option.any_eq_true _ _).mp h
  exact ⟨a, exceptToOption_eq_some_iff.mp ha, hcheck⟩

end ProcessDisplay
