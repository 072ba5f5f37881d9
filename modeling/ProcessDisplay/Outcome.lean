/-!
# Outcomes that may be a crash

Some computations end the whole program instead of returning: a number
clamped between crossed bounds, or a date beyond the calendar. Such an end
is a value of its own here, kept apart from every reported failure, so that
absence of crashes can be stated and proved.
-/

namespace ProcessDisplay

/-- The result of a computation that may end the program. -/
inductive Outcome (α : Type u) where
  /-- The computation returned. -/
  | done (value : α)
  /-- The program ended abnormally; nothing after it runs. -/
  | crash
  deriving DecidableEq, Repr

namespace Outcome

/-- Sequencing; a crash ends everything that follows. -/
protected def bind (first : Outcome α) (next : α → Outcome β) : Outcome β :=
  match first with
  | done value => next value
  | crash => crash

instance : Monad Outcome where
  pure := done
  bind := Outcome.bind

/-- The result of a computation that returned. -/
def value? : Outcome α → Option α
  | done value => some value
  | crash => none

@[simp] theorem pure_eq (a : α) : (pure a : Outcome α) = done a := rfl

@[simp] theorem done_bind (a : α) (next : α → Outcome β) : (done a >>= next) = next a := rfl

@[simp] theorem crash_bind (next : α → Outcome β) : ((crash : Outcome α) >>= next) = crash := rfl

/-- A sequence returns exactly when both of its parts do. -/
theorem bind_eq_done_iff {first : Outcome α} {next : α → Outcome β} {b : β} :
    (first >>= next) = done b ↔ ∃ a, first = done a ∧ next a = done b := by
  cases first <;> simp

end Outcome

end ProcessDisplay
