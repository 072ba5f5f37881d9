import ProcessDisplay.Outcome
import ProcessDisplay.Script.Datum

/-!
# Courses of evaluations

What an evaluation does, as its host can see it: it calls functions of the
host one after another, goes on with the replies, and ends with a result. A
host answers the calls on a state of its own. The same course may be run
with any host, so an evaluation reaches the state of a host through calls
only.
-/

namespace ProcessDisplay.Script

/-- What a host answers to a call: nothing if it has no function of the name
for the arguments, else the result or the thrown text. -/
abbrev Reply := Option (Except String Datum)

/-- The functions that a host adds: a name and arguments select an action on
the host state, which may fail with a thrown text or end the program. -/
abbrev Host (σ : Type) :=
  String → List Datum → Option (σ → Outcome (Except String Datum × σ))

/-- The course of an evaluation with a result of type `α`. -/
inductive Course (α : Type) where
  /-- It ends with a result. -/
  | ends (result : α)
  /-- It ends the program or never ends. -/
  | crashes
  /-- It calls a function of the host and goes on with the reply. -/
  | calls (name : String) (arguments : List Datum) (next : Reply → Course α)

namespace Course

/-- One course after another. -/
protected def bind : Course α → (α → Course β) → Course β
  | ends a, after => after a
  | crashes, _ => crashes
  | calls name arguments next, after => calls name arguments fun reply => (next reply).bind after

instance : Monad Course where
  pure := ends
  bind := Course.bind

/-- The course in a host: its result, and the state of the host afterwards. -/
def run (host : Host σ) : Course α → σ → Outcome (α × σ)
  | ends a, state => .done (a, state)
  | crashes, _ => .crash
  | calls name arguments next, state =>
    match host name arguments with
    | none => (next none).run host state
    | some action => do
      let (reply, state) ← action state
      (next (some reply)).run host state

@[simp] theorem pure_eq (a : α) : (pure a : Course α) = ends a := rfl

@[simp] theorem ends_bind (a : α) (after : α → Course β) : (ends a >>= after) = after a := rfl

@[simp] theorem crashes_bind (after : α → Course β) : (crashes >>= after) = crashes := rfl

@[simp] theorem calls_bind (name : String) (arguments : List Datum) (next : Reply → Course α)
    (after : α → Course β) :
    (calls name arguments next >>= after) =
      calls name arguments fun reply => next reply >>= after := rfl

end Course

end ProcessDisplay.Script
