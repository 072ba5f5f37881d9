import ProcessDisplay.Engine.Settings
import ProcessDisplay.Engine.State
import ProcessDisplay.Script.Interpreter

/-!
# Engines

An engine holds the state of one display together with what outlives it: the
settings, the seed of noise and the memory of the script interpreter. It
records the failures of units and the messages of scripts until somebody
takes them.

An operation on an engine is refused with a failure, or ends the program, or
returns; in every case but the second there is an engine afterwards.
-/

namespace ProcessDisplay

/-- An engine for a language of formulas and a language of scripts. -/
structure Engine (C : FormulaCompiler) (R : ScriptInterpreter) where
  /-- The settings. -/
  settings : Engine.Settings
  /-- The seed of noise. -/
  seed : UInt64
  /-- What the script interpreter remembers. -/
  memory : R.Memory
  /-- The state of the display. -/
  state : Engine.State C
  /-- The failures of units that nobody has taken yet. -/
  errors : List UnitFailure := []
  /-- The messages of scripts that nobody has taken yet. -/
  messages : List Script.Message := []

namespace Engine

variable {C : FormulaCompiler} {R : ScriptInterpreter}

/-- The seed of an engine that starts at an instant. -/
def seedOf (settings : Settings) (epoch : Time.Instant) : UInt64 :=
  settings.seed.getD (UInt64.ofNat (epoch % 18446744073709551616).toNat)

/-- An engine without a display, started at an instant. -/
def start (C : FormulaCompiler) (R : ScriptInterpreter) (settings : Settings)
    (epoch : Time.Instant) : Engine C R :=
  { settings
    seed := seedOf settings epoch
    memory := R.initial
    state := State.start C epoch }

/-- The engine with another state of the display. -/
def withState (e : Engine C R) (state : State C) : Engine C R := { e with state }

/-- The engine with one more recorded failure. -/
def record (e : Engine C R) (unit : String) (failure : Failure) : Engine C R :=
  { e with errors := e.errors ++ [⟨unit, failure⟩] }

/-- The recorded failures, and the engine without them. -/
def takeErrors (e : Engine C R) : List UnitFailure × Engine C R :=
  (e.errors, { e with errors := [] })

/-- The recorded messages, and the engine without them. -/
def takeMessages (e : Engine C R) : List Script.Message × Engine C R :=
  (e.messages, { e with messages := [] })

/-- The engine without its display, started again at an instant, and the
histories of traces to be disconnected. -/
def reset (e : Engine C R) (epoch : Time.Instant) : Engine C R × List Trace.History :=
  ({ e with state := State.start C epoch, errors := [], messages := [] },
    e.state.traces.flatMap fun unit => unit.buffer.release)

/-- Something that is done with an engine and may be refused. -/
def Action (C : FormulaCompiler) (R : ScriptInterpreter) (α : Type) : Type :=
  Engine C R → Outcome (Except Failure α × Engine C R)

namespace Action

/-- Sequencing; a refused part ends the sequence with the engine it left. -/
protected def bind (first : Action C R α) (next : α → Action C R β) : Action C R β := fun e =>
  match first e with
  | .crash => .crash
  | .done (.error failure, e) => .done (.error failure, e)
  | .done (.ok a, e) => next a e

instance : Monad (Action C R) where
  pure a := fun e => .done (.ok a, e)
  bind := Action.bind

/-- The engine as it is. -/
def current : Action C R (Engine C R) := fun e => .done (.ok e, e)

/-- A change of the state that always succeeds. -/
def update (change : State C → State C) : Action C R Unit := fun e =>
  .done (.ok (), e.withState (change e.state))

/-- A result that is known, or a refusal. -/
def ofExcept (result : Except Failure α) : Action C R α := fun e => .done (result, e)

/-- A computation that leaves the engine to its result. -/
def ofOutcome (compute : Engine C R → Outcome (α × Engine C R)) : Action C R α := fun e => do
  let (a, e) ← compute e
  return (.ok a, e)

end Action

end Engine

/-- A failure within something larger, if it is one. -/
def Failure.inContext (context : String) (result : Except Failure α) : Except Failure α :=
  result.mapError (.within context)

end ProcessDisplay
