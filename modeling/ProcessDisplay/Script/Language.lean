import ProcessDisplay.Script.Course
import ProcessDisplay.Script.Fault
import ProcessDisplay.Script.Limits
import ProcessDisplay.Script.Problem

/-!
# Languages of scripts and expressions

A display needs of its language only that sources are compiled and that
compiled sources have courses. Everything else about the language is left
open, so what is said of displays holds in every language.
-/

namespace ProcessDisplay.Script

/-- A variable or constant. -/
structure Slot where
  /-- The name. -/
  name : String
  /-- Whether assignments are refused. -/
  isConstant : Bool
  /-- The current value. -/
  value : Datum

/-- A compiled expression: the course of its evaluation with some variables
in scope, and the variables after it. -/
structure Expression where
  /-- The course, from the variables in scope. -/
  course : List Slot → Course (Except Fault Datum × List Slot)

/-- A compiled script. It begins without variables; what it keeps for later
runs are the modules that it loaded. -/
structure Code (μ : Type) where
  /-- The course, from the modules that are loaded already. -/
  course : μ → Course (Except Fault Datum × μ)

/-- A language of scripts and expressions. Evaluations depend on nothing but
the source, the limits, the variables in scope, the loaded modules and the
replies of the host: it is assumed that they read no clock, that the files of
modules stay as they are, and that expressions load no modules. -/
structure Language where
  /-- The modules that scripts have loaded. -/
  Modules : Type
  /-- The state without a loaded module. -/
  unloaded : Modules
  /-- The script that a source text spells. -/
  script : Limits → String → Except Problem (Code Modules)
  /-- The expression that a source text spells. -/
  expression : Limits → String → Except Problem Expression

end ProcessDisplay.Script
