import ProcessDisplay.Script.Eval
import ProcessDisplay.Script.Parser.Grammar

/-!
# The standard language

The language in which displays are run: a source is parsed once and its
program is evaluated within the limits. Scripts of this language load no
modules.
-/

namespace ProcessDisplay.Script

/-- The script of a program. -/
def Program.code (program : Program) (limits : Limits) : Code Unit where
  course _ := do
    let (result, _) ← program.course limits []
    return (result, ())

/-- The expression of a program. -/
def Program.expression (program : Program) (limits : Limits) : Expression where
  course := program.course limits

/-- The standard language. -/
def Language.standard : Language where
  Modules := Unit
  unloaded := ()
  script limits source := (Program.parse limits source).map (Program.code · limits)
  expression limits source :=
    (Program.parseExpression limits source).map (Program.expression · limits)

end ProcessDisplay.Script
