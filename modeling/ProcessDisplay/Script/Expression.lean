import ProcessDisplay.Script.Exchange
import ProcessDisplay.Script.Functions
import ProcessDisplay.Script.Language

/-!
# Evaluation of expressions

An expression of a formula or a rule is evaluated with variables in scope
and the shared functions.
-/

namespace ProcessDisplay.Script.Expression

/-- The result of an expression and the variables after it. -/
def evaluate (scope : List Slot) (e : Expression) :
    Outcome (Except Fault Datum) × List Slot :=
  match (e.course scope).run expressionHost () with
  | .crash => (.crash, scope)
  | .done ((result, scope), _) => (.done result, scope)

end ProcessDisplay.Script.Expression
