/-!
# Declarations of rules and scripts

A rule drives one property of a widget: the first condition that holds
selects an output. A script is a body that runs when one of its triggers
changes. Both name the variables they read, in an order that gives every
input its position.
-/

namespace ProcessDisplay

/-- An input of a rule or script. -/
structure Input where
  /-- The name of the variable. -/
  name : String
  /-- Whether a change of the variable makes the unit run. -/
  isTrigger : Bool := true
  deriving DecidableEq, Repr

/-- A condition with the output that it selects. -/
structure RuleOutput where
  /-- The condition. -/
  condition : String
  /-- A literal, or an expression if the rule says so. -/
  output : String
  deriving DecidableEq, Repr

/-- The declaration of a rule. -/
structure RuleDeclaration where
  /-- The name, which appears in failures. -/
  name : String
  /-- The property that the rule drives. -/
  property : String
  /-- The conditions and outputs in order. -/
  outputs : List RuleOutput := []
  /-- Whether the outputs are expressions. -/
  outputsAreExpressions : Bool := false
  /-- The inputs in order. -/
  inputs : List Input := []
  deriving DecidableEq, Repr

/-- The declaration of a script. -/
structure ScriptDeclaration where
  /-- The name, which appears in failures and messages. -/
  name : String
  /-- The source text. -/
  body : String
  /-- The inputs in order. -/
  inputs : List Input := []
  deriving DecidableEq, Repr

end ProcessDisplay
