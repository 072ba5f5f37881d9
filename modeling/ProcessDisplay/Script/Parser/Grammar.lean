import ProcessDisplay.Script.Parser.Statement

/-!
# From source text to program

The rules of all goals form the grammar. A source text is either a script,
which is a row of statements and function definitions, or a single
expression.
-/

namespace ProcessDisplay.Script

open ProcessDisplay.Script.Parser

/-- The rule of every goal. -/
def rule (goals : Goals) : Goals
  | .expression, place => expression goals place
  | .operand, place => operand goals place
  | .operators above left, place => operators goals place above left
  | .statement, place => statement goals place
  | .block, place => block goals place
  | .conditional, place => conditional goals place
  | .code, place => code goals place

/-- The grammar with a bound on the nesting of goals. -/
def grammar : Nat → Goals
  | 0, _, _ => throw .tooDeep
  | fuel + 1, goal, place => rule (grammar fuel) goal place

/-- A statement or a function definition outside of everything. -/
def outermost (goals : Goals) (place : Place) : Parser (Option Term) := do
  let isPrivate ← accept (.word "private")
  if ← accept (.word "fn") then
    definition goals place
    return none
  else if isPrivate then throw (.unexpected "'fn'")
  else do
    let last ← goals .statement place
    separator last (· = none)
    return some last

/-- All statements of a script. -/
def script (goals : Goals) (place : Place) : Parser (List Term) := do
  let found ← collectAll do
    if (← peek) = none then return none
    else if ← accept (.mark ";") then return some none
    else return some (← outermost goals place)
  return Term.withoutPure (found.filterMap id)

/-- The bound on the nesting of goals for a row of tokens: at most three
goals are entered without taking a token. -/
def nesting (tokens : List Token) : Nat := 4 * tokens.length + 8

/-- The script that a source text spells. -/
def Program.parse (limits : Limits) (source : String) : Except Problem Program := do
  let tokens ← lex limits source
  let place : Place :=
    { limit := limits.depth, items := limits.items, isExpression := false, isOutermost := true }
  let (found, rest) ← (script (grammar (nesting tokens)) place).run { tokens }
  return ⟨found, rest.functions, source.length⟩

/-- The single expression that a source text spells. -/
def Program.parseExpression (limits : Limits) (source : String) : Except Problem Program := do
  let tokens ← lex limits source
  let place : Place := { limit := limits.depth, items := limits.items, isExpression := true }
  let (found, rest) ← (grammar (nesting tokens) .expression place).run { tokens }
  if rest.tokens.isEmpty then return ⟨[found], [], source.length⟩
  else throw (.unexpected "the end of the expression")

end ProcessDisplay.Script
