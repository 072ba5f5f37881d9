import ProcessDisplay.Script.Lexer
import ProcessDisplay.Script.Term

/-!
# Rules of the grammar

A rule takes what it needs from the front of the remaining tokens. The
grammar is a set of goals, and each goal is reached through `Goals`, which
stands for the whole grammar at one level less. So no rule refers to itself,
and all of them together are defined by recursion on the level.
-/

namespace ProcessDisplay.Script

/-- What remains to be parsed and what has been declared so far. -/
structure Parsing where
  /-- The remaining tokens. -/
  tokens : List Token
  /-- The variables in scope, the innermost first, and whether each is constant. -/
  scope : List (String × Bool) := []
  /-- The functions defined so far. -/
  functions : List Function := []

/-- A rule that takes tokens from the front. -/
abbrev Parser := StateT Parsing (Except Problem)

/-- Where a rule is applied. -/
structure Place where
  /-- The depth of nesting. -/
  level : Nat := 0
  /-- The deepest nesting allowed, or zero. -/
  limit : Nat
  /-- The most elements of an array or map, or zero. -/
  items : Nat
  /-- Whether only a single expression is allowed. -/
  isExpression : Bool
  /-- Whether a loop surrounds the place. -/
  inLoop : Bool := false
  /-- Whether nothing surrounds the place. -/
  isOutermost : Bool := false

/-- What a rule is to produce. -/
inductive Goal where
  /-- An expression. -/
  | expression
  /-- An operand with the signs before it and the accesses after it. -/
  | operand
  /-- The operators that bind tighter than a precedence, after a left operand. -/
  | operators (precedence : Nat) (left : Term)
  /-- A statement. -/
  | statement
  /-- Statements in braces. -/
  | block
  /-- The rest of a conditional after its first word. -/
  | conditional
  /-- The code of a template up to its next piece of text. -/
  | code

/-- The grammar at one level less. -/
abbrev Goals := Goal → Place → Parser Term

namespace Parser

/-- The next token, which stays in front. -/
def peek : Parser (Option Token) := do return (← get).tokens.head?

/-- Removes the next token. -/
def skip : Parser Unit := modify fun p => { p with tokens := p.tokens.drop 1 }

/-- Takes the next token. -/
def next : Parser Token := do
  match (← get).tokens with
  | [] => throw .earlyEnd
  | token :: rest =>
    modify fun p => { p with tokens := rest }
    return token

/-- Takes a token if it is next. -/
def accept (token : Token) : Parser Bool := do
  if (← peek) = some token then
    skip
    return true
  else return false

/-- Takes a mark that must be next. -/
def expect (m : String) : Parser Unit := do
  if !(← accept (.mark m)) then
    if (← peek) = none then throw .earlyEnd else throw (.unexpected ("'" ++ m ++ "'"))

/-- Takes a name that must be next. -/
def expectName : Parser String := do
  match ← next with
  | .name s => return s
  | _ => throw (.unexpected "a name")

/-- One level deeper. -/
def deeper (place : Place) : Parser Place :=
  if place.limit ≠ 0 ∧ place.level ≥ place.limit then throw .tooDeep
  else return { place with level := place.level + 1, isOutermost := false }

/-- Adds a variable to the scope. -/
def declare (name : String) (isConstant : Bool) : Parser Unit :=
  modify fun p => { p with scope := (name, isConstant) :: p.scope }

/-- A rule whose variables are forgotten afterwards. -/
def enclosed (rule : Parser α) : Parser α := do
  let before := (← get).scope
  let result ← rule
  modify fun p => { p with scope := before }
  return result

/-- Repeats a rule while it yields something, at most as often as there is fuel. -/
def collect (rule : Parser (Option α)) : Nat → Parser (List α)
  | 0 => return []
  | fuel + 1 => do
    match ← rule with
    | some item => return item :: (← collect rule fuel)
    | none => return []

/-- Repeats a rule as long as it can take tokens. -/
def collectAll (rule : Parser (Option α)) : Parser (List α) := do
  collect rule ((← get).tokens.length + 1)

end Parser

end ProcessDisplay.Script
