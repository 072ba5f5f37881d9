import ProcessDisplay.Script.Parser.Expression

/-!
# Statements

Statements are separated by semicolons, except after a block. Where only a
single expression is allowed, a block holds exactly one.
-/

namespace ProcessDisplay.Script

open ProcessDisplay.Script.Parser

/-- An expression, or an assignment to it. -/
def assignment (goals : Goals) (place : Place) : Parser Term := do
  let target ← goals .expression place
  match ← peek with
  | some (.mark m) =>
    match assignmentOf? m with
    | some op =>
      skip
      checkTarget target
      return .assign target op (← goals .expression place)
    | none => return target
  | _ => return target

/-- A declaration after its first word. -/
def declaration (goals : Goals) (place : Place) (isConstant : Bool) : Parser Term := do
  let name ← expectName
  let value ← if ← accept (.mark "=") then goals .expression place else pure Term.unit
  declare name isConstant
  return .declare name isConstant value

/-- The value of a jump, which may be left out at the end of a statement. -/
def jumpValue (goals : Goals) (place : Place) : Parser Term := do
  match ← peek with
  | none => return Term.unit
  | some (.mark m) => if m = ";" || m = "\x7d" then return Term.unit else goals .expression place
  | _ => goals .expression place

/-- A protected block after its first word. -/
def protection (goals : Goals) (place : Place) : Parser Term := do
  let body ← goals .block place
  if !(← accept (.word "catch")) then throw (.unexpected "'catch'")
  let name ←
    if ← accept (.mark "(") then do
      let name ← expectName
      expect ")"
      pure (some name)
    else pure none
  enclosed do
    if let some name := name then declare name false
    return .guarded body name (← goals .block place)

/-- A function definition after its first word. -/
def definition (goals : Goals) (place : Place) : Parser Unit := do
  let name ← expectName
  expect "("
  let parameters ←
    if ← accept (.mark ")") then pure []
    else do
      let first ← expectName
      let rest ← collectAll do
        if ← accept (.mark ",") then return some (← expectName) else return none
      expect ")"
      pure (first :: rest)
  match parameters.find? fun p => parameters.count p > 1 with
  | some p => throw (.duplicate p)
  | none =>
    let outer := (← get).scope
    modify fun p => { p with scope := parameters.map fun s => (s, false) }
    let body ← goals .block { place with isOutermost := false, inLoop := false }
    modify fun p => { p with scope := outer }
    let known := (← get).functions
    if known.any fun f => f.name = name && f.parameters.length = parameters.length then
      throw (.duplicate name)
    modify fun p => { p with functions := p.functions ++ [⟨name, parameters, body⟩] }

/-- A statement that begins with a word. -/
def wordStatement (goals : Goals) (place : Place) (w : String) : Option (Parser Term) :=
  if w = "let" then some (declaration goals place false)
  else if w = "const" then some (declaration goals place true)
  else if w = "return" then some do return .giveBack (← jumpValue goals place)
  else if w = "throw" then some do return .throw (← jumpValue goals place)
  else if w = "break" then some do
    if !place.inLoop then throw .outsideLoop
    return .leaveLoop (← jumpValue goals place)
  else if w = "continue" then some do
    if !place.inLoop then throw .outsideLoop
    return .nextRound
  else if w = "try" then some (protection goals place)
  else if w = "if" then some (conditional goals place)
  else if w = "switch" then some (selection goals place)
  else if w = "fn" || w = "private" then some (throw .nestedFunction)
  else loop? goals place w

/-- A statement. -/
def statement (goals : Goals) (place : Place) : Parser Term := do
  match ← peek with
  | some (.word w) =>
    match wordStatement goals place w with
    | some rule =>
      skip
      return .statement (← rule)
    | none => return .statement (← assignment goals place)
  | some (.mark "\x7b") => return .statement (← goals .block place)
  | _ => return .statement (← assignment goals place)

/-- The semicolon after a statement; a statement that ends itself needs none. -/
def separator (last : Term) (closing : Option Token → Bool) : Parser Unit := do
  if closing (← peek) || endsItself last then return
  else expect ";"

/-- Statements up to a closing token, which stays in front. -/
def statements (goals : Goals) (place : Place) (closing : Option Token → Bool) :
    Parser (List Term) := do
  let found ← collectAll do
    if closing (← peek) then return none
    else if ← accept (.mark ";") then return some none
    else do
      let last ← goals .statement place
      separator last closing
      return some (some last)
  return Term.withoutPure (found.filterMap id)

/-- Statements in braces; where only expressions are allowed, a single one. -/
def block (goals : Goals) (place : Place) : Parser Term := do
  expect "\x7b"
  let place ← deeper place
  let body ←
    if place.isExpression then do pure [Term.statement (← assignment goals place)]
    else enclosed (statements goals place fun token => token = some (.mark "\x7d") || token = none)
  expect "\x7d"
  return .block body

/-- Whether a token ends the code of a template. -/
def endsCode : Option Token → Bool
  | some (.templateNext _) | some (.templateClose _) | none => true
  | _ => false

/-- The code of a template. -/
def code (goals : Goals) (place : Place) : Parser Term := do
  let place ← deeper place
  if place.isExpression then return .block [.statement (← assignment goals place)]
  else return .block (← enclosed (statements goals place endsCode))

end ProcessDisplay.Script
