import ProcessDisplay.Script.Parser.Basic

/-!
# Expressions

Operands carry their signs and accesses, and operators group by precedence.
The sign before an operand binds tighter than every operator. Literals that
can never be conditions, be indexed or be run over are refused here.
-/

namespace ProcessDisplay.Script

open ProcessDisplay.Script.Parser

/-- How tightly an operator binds; zero for what is no operator. -/
def precedence : Option Token → Nat
  | some (.mark m) =>
    if m = "||" || m = "|" || m = "^" then 30
    else if m = "&&" || m = "&" then 60
    else if m = "==" || m = "!=" then 90
    else if m = "!in" then 110
    else if m = "<" || m = "<=" || m = ">" || m = ">=" then 130
    else if m = "??" then 135
    else if m = ".." || m = "..=" then 140
    else if m = "+" || m = "-" then 150
    else if m = "*" || m = "/" || m = "%" then 180
    else if m = "**" then 190
    else if m = "<<" || m = ">>" then 210
    else 0
  | some (.word "in") => 110
  | _ => 0

/-- Whether operators of the same precedence group from the right. -/
def groupsRight (token : Option Token) : Bool := token = some (.mark "**")

/-- The operators that evaluate both operands, by their marks. -/
def operatorOf? (m : String) : Option Operator :=
  [.add, .subtract, .multiply, .divide, .remainder, .power, .shiftLeft, .shiftRight, .bitAnd,
    .bitOr, .bitXor, .equal, .notEqual, .less, .lessEqual, .greater, .greaterEqual, .range,
    .rangeInclusive].find? fun op => op.symbol = m

/-- The operators that can be joined with an assignment, by their marks. -/
def assignmentOf? (m : String) : Option (Option Operator) :=
  if m = "=" then some none
  else
    ([.add, .subtract, .multiply, .divide, .remainder, .power, .shiftLeft, .shiftRight, .bitAnd,
      .bitOr, .bitXor].find? fun op => op.symbol ++ "=" = m).map some

/-- Refuses a condition that is a literal of another type. -/
def checkCondition : Term → Parser Unit
  | .literal (.bool _) => return
  | .literal _ | .array _ | .map _ | .template _ => throw .notCondition
  | _ => return

/-- Refuses a loop over a literal without elements. -/
def checkIterable : Term → Parser Unit
  | .literal _ | .map _ | .template _ => throw .notIterable
  | _ => return

/-- Refuses an index that can never be right. -/
def checkIndex (base position : Term) : Parser Unit :=
  match position with
  | .literal (.integer _) =>
    match base with
    | .literal (.integer _) | .literal (.text _) => return
    | .literal _ | .map _ | .both _ _ | .either _ _ | .member _ _ _ => throw .badIndex
    | _ => return
  | .literal (.text _) | .template _ =>
    match base with
    | .literal _ | .array _ | .template _ | .both _ _ | .either _ _ | .member _ _ _ =>
      throw .badIndex
    | _ => return
  | .literal _ | .both _ _ | .either _ _ | .member _ _ _ => throw .badIndex
  | _ => return

/-- Refuses an assignment that can never be right. -/
def checkTarget (target : Term) : Parser Unit := do
  match target with
  | .name name =>
    match (← get).scope.find? fun entry => entry.1 = name with
    | some (_, true) => throw (.constantAssigned name)
    | _ => return
  | .chain _ steps =>
    match steps.getLast? with
    | some (.method _ _) => throw .notAssignable
    | _ => return
  | _ => throw .notAssignable

/-- The term of an operator between two operands. -/
def joinOperands (token : Token) (left right : Term) : Parser Term :=
  match token with
  | .word _ => return .member false left right
  | .mark m =>
    if m = "!in" then return .member true left right
    else if m = "&&" then do
      checkCondition left
      checkCondition right
      return .both left right
    else if m = "||" then do
      checkCondition left
      checkCondition right
      return .either left right
    else if m = "??" then return .orElse left right
    else
      match operatorOf? m with
      | some op => return .binary op left right
      | none => throw (.unexpected "an operator")
  | _ => throw (.unexpected "an operator")

/-- Adds an access to a term. -/
def addAccess (base : Term) (step : Access Term) : Term :=
  match base with
  | .chain root steps => .chain root (steps ++ [step])
  | _ => .chain base [step]

/-- Terms separated by commas up to a closing mark; a comma may stand at the end. -/
def separated (goals : Goals) (place : Place) (close : String) : Parser (List Term) :=
  collectAll do
    if ← accept (.mark close) then return none
    else do
      let item ← goals .expression place
      if (← peek) ≠ some (.mark close) then expect ","
      return some item

/-- The arguments of a call, after the opening parenthesis. -/
def arguments (goals : Goals) (place : Place) : Parser (List Term) := separated goals place ")"

/-- The name of an entry of a map. -/
def entryName : Parser String := do
  match ← next with
  | .name s => return s
  | .text s => return s
  | _ => throw (.unexpected "a name")

/-- The entries of a map, after the opening mark. -/
def entries (goals : Goals) (place : Place) : Parser (List (String × Term)) := do
  let found ← collectAll do
    if ← accept (.mark "\x7d") then return none
    else do
      let name ← entryName
      expect ":"
      let value ← goals .expression place
      if (← peek) ≠ some (.mark "\x7d") then expect ","
      return some (name, value)
  match found.find? fun entry => (found.filter fun other => other.1 = entry.1).length > 1 with
  | some (name, _) => throw (.duplicate name)
  | none => return found

/-- One piece of code in a template and the text after it, if there is one. -/
def templateCode (goals : Goals) (place : Place) : Parser (Option (List Term)) := do
  if (← get).tokens.isEmpty then throw .earlyEnd
  else if let some (.templateClose _) := ← peek then return none
  else do
    let code ← goals .code place
    match ← peek with
    | some (.templateNext s) =>
      skip
      return some [code, .literal (.text s)]
    | some (.templateClose _) => return some [code]
    | _ => throw (.unexpected "the end of the code")

/-- The pieces of a template after its first text. -/
def templatePieces (goals : Goals) (place : Place) : Parser (List Term) := do
  let pieces ← collectAll (templateCode goals place)
  match ← next with
  | .templateClose s => return pieces.flatten ++ [.literal (.text s)]
  | _ => throw (.unexpected "the end of the template")

/-- A value that a case of a selection accepts. -/
def caseValue : Parser Datum := do
  match ← next with
  | .integer n => return .integer n
  | .float x => return .float x
  | .character c => return .character c
  | .text s => return .text s
  | .word w =>
    if w = "true" then return .bool true
    else if w = "false" then return .bool false
    else throw (.unexpected "a literal")
  | .mark m =>
    if m = "(" then do
      expect ")"
      return .unit
    else throw (.unexpected "a literal")
  | _ => throw (.unexpected "a literal")

/-- One accepted value or range. -/
def casePattern : Parser Pattern := do
  let first ← caseValue
  match first, ← peek with
  | .integer a, some (.mark m) =>
    if m = ".." || m = "..=" then do
      skip
      match ← caseValue with
      | .integer b => return .within a b (m = "..=")
      | _ => throw (.unexpected "an integer")
    else return .value first
  | _, _ => return .value first

/-- The accepted values of a case, none for all values. -/
def casePatterns : Parser (List Pattern) := do
  if ← accept (.word "_") then return []
  else do
    let first ← casePattern
    let rest ← collectAll do
      if ← accept (.mark "|") then return some (← casePattern) else return none
    return first :: rest

/-- Whether a statement ends without a semicolon. -/
def endsItself : Term → Bool
  | .statement (.conditional _ _ _) | .statement (.select _ _) | .statement (.block _)
  | .statement (.whileLoop _ _) | .statement (.forLoop _ _ _ _)
  | .statement (.guarded _ _ _) => true
  | _ => false

/-- The cases of a selection, after the opening brace. -/
def cases (goals : Goals) (place : Place) : Parser (List (Case Term)) :=
  collectAll do
    if ← accept (.mark "\x7d") then return none
    else do
      let patterns ← casePatterns
      let guard ←
        if patterns.isEmpty then pure none
        else if ← accept (.word "if") then do
          let condition ← goals .expression place
          checkCondition condition
          pure (some condition)
        else pure none
      expect "=>"
      let result ← goals (if place.isExpression then .expression else .statement) place
      let closed := (← peek) = some (.mark "\x7d")
      if patterns.isEmpty && !closed then
        discard (accept (.mark ","))
        if (← peek) ≠ some (.mark "\x7d") then throw (.unexpected "the end of the cases")
      else if !closed then
        if !(← accept (.mark ",")) && !endsItself result then throw (.unexpected "','")
      return some ⟨patterns, guard, result⟩

/-- The most integers of a range that are accepted one by one. -/
def shortRange : Int := 16

/-- A pattern with a short range replaced by its integers, and whether a long
range has been met. After a long range all ranges stay as they are. -/
def spreadPattern (longMet : Bool) : Pattern → List Pattern × Bool
  | .within first last inclusive =>
    let count := last - first + if inclusive then 1 else 0
    if longMet || count ≤ 0 then ([.within first last inclusive], longMet)
    else if count ≤ shortRange then
      ((List.range count.toNat).map fun (i : Nat) =>
        Pattern.value (.integer (first + (i : Int))), false)
    else ([.within first last inclusive], true)
  | p => ([p], longMet)

/-- Patterns with their short ranges replaced. -/
def spreadPatterns (longMet : Bool) : List Pattern → List Pattern × Bool
  | [] => ([], longMet)
  | p :: rest =>
    let (found, longMet) := spreadPattern longMet p
    let (more, longMet) := spreadPatterns longMet rest
    (found ++ more, longMet)

/-- Cases with their short ranges replaced. -/
def spreadCases (longMet : Bool) : List (Case Term) → List (Case Term)
  | [] => []
  | c :: rest =>
    let (patterns, longMet) := spreadPatterns longMet c.patterns
    { c with patterns } :: spreadCases longMet rest

/-- A selection after its first word. -/
def selection (goals : Goals) (place : Place) : Parser Term := do
  let place ← deeper place
  let subject ← goals .expression place
  expect "\x7b"
  return .select subject (spreadCases false (← cases goals place))

/-- A conditional after its first word. -/
def conditional (goals : Goals) (place : Place) : Parser Term := do
  let place ← deeper place
  let condition ← goals .expression place
  checkCondition condition
  let yes ← goals .block place
  if ← accept (.word "else") then
    if ← accept (.word "if") then return .conditional condition yes (← goals .conditional place)
    else return .conditional condition yes (← goals .block place)
  else return .conditional condition yes (.block [])

/-- A loop while a condition holds, after its first word. -/
def whileLoop (goals : Goals) (place : Place) : Parser Term := do
  let place ← deeper place
  let condition ← goals .expression place
  checkCondition condition
  return .whileLoop condition (← goals .block { place with inLoop := true })

/-- A loop without a condition, after its first word. -/
def endlessLoop (goals : Goals) (place : Place) : Parser Term := do
  let place ← deeper place
  return .whileLoop (.literal (.bool true)) (← goals .block { place with inLoop := true })

/-- A loop with its condition at the end, after its first word. -/
def doLoop (goals : Goals) (place : Place) : Parser Term := do
  let place ← deeper place
  let body ← goals .block { place with inLoop := true }
  let whileTrue ←
    match ← next with
    | .word "while" => pure true
    | .word "until" => pure false
    | _ => throw (.unexpected "'while' or 'until'")
  let condition ← goals .expression place
  checkCondition condition
  return .doLoop body whileTrue condition

/-- A loop over elements, after its first word. -/
def forLoop (goals : Goals) (place : Place) : Parser Term := do
  let place ← deeper place
  let (name, counter) ←
    if ← accept (.mark "(") then do
      let name ← expectName
      expect ","
      let counter ← expectName
      if counter = name then throw (.duplicate name)
      expect ")"
      pure (name, some counter)
    else pure (← expectName, none)
  if !(← accept (.word "in")) then throw (.unexpected "'in'")
  let source ← goals .expression place
  checkIterable source
  enclosed do
    declare name false
    if let some counter := counter then declare counter false
    return .forLoop name counter source (← goals .block { place with inLoop := true })

/-- The loop that a word begins, where loops are allowed. -/
def loop? (goals : Goals) (place : Place) (w : String) : Option (Parser Term) :=
  if place.isExpression then none
  else if w = "while" then some (whileLoop goals place)
  else if w = "loop" then some (endlessLoop goals place)
  else if w = "do" then some (doLoop goals place)
  else if w = "for" then some (forLoop goals place)
  else none

/-- An operand without signs and accesses. -/
def primary (goals : Goals) (place : Place) : Parser Term := do
  match ← next with
  | .integer n => return .literal (.integer n)
  | .float x => return .literal (.float x)
  | .character c => return .literal (.character c)
  | .text s => return .literal (.text s)
  | .templateOpen s =>
    return .template (.literal (.text s) :: (← templatePieces goals (← deeper place)))
  | .name s =>
    if ← accept (.mark "(") then return .call s (← arguments goals (← deeper place))
    else return .name s
  | .word w =>
    if w = "true" then return .literal (.bool true)
    else if w = "false" then return .literal (.bool false)
    else if w = "if" then conditional goals place
    else if w = "switch" then selection goals place
    else
      match loop? goals place w with
      | some rule => rule
      | none => throw (.unexpected "an expression")
  | .mark m =>
    if m = "(" then do
      if ← accept (.mark ")") then return Term.unit
      else do
        let inner ← goals .expression (← deeper place)
        expect ")"
        return inner
    else if m = "[" then do
      let items ← separated goals (← deeper place) "]"
      if exceeds items.length place.items then throw .literalTooLarge
      return .array items
    else if m = "#\x7b" then do
      let found ← entries goals (← deeper place)
      if exceeds found.length place.items then throw .literalTooLarge
      return .map found
    else if m = "\x7b" ∧ !place.isExpression then do
      modify fun p => { p with tokens := .mark "\x7b" :: p.tokens }
      goals .block place
    else throw (.unexpected "an expression")
  | _ => throw (.unexpected "an expression")

/-- One access after a term. -/
def access? (goals : Goals) (place : Place) (base : Term) : Parser (Option (Access Term)) := do
  if ← accept (.mark "[") then
    let position ← goals .expression (← deeper place)
    checkIndex base position
    expect "]"
    return some (.index position)
  else if ← accept (.mark ".") then
    let name ← expectName
    if ← accept (.mark "(") then return some (.method name (← arguments goals (← deeper place)))
    else return some (.property name)
  else return none

/-- All accesses after a term. -/
def accesses (goals : Goals) (place : Place) : Nat → Term → Parser Term
  | 0, base => return base
  | fuel + 1, base => do
    match ← access? goals place base with
    | some step => accesses goals place fuel (addAccess base step)
    | none => return base

/-- An operand with its signs and accesses. A sign before a literal belongs to the literal. -/
def operand (goals : Goals) (place : Place) : Parser Term := do
  if ← accept (.mark "-") then
    match ← goals .operand (← deeper place) with
    | .literal (.integer n) =>
      if Value.isInteger (-n) then return .literal (.integer (-n))
      else return .literal (.float (-Float.ofInt n))
    | .literal (.float x) => return .literal (.float (-x))
    | inner => return .unary "-" inner
  else if ← accept (.mark "+") then
    match ← goals .operand (← deeper place) with
    | .literal (.integer n) => return .literal (.integer n)
    | .literal (.float x) => return .literal (.float x)
    | inner => return .unary "+" inner
  else if ← accept (.mark "!") then return .unary "!" (← goals .operand (← deeper place))
  else
    let base ← primary goals place
    accesses goals place ((← get).tokens.length + 1) base

/-- The operators after a left operand that bind tighter than a precedence. -/
def operators (goals : Goals) (place : Place) (above : Nat) (left : Term) : Parser Term := do
  let place ← deeper place
  let token ← peek
  let current := precedence token
  if current = 0 || current < above || (current = above && !groupsRight token) then return left
  else
    let token ← next
    let right ← goals .operand place
    let following := precedence (← peek)
    let right ←
      if following > current || (following = current && groupsRight (some token)) then
        goals (.operators current right) place
      else pure right
    goals (.operators above (← joinOperands token left right)) place

/-- An expression. -/
def expression (goals : Goals) (place : Place) : Parser Term := do
  let place ← deeper place
  let left ← goals .operand place
  goals (.operators 1 left) place

end ProcessDisplay.Script
