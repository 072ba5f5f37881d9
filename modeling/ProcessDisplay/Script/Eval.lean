import ProcessDisplay.Script.Machine

/-!
# Evaluation

`evaluateWith` says what a term does, given the evaluation of the terms
inside it. The evaluation of all terms follows by recursion on a bound of
the nesting, so nothing here refers to itself. Loops repeat a round; every
round performs at least one operation, and the operations are limited.

A function that is not one of the script is one of the host or, if the host
has none of the name, one of the language.
-/

namespace ProcessDisplay.Script

/-- What stays the same during an evaluation, except for the nesting of calls. -/
structure Environment where
  /-- The limits. -/
  limits : Limits
  /-- The functions of the script. -/
  functions : List Function
  /-- The calls that surround the evaluation. -/
  level : Nat := 0

/-- The evaluation of a term. -/
abbrev Evaluator := Environment → Term → Run Datum

open Run

/-- A datum that the limits allow. -/
def sizedDatum (env : Environment) (result : Except Fault Datum) : Run Datum := do
  lift (checkSize env.limits (← lift result))

/-- The truth value of a condition. -/
def condition (self : Evaluator) (env : Environment) (t : Term) : Run Bool := do
  match ← self env t with
  | .bool b => return b
  | _ => fail .wrongType

/-- The values of terms in order. -/
def values (self : Evaluator) (env : Environment) : List Term → Run (List Datum)
  | [] => return []
  | first :: rest => return (← self env first) :: (← values self env rest)

/-- The joined texts of terms in order. -/
def joinedTexts (self : Evaluator) (env : Environment) : String → List Term → Run String
  | found, [] => return found
  | found, first :: rest => do
    let d ← self env first
    match ← sizedDatum env (.ok (.text (found ++ d.toText))) with
    | .text s => joinedTexts self env s rest
    | _ => return found

/-- The entries of a map in order. -/
def entryValues (self : Evaluator) (env : Environment) :
    List (String × Datum) → List (String × Term) → Run (List (String × Datum))
  | found, [] => return found
  | found, (name, t) :: rest => do
    entryValues self env (Datum.insert name (← self env t) found) rest

/-- The values of statements; the last one counts. -/
def sequence (self : Evaluator) (env : Environment) : List Term → Run Datum
  | [] => return .unit
  | [last] => self env last
  | first :: rest => do
    discard (self env first)
    sequence self env rest

/-- The variables of a call, one for every parameter. -/
def parameterSlots (parameters : List String) (arguments : List Datum) : List Slot :=
  (List.zipWith (fun name d => ⟨name, false, d⟩) parameters arguments).reverse

/-- A call of a function of the script, which sees nothing but its arguments. -/
def callScript (self : Evaluator) (env : Environment) (f : Function)
    (arguments : List Datum) : Run Datum := do
  charge env.limits
  if env.level ≥ env.limits.callLevels then fail .callsTooDeep
  let body := isolated (parameterSlots f.parameters arguments)
    (self { env with level := env.level + 1 } f.body)
  tryCatch body fun signal =>
    match signal with
    | .giveBack d => return d
    | other => throw other

/-- A call of a function of the host or the language. -/
def callNative (env : Environment) (name : String) (arguments : List Datum) : Run Datum := do
  charge env.limits
  match ← ask name arguments with
  | some d => return d
  | none =>
    match Library.call name arguments with
    | some result => lift result
    | none => fail (.unknownFunction name)

/-- A call of a function by its name. -/
def callNamed (self : Evaluator) (env : Environment) (name : String)
    (arguments : List Datum) : Run Datum :=
  match env.functions.find? fun f =>
      f.name = name && f.parameters.length = arguments.length with
  | some f => callScript self env f arguments
  | none => callNative env name arguments

/-- An access with the values of its terms. -/
def accessValue (self : Evaluator) (env : Environment) :
    Access Term → Run (Access Datum)
  | .index position => return .index (← self env position)
  | .property name => return .property name
  | .method name arguments => return .method name (← values self env arguments)

/-- All accesses with the values of their terms, in order. -/
def accessValues (self : Evaluator) (env : Environment) :
    List (Access Term) → Run (List (Access Datum))
  | [] => return []
  | first :: rest => return (← accessValue self env first) :: (← accessValues self env rest)

/-- A function applied to a datum: the result, and the changed datum if it changes. -/
def applyMethod (self : Evaluator) (env : Environment) (d : Datum) (name : String)
    (arguments : List Datum) : Run (Datum × Option Datum) :=
  match Library.change name d arguments with
  | some (result, changed) => do
    charge env.limits
    let changed ← sizedDatum env (.ok changed)
    return (result, some changed)
  | none => return (← callNamed self env name (d :: arguments), none)

/-- The part of a datum that accesses lead to, and the changed datum if it changes. -/
def follow (self : Evaluator) (env : Environment) (d : Datum) :
    List (Access Datum) → Run (Datum × Option Datum)
  | [] => return (d, none)
  | .index position :: rest => do
    let part ← lift (partAt d position)
    let (result, changed) ← follow self env part rest
    match changed with
    | some part => return (result, some (← lift (withPartAt d position part)))
    | none => return (result, none)
  | .property name :: rest => do
    let part ← lift (propertyOf d name)
    let (result, changed) ← follow self env part rest
    match changed with
    | some part => return (result, some (← lift (withProperty d name part)))
    | none => return (result, none)
  | .method name arguments :: rest => do
    let (part, changed) ← applyMethod self env d name arguments
    let (result, _) ← follow self env part rest
    return (result, changed)

/-- A datum whose part at the end of accesses is replaced. -/
def replacePart (self : Evaluator) (env : Environment) (new : Datum → Run Datum)
    (d : Datum) : List (Access Datum) → Run Datum
  | [] => new d
  | .index position :: rest => do
    let part ← lift (partAt d position)
    lift (withPartAt d position (← replacePart self env new part rest))
  | .property name :: rest => do
    let part ← lift (propertyOf d name)
    lift (withProperty d name (← replacePart self env new part rest))
  | .method name arguments :: rest => do
    let (part, changed) ← applyMethod self env d name arguments
    discard (replacePart self env new part rest)
    return changed.getD d

/-- Gives a variable a new value unless it is constant. -/
def store (name : String) (value : Datum) : Run Unit := do
  let s ← slot name
  if s.isConstant then fail .constantAssigned
  assign name value

/-- The value at the end of a chain of accesses. -/
def chainValue (self : Evaluator) (env : Environment) (root : Term)
    (steps : List (Access Term)) : Run Datum := do
  let steps ← accessValues self env steps
  match root with
  | .name name =>
    charge env.limits
    let s ← slot name
    let (result, changed) ← follow self env s.value steps
    if let some changed := changed then store name changed
    return result
  | _ =>
    let d ← self env root
    return (← follow self env d steps).1

/-- The new value of an assignment. -/
def newValue (env : Environment) (op : Option Operator) (value old : Datum) : Run Datum :=
  match op with
  | none => return value
  | some op => sizedDatum env (accumulate op old value)

/-- An assignment. The new value is evaluated before the target. -/
def assignTo (self : Evaluator) (env : Environment) (target : Term) (op : Option Operator)
    (value : Term) : Run Datum := do
  let value ← self env value
  match target with
  | .name name =>
    let s ← slot name
    store name (← newValue env op value s.value)
  | .chain root steps =>
    let steps ← accessValues self env steps
    match root with
    | .name name =>
      let s ← slot name
      let changed ← replacePart self env (newValue env op value) s.value steps
      store name (← sizedDatum env (.ok changed))
    | _ =>
      let d ← self env root
      discard (replacePart self env (newValue env op value) d steps)
  | _ => pure ()
  return .unit

/-- Whether a pattern accepts a datum. -/
def Pattern.accepts (pattern : Pattern) (d : Datum) : Bool :=
  match pattern, d with
  | .value v, d => v.exactly d
  | .within first last inclusive, .integer n =>
    first ≤ n && (n < last || (inclusive && n = last))
  | .within first last inclusive, .float x =>
    Float.ofInt first ≤ x && (x < Float.ofInt last || (inclusive && x == Float.ofInt last))
  | .within _ _ _, _ => false

/-- Whether a pattern is a single value. -/
def Pattern.isValue : Pattern → Bool
  | .value _ => true
  | .within _ _ _ => false

/-- The cases that accept a datum: those with the value itself or, where there
are none, those with a range that holds it, and then those for all values. -/
def candidates (d : Datum) (cases : List (Case Term)) : List (Case Term) :=
  let accepting (single : Bool) (c : Case Term) : Bool :=
    c.patterns.any fun p => p.isValue == single && p.accepts d
  let single := cases.filter (accepting true)
  (if single.isEmpty then cases.filter (accepting false) else single) ++
    cases.filter fun c => c.patterns.isEmpty

/-- The result of the first case whose further condition holds. -/
def firstCase (self : Evaluator) (env : Environment) : List (Case Term) → Run Datum
  | [] => return .unit
  | c :: rest => do
    let holds ← match c.guard with
      | none => pure true
      | some t => condition self env t
    if holds then self env c.result else firstCase self env rest

/-- The body of a loop: whether another round follows. The value of the end
of the loop is kept in the last part of the result. -/
def loopRound (body : Run Bool) : Run Bool :=
  tryCatch body fun signal =>
    match signal with
    | .nextRound => return true
    | other => throw other

/-- A loop with the value of its end. -/
def loopValue (loop : Run Unit) : Run Datum :=
  tryCatch (do loop; return .unit) fun signal =>
    match signal with
    | .leaveLoop d => return d
    | other => throw other

/-- The most rounds of a loop, each of which performs an operation. -/
def mostRounds (limits : Limits) : Nat :=
  if limits.operations = 0 then 4611686018427387904 else limits.operations + 1

/-- One round of a loop while a condition holds. A loop without a condition
performs an operation of its own only if its body performs none. -/
def whileRound (self : Evaluator) (env : Environment) (test body : Term) : Run Bool :=
  loopRound do
    let goesOn ← match test with
      | .literal (.bool true) =>
        if body.isIdle then charge env.limits
        pure true
      | _ => condition self env test
    if goesOn && !body.isIdle then discard (self env body)
    return goesOn

/-- A loop while a condition holds. -/
def whileValue (self : Evaluator) (env : Environment) (test body : Term) : Run Datum :=
  loopValue (repeatWhile (whileRound self env test body) (mostRounds env.limits))

/-- A loop whose condition follows its body. -/
def doValue (self : Evaluator) (env : Environment) (body : Term) (whileTrue : Bool)
    (test : Term) : Run Datum :=
  loopValue (repeatWhile (do
    discard (loopRound do
      discard (self env body)
      return true)
    return (← condition self env test) == whileTrue) (mostRounds env.limits))

/-- A loop over the elements of a datum. -/
def forValue (self : Evaluator) (env : Environment) (name : String)
    (counter : Option String) (source body : Term) : Run Datum := do
  let d ← self env source
  let round (count : Nat) (item : Datum) : Run Bool := loopRound (enclosed do
    if let some counter := counter then declare counter false (.integer count)
    declare name false item
    discard (self env body)
    return true)
  match d with
  | .array items => loopValue (if body.isIdle then pure () else forItems round 0 items)
  | .range first last inclusive =>
    let count := (last - first + if inclusive then 1 else 0).toNat
    loopValue (if body.isIdle then pure () else forIntegers round 0 count first)
  | _ => fail .notIterable

/-- What a handler sees of a fault: its text by the name `message`. -/
def faultDatum (f : Fault) : Datum := .map [("message", .text f.message)]

/-- A term whose faults are caught. A missing value thrown by the handler
stands for the caught fault. -/
def guardedValue (self : Evaluator) (env : Environment) (body : Term) (name : Option String)
    (handler : Term) : Run Datum :=
  let handle (caught : Signal) (d : Datum) : Run Datum :=
    tryCatch (enclosed do
      if let some name := name then declare name false d
      self env handler) fun signal =>
        match signal with
        | .thrown .unit => throw caught
        | other => throw other
  tryCatch (self env body) fun signal =>
    match signal with
    | .thrown d => handle signal d
    | .fault f => if f.isCatchable then handle signal (faultDatum f) else throw signal
    | other => throw other

/-- A call by name; a function that changes its first argument reaches a variable. -/
def callValue (self : Evaluator) (env : Environment) (name : String)
    (arguments : List Term) : Run Datum := do
  match arguments with
  | .name v :: rest =>
    let rest ← values self env rest
    let s ← slot v
    let (result, changed) ← applyMethod self env s.value name rest
    if let some changed := changed then store v changed
    return result
  | _ => callNamed self env name (← values self env arguments)

/-- Whether a term counts as an operation besides the terms inside it. A
statement does if it only evaluates an expression other than a call, or if it
is a block. -/
def counts : Term → Bool
  | .block _ => false
  | .statement body =>
    match body with
    | .literal _ | .name _ | .template _ | .array _ | .map _ | .binary _ _ _ | .member _ _ _
    | .both _ _ | .either _ _ | .orElse _ _ | .unary _ _ | .chain _ _ | .block _ => true
    | _ => false
  | _ => true

/-- What a term does, given the evaluation of the terms inside it. -/
def evaluateWith (self : Evaluator) (env : Environment) (t : Term) : Run Datum := do
  if counts t then charge env.limits
  match t with
  | .literal d => return d
  | .name name => return (← slot name).value
  | .template parts => return .text (← joinedTexts self env "" parts)
  | .array items => sizedDatum env (.ok (.array (← values self env items)))
  | .map found => sizedDatum env (.ok (.map (← entryValues self env [] found)))
  | .binary op left right => do
    let a ← self env left
    let b ← self env right
    sizedDatum env (operate op a b)
  | .member negated item collection => do
    let a ← self env item
    let b ← self env collection
    return .bool ((← lift (contains b a)) != negated)
  | .both left right =>
    if ← condition self env left then return .bool (← condition self env right)
    else return .bool false
  | .either left right =>
    if ← condition self env left then return .bool true
    else return .bool (← condition self env right)
  | .orElse left right => do
    match ← self env left with
    | .unit => self env right
    | d => return d
  | .unary symbol inner => lift (signed symbol (← self env inner))
  | .call name arguments => callValue self env name arguments
  | .chain root steps => chainValue self env root steps
  | .statement body => self env body
  | .block statements => enclosed (sequence self env statements)
  | .conditional test yes no =>
    if ← condition self env test then self env yes else self env no
  | .select subject cases => do
    let d ← self env subject
    firstCase self env (candidates d cases)
  | .declare name isConstant value => do
    declare name isConstant (← self env value)
    return .unit
  | .assign target op value => assignTo self env target op value
  | .whileLoop test body => whileValue self env test body
  | .doLoop body whileTrue test => doValue self env body whileTrue test
  | .forLoop name counter source body => forValue self env name counter source body
  | .leaveLoop value => throw (.leaveLoop (← self env value))
  | .nextRound => throw .nextRound
  | .giveBack value => throw (.giveBack (← self env value))
  | .throw value => throw (.thrown (← self env value))
  | .guarded body name handler => guardedValue self env body name handler

/-- The evaluation of terms up to a bound of the nesting; deeper terms end the program. -/
def evaluate : Nat → Evaluator
  | 0, _, _ => crash
  | fuel + 1, env, t => evaluateWith (evaluate fuel) env t

/-- A bound of the nesting of evaluations: at most four terms nest around
one character of the source, and so again in every nested call. -/
def evaluationDepth (limits : Limits) (size : Nat) : Nat :=
  4 * (size + 4) * (limits.callLevels + 2)

/-- The result of a finished evaluation. -/
def outcome (result : Except Signal Datum) : Except Fault Datum :=
  match result with
  | .ok d => .ok d
  | .error (.fault f) => .error f
  | .error (.thrown d) => .error (.thrown d.toText)
  | .error (.giveBack d) => .ok d
  | .error (.leaveLoop _) | .error .nextRound => .ok .unit

/-- The course of a program with some variables in scope: its result, and the
variables afterwards. -/
def Program.course (program : Program) (limits : Limits) (scope : List Slot) :
    Course (Except Fault Datum × List Slot) := do
  let env : Environment := { limits, functions := program.functions }
  let self := evaluate (evaluationDepth limits program.size)
  let (result, m) ← sequence self env program.statements { scope }
  return (outcome result, m.scope)

end ProcessDisplay.Script
