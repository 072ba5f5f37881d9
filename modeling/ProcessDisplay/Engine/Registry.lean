import ProcessDisplay.Engine.Evaluation

/-!
# The registry of variables

A variable is created at the first use of its name and found again under
every spelling of the name. A formula creates its parameters first, so a
creation may create further variables; if any of them is refused, all of
them are removed again. A variable with a custom generator may have any
name.
-/

namespace ProcessDisplay.Engine

variable {C : FormulaCompiler} {R : ScriptInterpreter}

/-- The variable of a name in any spelling. -/
def State.find (s : State C) (name : String) : Option VariableId :=
  match s.lookup name with
  | some id => some id
  | none =>
    match VariableName.parse name with
    | .ok parsed => s.lookup parsed.key
    | .error _ => none

/-- Whether a name is registered or can be created. -/
def State.checkName (s : State C) (name : String) : Except Failure Unit :=
  match s.lookup (Text.trim name) with
  | some _ => .ok ()
  | none => (VariableName.parse name).map fun _ => ()

/-- The sample of an initializer. -/
def initialSample (initializer : String) (now : Time.Instant) : Sample :=
  { value := Value.ofLiteral initializer, time := now }

/-- The state with a new variable of the display, which has the value of its
initializer at once. -/
def State.createLocal (s : State C) (key : String) (initializer : Option String) : State C :=
  let id := s.nextId
  let s := s.insertVariable { name := key, kind := .localVariable initializer }
  match initializer with
  | none => s
  | some text => (s.apply id (initialSample text s.now)).1.markPending id

/-- The state after a declaration with an initializer of a variable that
exists. Only the first initializer counts, and only for a variable without a
value. -/
def State.redeclare (s : State C) (id : VariableId) (initializer : String) : State C :=
  match s.vars[id]? with
  | none => s
  | some v =>
    match v.kind with
    | .localVariable none =>
      let declared := { v with kind := .localVariable (some initializer) }
      if v.isDisconnected then
        let (applied, changed) := declared.apply (initialSample initializer s.now)
        let s := s.setVariable id applied
        if changed then s.markPending id else s
      else s.setVariable id declared
    | _ => s

/-- The state with a new variable that a generator drives. -/
def State.attachGenerator (s : State C) (key : String) (generator : Generator) : State C :=
  let id := s.nextId
  let v : Variable := { name := key, kind := .simulated, limits := generator.source.limits.getD {} }
  let s := s.insertVariable v
  { s with generators := s.generators ++ [⟨id, generator⟩] }

/-- The seed of the generator at a position: seeds are the golden step apart. -/
def slotSeed (seed : UInt64) (position : Nat) : UInt64 :=
  seed + UInt64.ofNat position * Generator.goldenStep

/-- The generator of a simulated variable; one of an unknown function never emits. -/
def generatorOf (function : String) (arguments : Option (List String)) (seed : UInt64) :
    Generator :=
  match SignalKind.ofName? function with
  | some kind => Generator.ofSignal kind (arguments.getD []) seed
  | none => Generator.empty

/-- Adds a variable that a generator drives. -/
def attach (key : String) (generator : Generator) : Action C R VariableId := do
  let id := (← Action.current).state.nextId
  Action.update (·.attachGenerator key generator)
  return id

/-- Creates the variable of a formula; `resolve` finds or creates a parameter. -/
def createFormula (resolve : String → Action C R VariableId) (key expression : String) :
    Action C R VariableId := do
  let context := "formula " ++ key
  let formula ← Action.ofExcept (Failure.inContext context (C.compile expression))
  let before := (← Action.current).state
  Action.ofExcept
    (Failure.inContext context ((C.parameters formula).forM before.checkName))
  let parameters ← (C.parameters formula).mapM resolve
  let state := (← Action.current).state
  let variableId := state.nextId
  Action.update fun s =>
    (s.insertVariable { name := key, kind := .formula }).addFormula
      { variableId, parameters, formula }
  let changed ← Action.ofOutcome (evaluateFormula state.formulas.length)
  if changed then Action.update (·.markPending variableId)
  return variableId

/-- Creates the variable of a name that is not registered. -/
def createNamed (resolve : String → Action C R VariableId) (parsed : VariableName) :
    Action C R VariableId :=
  match parsed with
  | .localVariable _ initializer => do
    let id := (← Action.current).state.nextId
    Action.update (·.createLocal parsed.key initializer)
    return id
  | .simulated function arguments => do
    let e ← Action.current
    attach parsed.key
      (generatorOf function arguments (slotSeed e.seed e.state.generators.length))
  | .clock => do
    let settings := (← Action.current).settings
    attach parsed.key (Generator.clock settings.clockPattern settings.clockSeconds)
  | .formula expression => createFormula resolve parsed.key expression

/-- Finds or creates the variable of a name. Formulas nest at most so deep. -/
def resolve : Nat → String → Action C R VariableId
  | 0, _ => fun _ => .crash
  | depth + 1, name => do
    let state := (← Action.current).state
    match state.lookup (Text.trim name) with
    | some id => return id
    | none =>
      let parsed ← Action.ofExcept (VariableName.parse name)
      match state.lookup parsed.key with
      | some id =>
        match parsed with
        | .localVariable _ (some initializer) => Action.update (·.redeclare id initializer)
        | _ => pure ()
        return id
      | none => createNamed (resolve depth) parsed

/-- Does something as a whole: if it is refused, what was created is removed. -/
def transaction (build : Action C R α) : Action C R α := fun e =>
  match build e with
  | .done (.error failure, after) =>
    .done (.error failure,
      { after with
        state := after.state.rollback e.state.checkpoint
        errors := after.errors.take e.errors.length })
  | other => other

/-- Finds or creates the variable of a name. -/
def create (name : String) : Action C R VariableId :=
  transaction (resolve (C.nesting + 1) name)

/-- Adds a variable with a custom generator, under any name that is free. -/
def registerGenerator (name : String) (generator : Generator) : Action C R VariableId := do
  let name := Text.trim name
  if name = "" then Action.ofExcept (.error (.unsupportedName name))
  else
    match (← Action.current).state.lookup name with
    | some _ => Action.ofExcept (.error (.config (.nameTaken name)))
    | none => attach name generator

/-- Writes a value to a variable of the display; the next tick propagates it. -/
def setValue (name : String) (value : Value) : Action C R Unit := fun e =>
  match e.state.find name with
  | none => .done (.error (.unknownName name), e)
  | some id =>
    match e.state.write id value with
    | .ok state => .done (.ok (), e.withState state)
    | .error failure => .done (.error failure, e)

/-- The variable of a name in any spelling. -/
def variableNamed (e : Engine C R) (name : String) : Option Variable := do
  e.state.vars[← e.state.find name]?

/-- The value of a variable, if it exists and has one. -/
def value? (e : Engine C R) (name : String) : Option Value := do
  (← e.variableNamed name).value

/-- The units that run when a variable changes. -/
def dependents (e : Engine C R) (name : String) : List UnitRef :=
  match e.state.find name with
  | some id => e.state.triggers.dependents id
  | none => []

end ProcessDisplay.Engine
