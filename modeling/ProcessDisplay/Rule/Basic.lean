import ProcessDisplay.Declaration
import ProcessDisplay.Rule.Accessor
import ProcessDisplay.Script.Expression
import ProcessDisplay.Value.Literal
import ProcessDisplay.Variable
import ProcessDisplay.Widget

/-!
# Rules

A rule is a chain of conditions, all evaluated with the same variables in
scope. The first one that holds selects its output; without one the property
returns to its default. Nothing after the selected output is evaluated, and
a failure leaves the widget as it was. The evaluation of expressions is a
parameter of the chain.
-/

namespace ProcessDisplay

namespace Rule

/-- The output of a branch. -/
inductive Action (ε : Type) where
  /-- A value. -/
  | literal (value : Value)
  /-- The result of an expression. -/
  | expression (e : ε)

/-- A condition with the output that it selects. -/
structure Branch (ε : Type) where
  /-- The condition. -/
  condition : ε
  /-- The output. -/
  action : Action ε

/-- An evaluation of expressions in a scope: the value of the result, if it
has one, and the scope afterwards. -/
abbrev Evaluation (ε ς : Type) := ς → ε → Outcome (Except Script.Fault (Option Value)) × ς

/-- The result of an expression of a rule, or its failure. -/
def resultOf (rule : String) (result : Outcome (Except Script.Fault (Option Value))) :
    Outcome (Except Failure (Option Value)) := do
  match ← result with
  | .ok value => return .ok value
  | .error fault => return .error (.within ("rule '" ++ rule ++ "'") (.script (.stopped fault)))

/-- Whether the result of a condition counts as true. -/
def isHit (value : Option Value) : Bool :=
  match value with
  | some v => v.toBool
  | none => false

/-- The value of an output. -/
def Action.value (evaluation : Evaluation ε ς) (rule : String) (scope : ς) :
    Action ε → Outcome (Except Failure Value)
  | .literal value => .done (.ok value)
  | .expression e => do
    match ← resultOf rule (evaluation scope e).1 with
    | .ok (some value) => return .ok value
    | .ok none => return .error (.rule (.noOutput rule))
    | .error failure => return .error failure

/-- The output of the first branch whose condition holds. -/
def select (evaluation : Evaluation ε ς) (rule : String) :
    ς → List (Branch ε) → Outcome (Except Failure (Option Value))
  | _, [] => .done (.ok none)
  | scope, branch :: rest => do
    let (result, scope) := evaluation scope branch.condition
    match ← resultOf rule result with
    | .error failure => return .error failure
    | .ok value =>
      if isHit value then
        match ← branch.action.value evaluation rule scope with
        | .ok output => return .ok (some output)
        | .error failure => return .error failure
      else select evaluation rule scope rest

end Rule

open Rule in
/-- A compiled rule over expressions of a kind. -/
structure Rule (ε : Type) where
  /-- The name, which appears in failures. -/
  name : String
  /-- The property that the rule drives. -/
  property : String
  /-- The kind of the property. -/
  kind : PropertyKind
  /-- The views that are bound. -/
  accessors : Accessors
  /-- The number of declared inputs. -/
  inputCount : Nat
  /-- The branches in order. -/
  branches : List (Branch ε)

namespace Rule

/-- The views of all expressions of a declaration. -/
def scanAll (d : RuleDeclaration) : Accessors :=
  d.outputs.foldl
    (fun a o =>
      let a := a.scan o.condition
      if d.outputsAreExpressions then a.scan o.output else a)
    {}

/-- The expression that a source text of a rule spells. -/
def compileSource (parse : String → Except Script.Problem ε) (rule source : String) :
    Except Failure ε :=
  match parse source with
  | .ok e => .ok e
  | .error problem => .error (.rule (.malformed rule source problem))

/-- The output of a declaration for a property of a kind. -/
def compileOutput (parse : String → Except Script.Problem ε) (d : RuleDeclaration)
    (kind : PropertyKind) (output : String) : Except Failure (Action ε) :=
  if d.outputsAreExpressions then (compileSource parse d.name output).map .expression
  else if kind.takesVerbatim then .ok (.literal (.text output))
  else .ok (.literal (Value.ofLiteral output))

/-- The branch of a declared output. -/
def compileBranch (parse : String → Except Script.Problem ε) (d : RuleDeclaration)
    (kind : PropertyKind) (o : RuleOutput) : Except Failure (Branch ε) := do
  let condition ← compileSource parse d.name o.condition
  return ⟨condition, ← compileOutput parse d kind o.output⟩

/-- Whether every position that occurs is one of a declared input. -/
def checkInputs (d : RuleDeclaration) (accessors : Accessors) : Except Failure Unit :=
  match accessors.greatest with
  | some index =>
    if index ≥ d.inputs.length then
      .error (.rule (.undeclaredInput d.name index d.inputs.length))
    else .ok ()
  | none => .ok ()

/-- The rule of a declaration for a widget. The property must exist, every
reached input must be declared and every expression must be readable. -/
def compile (parse : String → Except Script.Problem ε) (d : RuleDeclaration) (w : Widget) :
    Except Failure (Rule ε) := do
  match w.kind? d.property with
  | none => throw (.missingProperty w.name d.property)
  | some kind =>
    let accessors := scanAll d
    checkInputs d accessors
    let branches ← d.outputs.mapM (compileBranch parse d kind)
    return ⟨d.name, d.property, kind, accessors, d.inputs.length, branches⟩

/-- A view of a snapshot. -/
def View.datum (view : View) (s : Snapshot) : Script.Datum :=
  match view with
  | .numeric => .float s.number
  | .integer => .integer s.integer
  | .text => .text s.text
  | .severity => .integer s.severity.code

/-- All views. -/
def allViews : List View := [.numeric, .integer, .text, .severity]

/-- The accessors of an input that are bound. -/
def inputSlots (a : Accessors) (index : Nat) (s : Snapshot) : List Script.Slot :=
  (allViews.filter a.has).map fun view => ⟨accessorName view index, false, view.datum s⟩

/-- The accessors of the inputs from a position on. -/
def slotsFrom (a : Accessors) : Nat → List Snapshot → List Script.Slot
  | _, [] => []
  | index, s :: rest => inputSlots a index s ++ slotsFrom a (index + 1) rest

/-- The variables in scope for some snapshots. -/
def bind (r : Rule ε) (snapshots : List Snapshot) : List Script.Slot :=
  slotsFrom r.accessors 0 (snapshots.take r.inputCount)

/-- The evaluation of expressions of a language. -/
def expressionEvaluation : Evaluation Script.Expression (List Script.Slot) := fun scope e =>
  let (result, scope) := e.evaluate scope
  (do return (← result).map Script.Datum.value?, scope)

/-- The selected output, or nothing if no condition holds. -/
def evaluate (r : Rule ε) (evaluation : Evaluation ε (List Script.Slot))
    (snapshots : List Snapshot) : Outcome (Except Failure (Option Value)) :=
  select evaluation r.name (r.bind snapshots) r.branches

/-- The value that the property gets: the selected one, or the default. -/
def target (r : Rule ε) (w : Widget) (selected : Option Value) : Except Failure Value :=
  match selected with
  | some value => .ok value
  | none =>
    match w.default? r.property with
    | some value => .ok value
    | none => .error (.missingProperty w.name r.property)

/-- The widget with the selected output or the default of the property. -/
def execute (r : Rule ε) (evaluation : Evaluation ε (List Script.Slot))
    (snapshots : List Snapshot) (w : Widget) : Outcome (Except Failure Widget) := do
  match ← r.evaluate evaluation snapshots with
  | .error failure => return .error failure
  | .ok selected =>
    match r.target w selected with
    | .error failure => return .error failure
    | .ok value => return w.assign r.property value

end Rule

end ProcessDisplay
