import ProcessDisplay.Failure
import ProcessDisplay.Text.Blank

/-!
# Names of process variables

A name says where a variable gets its values from:

- `loc://id` or `loc://id(initializer)` is set by the display,
- `sim://function` or `sim://function(arguments)` is simulated,
- `sys://time` is the clock,
- `=expression` is computed.

The registry key of a name drops the initializer and the blanks around
arguments, so different spellings of one variable share a key. Main
statement of the theory built on it: a key is itself a name with that key.
-/

namespace ProcessDisplay

/-- A parsed name. -/
inductive VariableName where
  /-- A variable of the display, with the literal it starts from. -/
  | localVariable (id : String) (initializer : Option String)
  /-- A simulated variable, with the arguments of its function. -/
  | simulated (function : String) (arguments : Option (List String))
  /-- The clock. -/
  | clock
  /-- A variable computed by an expression. -/
  | formula (expression : String)
  deriving DecidableEq, Repr

/-- The functions that simulate a signal. -/
inductive SignalKind where
  /-- Uniform noise. -/
  | noise
  /-- Normally distributed noise. -/
  | gaussianNoise
  /-- A ramp. -/
  | ramp
  /-- A sine wave. -/
  | sine
  deriving DecidableEq, Repr

/-- The signal that a function name selects. -/
def SignalKind.ofName? (name : String) : Option SignalKind :=
  if name = "noise" then some .noise
  else if name = "gaussianNoise" then some .gaussianNoise
  else if name = "ramp" then some .ramp
  else if name = "sine" then some .sine
  else none

namespace VariableName

/-- What begins the name of a variable of the display. -/
def localScheme : String := "loc://"

/-- What begins the name of a simulated variable. -/
def simulatedScheme : String := "sim://"

/-- The name of the clock. -/
def clockName : String := "sys://time"

/-- The parts of `head(inside)`, or of `head` without any parenthesis. -/
def splitCall (cs : List Char) : Option (List Char × Option (List Char)) :=
  match cs.dropWhile (· ≠ '(') with
  | [] => if cs.contains ')' then none else some (Text.trimmed cs, none)
  | _ :: rest =>
    (Text.beforeLast? ')' rest).map fun inside =>
      (Text.trimmed (cs.takeWhile (· ≠ '(')), some inside)

/-- Arguments separated by commas, without the blanks around them. -/
def splitArguments (cs : List Char) : List String :=
  if Text.isBlankText cs then []
  else (Text.pieces ',' cs).map fun piece => String.ofList (Text.trimmed piece)

/-- The name of a variable of the display after its scheme. -/
def ofLocal? (rest : List Char) : Option VariableName := do
  let (id, inside) ← splitCall rest
  if id.isEmpty then none
  else some (localVariable (String.ofList id) (inside.map String.ofList))

/-- The name of a simulated variable after its scheme. -/
def ofSimulated? (rest : List Char) : Option VariableName := do
  let (function, inside) ← splitCall rest
  if function.isEmpty then none
  else some (simulated (String.ofList function) (inside.map splitArguments))

/-- The name that characters without surrounding blanks spell. -/
def ofTrimmed? (cs : List Char) : Option VariableName :=
  match Text.after? ['='] cs with
  | some expression =>
    if Text.isBlankText expression then none else some (formula (String.ofList expression))
  | none =>
    match Text.after? localScheme.toList cs with
    | some rest => ofLocal? rest
    | none =>
      match Text.after? simulatedScheme.toList cs with
      | some rest => ofSimulated? rest
      | none => if cs = clockName.toList then some clock else none

/-- The name that a text spells; blanks around it are ignored. -/
def parse (raw : String) : Except Failure VariableName :=
  match ofTrimmed? (Text.trimmed raw.toList) with
  | some name => .ok name
  | none => .error (.unsupportedName raw)

/-- The registry key of a name. -/
def key : VariableName → String
  | localVariable id _ => localScheme ++ id
  | simulated function none => simulatedScheme ++ function
  | simulated function (some arguments) =>
    simulatedScheme ++ function ++ "(" ++ Text.joined "," arguments ++ ")"
  | clock => clockName
  | formula expression => "=" ++ expression

end VariableName

end ProcessDisplay
