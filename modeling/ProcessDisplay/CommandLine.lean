import ProcessDisplay.Decimal.Reading
import ProcessDisplay.Document.Instance

/-!
# The command line

The program loads a display, runs it for a number of ticks and prints the
variables, the widgets and the traces as the last tick left them. The
language of scripts, the formats of documents and what the system says about
files are parameters, so a run is a function.
-/

namespace ProcessDisplay.CommandLine

open Document Engine

/-- What the program needs from its surroundings. -/
structure Surroundings where
  /-- The language of scripts and expressions. -/
  language : Script.Language
  /-- The nesting of formulas at which the program ends. -/
  nesting : Nat
  /-- The formats of documents. -/
  codecs : Codecs
  /-- The path of the settings. -/
  settingsPath : String
  /-- The text of the settings, if the file exists. -/
  settings : Option FileText
  /-- The text of the display at a path. -/
  display : FileText
  /-- The present instant. -/
  now : Time.Instant

/-- How a run ends. -/
inductive Ending where
  /-- With the lines that are printed. -/
  | printed (lines : List String)
  /-- With an error and its causes, the outermost first. -/
  | failed (error : String) (causes : List String)
  /-- By a crash. -/
  | crashed
  deriving DecidableEq, Repr

/-- How the program is called. -/
def usage : String := "usage: pvengine-rs <display.toml|display.json> [ticks]"

/-- Why a number of ticks is refused. -/
inductive TickFault where
  /-- Nothing is written. -/
  | empty
  /-- Something else than digits is written. -/
  | notDigits
  /-- The number is too large. -/
  | tooLarge
  deriving DecidableEq, Repr

/-- The text of a refusal of a number of ticks. -/
def TickFault.message : TickFault → String
  | empty => "cannot parse integer from empty string"
  | notDigits => "invalid digit found in string"
  | tooLarge => "number too large to fit in target type"

/-- A number of ticks. -/
def readTicks (text : String) : Except TickFault Nat :=
  if text = "" then .error .empty
  else
    match Decimal.natural? text.toList with
    | none => .error .notDigits
    | some n => if n < tickBound then .ok n else .error .tooLarge

/-- A failure with the failures that it contains, the outermost first. -/
def causes : Failure → List String
  | .within context cause => (Failure.within context cause).message :: causes cause
  | failure => [failure.message]

/-- The lines about the variables, sorted by their names. -/
def variableLines (vars : List Variable) : List String :=
  (vars.mergeSort fun a b => a.name ≤ b.name).map fun v =>
    Text.padRight 40 v.name ++ " " ++ Text.padRight 20 v.text ++ " " ++ v.severity.text

/-- The lines about a widget and its properties. -/
def widgetLines (w : Widget) : List String :=
  w.name :: w.values.map fun (property, value) =>
    "  " ++ Text.padRight 38 property ++ " " ++ value.toText none

/-- The line about a trace. -/
def traceLine (name : String) (b : Trace.Buffer) : String :=
  let values := b.snapshot.map fun p => Decimal.plainText p.y
  Text.padRight 40 name ++ " [" ++ Text.joined ", " values ++ "]"

/-- The lines about the traces of a display. -/
def traceLines (traces : List (String × Nat)) (units : List TraceUnit) : List String :=
  traces.filterMap fun (name, position) =>
    units[position]?.map fun unit => traceLine name unit.buffer

/-- All lines about a display. -/
def lines {C : FormulaCompiler} {R : ScriptInterpreter} (traces : List (String × Nat))
    (s : Stage C R) : List String :=
  let state := s.engine.state
  "== PVs ==" :: variableLines state.vars ++
    "== Widgets ==" :: s.panel.flatMap widgetLines ++
    "== Traces ==" :: traceLines traces state.traces

/-- The engine of the program. -/
def Surroundings.engine (s : Surroundings) (settings : Settings) :
    Engine (FormulaCompiler.expressions s.language settings.limits s.nesting)
      (ScriptInterpreter.bundled s.language settings.limits) :=
  Engine.start _ _ settings s.now

/-- A run of a display for a number of ticks. -/
def runDisplay (path : String) (d : Display) (ticks : Nat) (settings : Settings)
    (s : Surroundings) : Ending :=
  match d.start (s.engine settings) with
  | .crash => .crashed
  | .done (.error failure, _) => .failed ("instantiating " ++ path) (causes failure)
  | .done (.ok traces, stage) =>
    match runUnseen d.run s.now ticks 0 stage with
    | .crash => .crashed
    | .done stage => .printed (lines traces stage)

/-- A run with a path and a number of ticks, if one is given. -/
def runPath (path : String) (ticks : Option Nat) (s : Surroundings) : Ending :=
  let settings := settingsOrDefault s.codecs s.settingsPath s.settings
  match loadDisplay s.codecs path s.display with
  | .error failure => .failed ("loading " ++ path) (causes failure)
  | .ok d => runDisplay path d (ticks.getD d.run.ticks) settings s

/-- A run with arguments: a path and at most one number of ticks; further
arguments are ignored. -/
def run (arguments : List String) (s : Surroundings) : Ending :=
  match arguments with
  | [] => .failed usage []
  | [path] => runPath path none s
  | path :: ticks :: _ =>
    match readTicks ticks with
    | .ok n => runPath path (some n) s
    | .error fault => .failed ("invalid tick count '" ++ ticks ++ "'") [fault.message]

/-- The line of a cause; several causes are numbered. -/
def causeLine (severalCauses : Bool) (position : Nat) (cause : String) : String :=
  if severalCauses then Text.padLeft ' ' 5 (toString position) ++ ": " ++ cause
  else "    " ++ cause

/-- The lines about an error and its causes. -/
def errorLines (error : String) (causes : List String) : List String :=
  ("Error: " ++ error) ::
    (if causes.isEmpty then []
    else
      ["", "Caused by:"] ++
        causes.zipIdx.map fun (cause, position) =>
          causeLine (causes.length > 1) position cause)

/-- The exit code of an ending. -/
def Ending.code : Ending → Nat
  | printed _ => 0
  | failed _ _ => 1
  | crashed => 101

end ProcessDisplay.CommandLine
