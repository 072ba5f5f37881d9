import ProcessDisplay.Declaration
import ProcessDisplay.Document.Settings
import ProcessDisplay.Trace.Buffer
import ProcessDisplay.Widget

/-!
# Display documents

A display document says what a display consists of: variables, widgets with
their properties, rules and scripts, traces, and how long it runs. Properties
are sorted by their names.
-/

namespace ProcessDisplay.Document

/-- A property of a widget. -/
structure PropertyDeclaration where
  /-- What the property is for. -/
  kind : PropertyKind := .string
  /-- The value it starts from. -/
  default : Value
  deriving DecidableEq

/-- A widget with its rules and scripts. -/
structure WidgetDeclaration where
  /-- The name. -/
  name : String
  /-- The properties, sorted by their names. -/
  properties : List (String × PropertyDeclaration) := []
  /-- The rules in order. -/
  rules : List RuleDeclaration := []
  /-- The scripts in order. -/
  scripts : List ScriptDeclaration := []
  deriving DecidableEq

/-- A trace. -/
structure TraceDeclaration where
  /-- The name. -/
  name : String
  /-- The name of the variable of the vertical coordinate. -/
  vertical : String
  /-- The name of the variable of the horizontal coordinate. -/
  horizontal : Option String := none
  /-- The number of points, if it is given. -/
  capacity : Option Nat := none
  /-- Which changes commit a point. -/
  mode : Trace.UpdateMode := .either
  /-- Where the horizontal coordinate comes from. -/
  source : Trace.HorizontalSource := .sequence
  /-- Whether snapshots are sorted. -/
  sorted : Bool := false
  deriving DecidableEq

/-- How a display runs. -/
structure RunSettings where
  /-- The number of ticks. -/
  ticks : Nat := 10
  /-- The time between two ticks in milliseconds. -/
  tickMillis : Nat := 1000
  deriving DecidableEq

/-- The time between two ticks. -/
def RunSettings.period (r : RunSettings) : Time.Clock := r.tickMillis * Time.nanosPerMilli

/-- A display. -/
structure Display where
  /-- The names of variables that are created first. -/
  vars : List String := []
  /-- The widgets in order. -/
  widgets : List WidgetDeclaration := []
  /-- The traces in order. -/
  traces : List TraceDeclaration := []
  /-- How the display runs. -/
  run : RunSettings := {}
  deriving DecidableEq

/-- The names of the kinds of properties. -/
def kindNames : List (String × PropertyKind) :=
  [("string", .string), ("number", .number), ("integer", .integer), ("boolean", .boolean),
    ("color", .color), ("font", .font)]

/-- The names of the update modes. -/
def modeNames : List (String × Trace.UpdateMode) :=
  [("x_or_y", .either), ("x_and_y", .both), ("x", .horizontal), ("y", .vertical)]

/-- The names of the sources of the horizontal coordinate. -/
def sourceNames : List (String × Trace.HorizontalSource) :=
  [("pv", .variable), ("sample_time", .sampleTime), ("wall_clock", .wallClock),
    ("sequence", .sequence)]

/-- The name of one of some choices. -/
def nameOf [DecidableEq α] (names : List (String × α)) (a : α) : String :=
  ((names.find? fun entry => entry.2 = a).map Prod.fst).getD ""

/-- An input of a rule or script. -/
def decodeInput (format : Format) : Decoder Input := fun node => do
  let es ← node.toRecord format ["name", "trigger"]
  return {
    name := ← required es "name" Node.toText
    isTrigger := ← optional es "trigger" true Node.toTruth }

/-- A condition with its output. -/
def decodeOutput (format : Format) : Decoder RuleOutput := fun node => do
  let es ← node.toRecord format ["expression", "output_value"]
  return {
    condition := ← required es "expression" Node.toText
    output := ← required es "output_value" Node.toText }

/-- A rule. -/
def decodeRule (format : Format) : Decoder RuleDeclaration := fun node => do
  let es ← node.toRecord format ["name", "property", "outputs", "output_expression", "inputs"]
  return {
    name := ← required es "name" Node.toText
    property := ← required es "property" Node.toText
    outputs := ← optional es "outputs" [] (Node.toList (decodeOutput format))
    outputsAreExpressions := ← optional es "output_expression" false Node.toTruth
    inputs := ← optional es "inputs" [] (Node.toList (decodeInput format)) }

/-- A script. -/
def decodeScript (format : Format) : Decoder ScriptDeclaration := fun node => do
  let es ← node.toRecord format ["name", "body", "inputs"]
  return {
    name := ← required es "name" Node.toText
    body := ← required es "body" Node.toText
    inputs := ← optional es "inputs" [] (Node.toList (decodeInput format)) }

/-- The settings of a trace. -/
def decodeTraceSettings (format : Format) : Decoder Trace.Settings := fun node => do
  let es ← node.toRecord format ["capacity", "mode", "x_source", "sort_by_x"]
  return {
    capacity := ← optional es "capacity" Trace.defaultCapacity natural
    mode := ← optional es "mode" .either (Node.toChoice format modeNames)
    horizontal := ← optional es "x_source" .sequence (Node.toChoice format sourceNames)
    sorted := ← optional es "sort_by_x" false Node.toTruth }

/-- A trace. -/
def decodeTrace (format : Format) : Decoder TraceDeclaration := fun node => do
  let es ← node.toRecord format
    ["name", "y_pv", "x_pv", "capacity", "mode", "x_source", "sort_by_x"]
  return {
    name := ← required es "name" Node.toText
    vertical := ← required es "y_pv" Node.toText
    horizontal := ← optional es "x_pv" none (Node.toOption Node.toText)
    capacity := ← optional es "capacity" none (Node.toOption natural)
    mode := ← optional es "mode" .either (Node.toChoice format modeNames)
    source := ← optional es "x_source" .sequence (Node.toChoice format sourceNames)
    sorted := ← optional es "sort_by_x" false Node.toTruth }

/-- A property. -/
def decodeProperty (format : Format) : Decoder PropertyDeclaration := fun node => do
  let es ← node.toRecord format ["kind", "default"]
  return {
    kind := ← optional es "kind" .string (Node.toChoice format kindNames)
    default := ← required es "default" Node.toValue }

/-- Entries sorted by their keys, with one more entry; it takes the place of
an entry with the same key. -/
def insertByKey (key : String) (a : α) : List (String × α) → List (String × α)
  | [] => [(key, a)]
  | (other, b) :: rest =>
    if key = other then (key, a) :: rest
    else if key < other then (key, a) :: (other, b) :: rest
    else (other, b) :: insertByKey key a rest

/-- Entries sorted by their keys; of a key that is repeated the last entry counts. -/
def sortedByKey (entries : List (String × α)) : List (String × α) :=
  entries.foldl (fun sorted entry => insertByKey entry.1 entry.2 sorted) []

/-- A widget. -/
def decodeWidget (format : Format) : Decoder WidgetDeclaration := fun node => do
  let es ← node.toRecord format ["name", "properties", "rules", "scripts"]
  return {
    name := ← required es "name" Node.toText
    properties := sortedByKey
      (← optional es "properties" [] (Node.toEntries (decodeProperty format)))
    rules := ← optional es "rules" [] (Node.toList (decodeRule format))
    scripts := ← optional es "scripts" [] (Node.toList (decodeScript format)) }

/-- The bound of the number of ticks, 2³². -/
def tickBound : Nat := 4294967296

/-- How a display runs. -/
def decodeRun (format : Format) : Decoder RunSettings := fun node => do
  let defaults : RunSettings := {}
  let es ← node.toRecord format ["ticks", "tick_ms"]
  return {
    ticks := ← optional es "ticks" defaults.ticks (Node.toNatural tickBound)
    tickMillis := ← optional es "tick_ms" defaults.tickMillis natural }

/-- A display. -/
def decodeDisplay (format : Format) : Decoder Display := fun node => do
  let es ← node.toRecord format ["pvs", "widgets", "traces", "run"]
  return {
    vars := ← optional es "pvs" [] (Node.toList Node.toText)
    widgets := ← optional es "widgets" [] (Node.toList (decodeWidget format))
    traces := ← optional es "traces" [] (Node.toList (decodeTrace format))
    run := ← optional es "run" {} (decodeRun format) }

/-- The display in a file. -/
def loadDisplay (K : Codecs) (path : String) (file : FileText) : Except Failure Display :=
  load K.read path file decodeDisplay

/-- The value that a text in JSON spells. -/
def readValue (K : Codecs) (text : String) : Option Value :=
  (K.read .json text >>= Node.toValue).toOption

end ProcessDisplay.Document
