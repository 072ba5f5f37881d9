import ProcessDisplay.Script.Context
import ProcessDisplay.Script.Exchange
import ProcessDisplay.Script.Functions

/-!
# Functions of display scripts

Scripts read and write their inputs by position, read and write properties
of their widget, and send messages; they also have the shared functions. A call
that cannot be done throws a text and changes nothing.
-/

namespace ProcessDisplay.Script

/-- An action on the record of the run in progress. -/
abbrev Act := RunRecord → Except String Datum × RunRecord

/-- An action that only computes a datum. -/
def Act.pure (d : Datum) : Act := fun r => (.ok d, r)

/-- The snapshot of the input at an integer position. -/
def RunRecord.input (r : RunRecord) (index : Int) : Except String Snapshot :=
  let missing := "PV index " ++ toString index ++ " out of range (" ++
    toString r.snapshots.length ++ " PVs bound)"
  if index < 0 then .error missing
  else
    match r.snapshots[index.toNat]? with
    | some s => .ok s
    | none => .error missing

/-- The widget of the run, if there is a run. -/
def RunRecord.boundWidget (r : RunRecord) : Except String Widget :=
  match r.widget with
  | some widget => .ok widget
  | none => .error "No widget bound to script"

/-- An action that reads a view of an input. -/
def reading (index : Int) (view : Snapshot → Datum) : Act := fun r =>
  ((r.input index).map view, r)

/-- The datum of the value of an input. -/
def valueDatum (s : Snapshot) : Datum :=
  match s.value with
  | some value => Datum.ofValue value
  | none => .unit

/-- An action that writes an input. -/
def writing (index : Int) (d : Datum) : Act := fun r =>
  match r.input index with
  | .error text => (.error text, r)
  | .ok _ =>
    match d.value? with
    | none => (.error ("Cannot write () to PV index " ++ toString index), r)
    | some value => (.ok .unit, r.write index.toNat value)

/-- An action that reads a property of the widget. -/
def gettingProperty (property : String) : Act := fun r =>
  (r.boundWidget.map fun widget =>
    match widget.value? property with
    | some value => Datum.ofValue value
    | none => .unit, r)

/-- An action that writes a property of the widget. -/
def settingProperty (property : String) (d : Datum) : Act := fun r =>
  match r.boundWidget with
  | .error text => (.error text, r)
  | .ok widget =>
    match d.value? with
    | none => (.error ("Cannot assign () to property '" ++ property ++ "'"), r)
    | some value =>
      match widget.assign property value with
      | .ok after => (.ok .unit, { r with widget := some after })
      | .error failure => (.error failure.message, r)

/-- An action that sends a message. -/
def saying (kind : MessageKind) (text : String) : Act := fun r => (.ok .unit, r.say kind text)

/-- Two hexadecimal digits of a color component, which is brought into its range. -/
def componentText (n : Int) : String :=
  Text.padLeft '0' 2 (Text.hexText (max 0 (min 255 n)).toNat)

/-- A color by its components. -/
def colorText (red green blue : Int) : String :=
  "#" ++ componentText red ++ componentText green ++ componentText blue

/-- The views of an input by the names of their functions. -/
def inputView? (name : String) : Option (Snapshot → Datum) :=
  match name with
  | "pv_name" => some fun s => .text s.name
  | "pv_double" => some fun s => .float s.number
  | "pv_long" => some fun s => .integer s.integer
  | "pv_string" => some fun s => .text s.text
  | "pv_severity" => some fun s => .integer s.severity.code
  | "pv_value" => some valueDatum
  | _ => none

/-- Functions of one text. -/
def textAct? (name text : String) : Option Act :=
  match name with
  | "widget_get" => some (gettingProperty text)
  | "console" => some (saying .console text)
  | "alert" => some (saying .dialog text)
  | _ => none

/-- The actions of scripts on the record, by the names of their functions. -/
def scriptAct? (name : String) (arguments : List Datum) : Option Act :=
  match name, arguments with
  | "pv_count", [] => some fun r => (.ok (.integer r.snapshots.length), r)
  | "print", [] => some (saying .console "")
  | "print", [d] => some (saying .console d.toText)
  | name, [.integer index] => (inputView? name).map (reading index)
  | name, [.text text] => textAct? name text
  | "write_pv", [.integer index, d] => some (writing index d)
  | "widget_set", [.text property, d] => some (settingProperty property d)
  | "font", [.text family, .integer size] =>
    some (Act.pure (.text (family ++ " " ++ toString size)))
  | "font", [.text family, .integer size, .text style] =>
    some (Act.pure (.text (family ++ " " ++ style ++ " " ++ toString size)))
  | "color", [.integer red, .integer green, .integer blue] =>
    some (Act.pure (.text (colorText red green blue)))
  | _, _ => none

/-- The host of display scripts: the shared functions and the actions on the
record. -/
def scriptHost : Host RunRecord := fun name arguments =>
  (sharedAction name arguments).or
    ((scriptAct? name arguments).map fun act record => .done (act record))

end ProcessDisplay.Script
