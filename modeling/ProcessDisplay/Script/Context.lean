import ProcessDisplay.Variable
import ProcessDisplay.Widget

/-!
# What a script sees and does

A run of a script sees the snapshots of its inputs and its widget. What it
writes to its inputs and what it says is collected and takes effect after
the run; changes of the widget take effect at once.

The functions of the host have one record of the run in progress between
them. It outlives the run, so a run begins with a record of its own and takes
it away in the end.
-/

namespace ProcessDisplay.Script

/-- Where a message of a script goes. -/
inductive MessageKind where
  /-- To the console. -/
  | console
  /-- To a dialog. -/
  | dialog
  deriving DecidableEq, Repr

/-- A message of a script. -/
structure Message where
  /-- The name of the script. -/
  source : String
  /-- Where it goes. -/
  kind : MessageKind
  /-- What it says. -/
  text : String
  deriving DecidableEq, Repr

/-- The surroundings of one run. -/
structure Context where
  /-- The name of the script. -/
  script : String
  /-- The widget that the script belongs to. -/
  widget : Widget
  /-- The snapshots of the inputs in order. -/
  snapshots : List Snapshot
  /-- The written values with the positions of their inputs, in order. -/
  writes : List (Nat × Value) := []
  /-- The messages in order. -/
  messages : List Message := []

namespace Context

/-- The surroundings after a message. -/
def say (c : Context) (kind : MessageKind) (text : String) : Context :=
  { c with messages := c.messages ++ [⟨c.script, kind, text⟩] }

/-- The surroundings after a write to the input at a position. -/
def write (c : Context) (index : Nat) (value : Value) : Context :=
  { c with writes := c.writes ++ [(index, value)] }

end Context

/-- The record of the run in progress, which the functions of the host share.
Without a run it is that of no script. -/
structure RunRecord where
  /-- The name of the script. -/
  script : String := ""
  /-- The widget, if a script runs. -/
  widget : Option Widget := none
  /-- The snapshots of the inputs in order. -/
  snapshots : List Snapshot := []
  /-- The written values with the positions of their inputs, in order. -/
  writes : List (Nat × Value) := []
  /-- The messages in order. -/
  messages : List Message := []

namespace RunRecord

/-- The record of a run that begins: nothing is written or said. -/
def start (c : Context) : RunRecord :=
  { script := c.script, widget := some c.widget, snapshots := c.snapshots }

/-- The record after a message. -/
def say (r : RunRecord) (kind : MessageKind) (text : String) : RunRecord :=
  { r with messages := r.messages ++ [⟨r.script, kind, text⟩] }

/-- The record after a write to the input at a position. -/
def write (r : RunRecord) (index : Nat) (value : Value) : RunRecord :=
  { r with writes := r.writes ++ [(index, value)] }

end RunRecord

/-- The surroundings after a run: they get the snapshots back, and the writes
and messages of the run come after the earlier ones. -/
def Context.collect (c : Context) (r : RunRecord) : Context :=
  { c with
    widget := r.widget.getD c.widget
    snapshots := r.snapshots
    writes := c.writes ++ r.writes
    messages := c.messages ++ r.messages }

end ProcessDisplay.Script
