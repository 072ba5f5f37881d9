import ProcessDisplay.Time.Instant
import ProcessDisplay.Trace.Ring
import ProcessDisplay.Value.Basic

/-!
# Trace buffers

A trace collects points for a chart. New values of its two coordinates are
staged, and a commit adds one point if the update mode allows it. The
horizontal coordinate is the value of a variable or is made up by the trace.
An array on the vertical coordinate stands for the whole trace until the
next scalar. A history may precede the points; whoever replaces or drops it
gets it back in order to disconnect it.
-/

namespace ProcessDisplay.Trace

/-- Which changes of the coordinates commit a point. -/
inductive UpdateMode where
  /-- A change of either coordinate. -/
  | either
  /-- Changes of both coordinates since the last point. -/
  | both
  /-- A change of the horizontal coordinate. -/
  | horizontal
  /-- A change of the vertical coordinate. -/
  | vertical
  deriving DecidableEq, Repr

/-- Where the horizontal coordinate comes from. -/
inductive HorizontalSource where
  /-- The value of a variable. -/
  | variable
  /-- The time of the vertical value, in seconds since the Unix epoch. -/
  | sampleTime
  /-- The time of the commit, in seconds since the Unix epoch. -/
  | wallClock
  /-- One more than for the last point, from zero on. -/
  | sequence
  deriving DecidableEq, Repr

/-- Whether the horizontal coordinate is made up by the trace. -/
def HorizontalSource.isSynthesized (source : HorizontalSource) : Bool := source ≠ .variable

/-- The number of points that a trace keeps if nothing else is said. -/
def defaultCapacity : Nat := 1000

/-- The settings of a trace. -/
structure Settings where
  /-- The number of points that are kept. -/
  capacity : Nat := defaultCapacity
  /-- Which changes commit a point. -/
  mode : UpdateMode := .either
  /-- Where the horizontal coordinate comes from. -/
  horizontal : HorizontalSource := .sequence
  /-- Whether snapshots are sorted by the horizontal coordinate. -/
  sorted : Bool := false
  deriving DecidableEq, Repr

/-- A point of a chart. -/
structure Point where
  /-- The horizontal coordinate. -/
  x : Float
  /-- The vertical coordinate. -/
  y : Float
  deriving DecidableEq

/-- A point of a history; its position stands for a missing coordinate. -/
structure PastPoint where
  /-- The horizontal coordinate. -/
  x : Option Float
  /-- The vertical coordinate. -/
  y : Float
  deriving DecidableEq

/-- A source of points from before the trace. -/
structure History where
  /-- What tells this source from others. -/
  id : Nat
  /-- Its points. -/
  points : List PastPoint
  deriving DecidableEq

/-- A trace with its staged values. -/
structure Buffer where
  /-- The settings. -/
  settings : Settings
  /-- The committed points. -/
  ring : Ring Point
  /-- The last staged horizontal value. -/
  x : Option Float := none
  /-- The last staged vertical value. -/
  y : Option Float := none
  /-- Whether a horizontal value was staged since the last point. -/
  xFresh : Bool := false
  /-- Whether a vertical value was staged since the last point. -/
  yFresh : Bool := false
  /-- The time of the last staged vertical value. -/
  sampleTime : Option Time.Instant := none
  /-- The horizontal coordinate of the last point. -/
  lastX : Option Float := none
  /-- An array that stands for the horizontal coordinates. -/
  xArray : Option (List Float) := none
  /-- An array that stands for the whole trace. -/
  yArray : Option (List Float) := none
  /-- The points from before the trace. -/
  history : Option History := none

namespace Buffer

/-- A trace without points. -/
def empty (settings : Settings) : Buffer := { settings, ring := Ring.empty settings.capacity }

/-- The number of points that are kept. -/
def capacity (b : Buffer) : Nat := b.ring.capacity

/-- The number of points that are shown. -/
def size (b : Buffer) : Nat :=
  match b.yArray with
  | some ys => ys.length
  | none => b.ring.size

/-- Whether no points are shown. -/
def isEmpty (b : Buffer) : Bool := b.size = 0

/-- Whether the next point replaces one. -/
def isFull (b : Buffer) : Bool := b.ring.isFull

/-- As many elements as the trace keeps points. -/
def capped (b : Buffer) (xs : List Float) : List Float := xs.take b.capacity

/-- Stages a horizontal value. -/
def stageX (b : Buffer) (value : Value) : Buffer :=
  match value with
  | .array xs => { b with xArray := some (b.capped xs) }
  | scalar => { b with xArray := none, x := some scalar.toNumber, xFresh := true }

/-- Stages a vertical value. -/
def stageY (b : Buffer) (value : Value) (time : Time.Instant) : Buffer :=
  match value with
  | .array ys => { b with yArray := some (b.capped ys) }
  | scalar =>
    { b with
      xArray := none, yArray := none, y := some scalar.toNumber, yFresh := true,
      sampleTime := some time }

/-- Whether the staged values may become a point. -/
def gateOpen (b : Buffer) : Bool :=
  if b.settings.horizontal.isSynthesized then b.yFresh
  else
    match b.settings.mode with
    | .either => b.xFresh || b.yFresh
    | .both => b.xFresh && b.yFresh
    | .horizontal => b.xFresh
    | .vertical => b.yFresh

/-- The horizontal coordinate of the next point. -/
def nextX (b : Buffer) (wall : Time.Instant) : Option Float :=
  match b.settings.horizontal with
  | .variable => b.x
  | .sampleTime => b.sampleTime.map Time.seconds
  | .wallClock => some (Time.seconds wall)
  | .sequence =>
    some (match b.lastX with
      | some x => x + 1.0
      | none => 0.0)

/-- The point that a commit would add. -/
def nextPoint (b : Buffer) (wall : Time.Instant) : Option Point :=
  if b.gateOpen then
    match b.nextX wall, b.y with
    | some x, some y => some ⟨x, y⟩
    | _, _ => none
  else none

/-- Adds the point of the staged values if the update mode allows it, at an
instant of the wall clock. -/
def commit (b : Buffer) (wall : Time.Instant) : Buffer × Bool :=
  match b.nextPoint wall with
  | some p =>
    ({ b with
      ring := (b.ring.push p).2
      lastX := some p.x
      xFresh := false
      yFresh := false }, true)
  | none => (b, false)

/-- Stages a horizontal value and commits: whether a point was added. -/
def updateX (b : Buffer) (value : Value) (wall : Time.Instant) : Buffer × Bool :=
  (b.stageX value).commit wall

/-- Stages a vertical value and commits: whether a point was added or the
whole trace was replaced. -/
def updateY (b : Buffer) (value : Value) (time wall : Time.Instant) : Buffer × Bool :=
  let (after, added) := (b.stageY value time).commit wall
  (after, added || value.isArray)

/-- The points of an array; a missing horizontal coordinate is the position. -/
def arrayPoints (xs : List Float) : Nat → List Float → List Point
  | _, [] => []
  | i, y :: rest => ⟨(xs[i]?).getD (Float.ofNat i), y⟩ :: arrayPoints xs (i + 1) rest

/-- The points that are shown, without the history. -/
def points (b : Buffer) : List Point :=
  match b.yArray with
  | some ys => arrayPoints (b.xArray.getD []) 0 ys
  | none => b.ring.toList

/-- The points of a history; a missing horizontal coordinate is the position. -/
def pastPoints : Nat → List PastPoint → List Point
  | _, [] => []
  | i, p :: rest => ⟨p.x.getD (Float.ofNat i), p.y⟩ :: pastPoints (i + 1) rest

/-- The points of the history. -/
def historyPoints (b : Buffer) : List Point :=
  match b.history with
  | some h => pastPoints 0 h.points
  | none => []

/-- The history followed by the points, sorted if the settings say so.
Without a history the committed points are sorted where they are. -/
def snapshot (b : Buffer) : List Point :=
  let past := b.historyPoints
  if b.settings.sorted && b.yArray.isNone && past.isEmpty then b.ring.sortedBy Point.x
  else
    let all := past ++ b.points
    if b.settings.sorted then sortedBy Point.x all else all

/-- The trace with another history, and the histories to be disconnected. -/
def attach (b : Buffer) (history : History) : Buffer × List History :=
  ({ b with history := some history }, b.history.toList)

/-- The trace without a history, and the histories to be disconnected. -/
def detach (b : Buffer) : Buffer × List History :=
  ({ b with history := none }, b.history.toList)

/-- The histories to be disconnected when the trace is dropped. -/
def release (b : Buffer) : List History := b.history.toList

/-- The trace without points and staged values; the history stays. -/
def clear (b : Buffer) : Buffer :=
  { settings := b.settings, ring := b.ring.clear, history := b.history }

end Buffer

end ProcessDisplay.Trace
