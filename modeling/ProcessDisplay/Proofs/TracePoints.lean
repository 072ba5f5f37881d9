import Mathlib.Tactic.Common
import ProcessDisplay.Proofs.RingContents
import ProcessDisplay.Proofs.WholeNumbers
import ProcessDisplay.Trace.Edit

/-!
# Points of observations

A trace that makes up its horizontal coordinates turns every observation of
its vertical coordinate into one point, and nothing else into any. Between
two observations nothing is staged on the vertical coordinate, so no other
change opens the gate; arrays and horizontal values pass by the ring.
-/

namespace ProcessDisplay.Trace

/-- A number that a trace has to show. -/
structure Observation where
  /-- The number. -/
  value : Float
  /-- The time of the value. -/
  time : Time.Instant
  /-- The instant of the wall clock at which it was observed. -/
  wall : Time.Instant

/-- The number that counting from zero reaches in so many steps. -/
def countUp : Nat → Float
  | 0 => 0.0
  | k + 1 => countUp k + 1.0

/-- The horizontal coordinate that is made up for an observation at a
position; without a time to show it is the position. -/
def abscissa (source : HorizontalSource) (position : Nat) (o : Observation) : Float :=
  match source with
  | .sampleTime => Time.seconds o.time
  | .wallClock => Time.seconds o.wall
  | .sequence | .variable => countUp position

/-- The points of observations, one for each. -/
def pointsOf (source : HorizontalSource) (os : List Observation) : List Point :=
  os.mapIdx fun position o => ⟨abscissa source position o, o.value⟩

namespace Buffer

variable {b : Buffer} {os : List Observation}

/-- A trace that has recorded observations and nothing else: its ring holds
the last of their points, and no vertical value is staged. -/
structure Records (b : Buffer) (os : List Observation) : Prop where
  /-- The number of points that are kept. -/
  capacity : b.ring.capacity = max b.settings.capacity 1
  /-- The points that are kept. -/
  ring : b.ring.Holds ((pointsOf b.settings.horizontal os).rtake b.ring.capacity)
  /-- The horizontal coordinate of the last point. -/
  lastX : b.lastX = (pointsOf b.settings.horizontal os).getLast?.map Point.x
  /-- Nothing is staged. -/
  settled : b.yFresh = false

/-- The ring of a trace that has recorded observations. -/
theorem Records.toList_eq (h : b.Records os) :
    b.ring.toList = (pointsOf b.settings.horizontal os).rtake (max b.settings.capacity 1) := by
  rw [h.ring.toList_eq, h.capacity]

/-- A trace with an observation staged on its vertical coordinate. -/
def stage (b : Buffer) (o : Observation) : Buffer :=
  { b with
    xArray := none, yArray := none, y := some o.value, yFresh := true,
    sampleTime := some o.time }

end Buffer

/-- Edits that reach the history of a trace alone. -/
def Edit.isHistorical : Edit → Bool
  | .attach _ | .detach => true
  | _ => false

end ProcessDisplay.Trace
