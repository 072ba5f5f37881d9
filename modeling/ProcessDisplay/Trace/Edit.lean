import ProcessDisplay.Trace.Buffer

/-!
# Edits of traces

All that an application does with a trace, one step at a time. An edit says
whether the points changed and which histories it lets go of.
-/

namespace ProcessDisplay.Trace

/-- A change of a trace. -/
inductive Edit where
  /-- A horizontal value is staged. -/
  | stageX (value : Value)
  /-- A vertical value is staged. -/
  | stageY (value : Value) (time : Time.Instant)
  /-- The staged values become a point if they may. -/
  | commit (wall : Time.Instant)
  /-- A horizontal value is staged and committed. -/
  | updateX (value : Value) (wall : Time.Instant)
  /-- A vertical value is staged and committed. -/
  | updateY (value : Value) (time wall : Time.Instant)
  /-- A history is put before the points. -/
  | attach (history : History)
  /-- The history is taken away. -/
  | detach
  /-- Points and staged values are dropped. -/
  | clear

/-- What an edit did. -/
structure Edited where
  /-- The trace after the edit. -/
  buffer : Buffer
  /-- Whether vertical values or an update changed the points; staging a
  horizontal value, attaching, detaching and clearing do not say. -/
  updated : Option Bool := none
  /-- The histories to be disconnected. -/
  released : List History := []

/-- The effect of an edit. -/
def Buffer.edit (b : Buffer) : Edit → Edited
  | .stageX value => { buffer := b.stageX value }
  | .stageY value time => { buffer := b.stageY value time, updated := some value.isArray }
  | .commit wall => let (b, added) := b.commit wall; { buffer := b, updated := some added }
  | .updateX value wall =>
    let (b, added) := b.updateX value wall
    { buffer := b, updated := some added }
  | .updateY value time wall =>
    let (b, changed) := b.updateY value time wall
    { buffer := b, updated := some changed }
  | .attach history => let (b, released) := b.attach history; { buffer := b, released }
  | .detach => let (b, released) := b.detach; { buffer := b, released }
  | .clear => { buffer := b.clear }

end ProcessDisplay.Trace
