import ProcessDisplay.Failure
import ProcessDisplay.Script.Language

/-!
# Compiled scripts by their sources

A source is compiled at its first use and found again later. A source that
is refused is not kept.
-/

namespace ProcessDisplay.Script

/-- Compiled scripts by their sources. -/
structure Cache (L : Language) where
  /-- The sources with their scripts, the latest first. -/
  entries : List (String × Code L.Modules) := []

namespace Cache

variable {L : Language}

/-- The script of a source, if it was compiled before. -/
def find? (c : Cache L) (source : String) : Option (Code L.Modules) := c.entries.lookup source

/-- The number of sources. -/
def size (c : Cache L) : Nat := c.entries.length

/-- Whether there are no sources. -/
def isEmpty (c : Cache L) : Bool := c.entries.isEmpty

/-- The script that a source spells. -/
def compile (L : Language) (limits : Limits) (source : String) :
    Except Failure (Code L.Modules) :=
  match L.script limits source with
  | .ok code => .ok code
  | .error problem => .error (.script (.malformed problem))

/-- The script of a source, compiled if it has to be, and the cache afterwards. -/
def get (c : Cache L) (limits : Limits) (source : String) :
    Except Failure (Code L.Modules) × Cache L :=
  match c.find? source with
  | some code => (.ok code, c)
  | none =>
    match compile L limits source with
    | .ok code => (.ok code, ⟨(source, code) :: c.entries⟩)
    | .error failure => (.error failure, c)

end Cache

end ProcessDisplay.Script
