import ProcessDisplay.Script.Cache
import ProcessDisplay.Script.Host

/-!
# Interpreters of display scripts

The engine knows scripts only through an interpreter, which checks bodies
and runs them in surroundings. It may remember things between runs. The
bundled interpreter of a language remembers compiled bodies and loaded
modules, and it has the record of the run in progress.
-/

namespace ProcessDisplay

open Script in
/-- A language of display scripts, and the expressions that rules of the same
display are made of. -/
structure ScriptInterpreter where
  /-- What is remembered between runs. -/
  Memory : Type
  /-- What is remembered at the start. -/
  initial : Memory
  /-- Whether a body is acceptable. -/
  validate : Memory → String → Except Failure Unit × Memory
  /-- A run of a body: its failure if it stops, and the surroundings afterwards. -/
  run : Memory → String → Context → Outcome ((Except Failure Unit × Context) × Memory)
  /-- The expression of a rule that a source text spells. -/
  expression : Script.Limits → String → Except Script.Problem Script.Expression

namespace Script

/-- What the bundled interpreter remembers: the compiled bodies, the loaded
modules and the record that the functions of the host share. -/
structure Memory (L : Language) where
  /-- The compiled bodies. -/
  cache : Cache L := {}
  /-- The modules that scripts have loaded. -/
  modules : L.Modules := L.unloaded
  /-- The record of the run in progress. -/
  record : RunRecord := {}

variable {L : Language}

namespace Memory

/-- The script of a body, compiled if it has to be, and the memory afterwards. -/
def code (memory : Memory L) (limits : Limits) (body : String) :
    Except Failure (Code L.Modules) × Memory L :=
  let (result, cache) := memory.cache.get limits body
  (result, { memory with cache })

/-- The start of a run, which has a record of its own; the snapshots are in
the record until the run ends. -/
def enter (memory : Memory L) (context : Context) : Memory L × Context :=
  ({ memory with record := .start context }, { context with snapshots := [] })

/-- The evaluation of a script on the record. -/
def evaluate (memory : Memory L) (code : Code L.Modules) :
    Outcome (Except Fault Datum × Memory L) := do
  let ((result, modules), record) ← (code.course memory.modules).run scriptHost memory.record
  return (result, { memory with modules, record })

/-- The end of a run, which takes the record away. -/
def leave (memory : Memory L) (context : Context) : Memory L × Context :=
  ({ memory with record := {} }, context.collect memory.record)

end Memory

/-- Whether a body is a script, and the memory afterwards. -/
def validate (limits : Limits) (memory : Memory L) (body : String) :
    Except Failure Unit × Memory L :=
  let (result, memory) := memory.code limits body
  (result.map fun _ => (), memory)

/-- A run of a script in surroundings, and the memory afterwards. -/
def runCode (memory : Memory L) (code : Code L.Modules) (context : Context) :
    Outcome ((Except Failure Unit × Context) × Memory L) := do
  let (memory, context) := memory.enter context
  let (result, memory) ← memory.evaluate code
  let (memory, context) := memory.leave context
  match result with
  | .ok _ => return ((.ok (), context), memory)
  | .error fault => return ((.error (.script (.stopped fault)), context), memory)

/-- A run of a body in surroundings, and the memory afterwards. -/
def runBody (limits : Limits) (memory : Memory L) (body : String) (context : Context) :
    Outcome ((Except Failure Unit × Context) × Memory L) := do
  let (compiled, memory) := memory.code limits body
  match compiled with
  | .error failure => return ((.error failure, context), memory)
  | .ok code => runCode memory code context

end Script

/-- The bundled interpreter of a language. -/
def ScriptInterpreter.bundled (L : Script.Language) (limits : Script.Limits) :
    ScriptInterpreter where
  Memory := Script.Memory L
  initial := {}
  validate := Script.validate limits
  run := Script.runBody limits
  expression := L.expression

end ProcessDisplay
