import ProcessDisplay.CommandLine
import ProcessDisplay.Document.Standard
import ProcessDisplay.Script.Standard
import Std.Time.DateTime.Timestamp

/-!
# The program

The outer layer: it reads the files, asks for the time, runs the command
line and prints its lines.
-/

namespace ProcessDisplay.Program

/-- The text of a file, or why it cannot be read. -/
def readText (path : String) : IO Document.FileText := do
  match ← (IO.FS.readFile path).toBaseIO with
  | .ok text => return .ok text
  | .error reason => return .error (toString reason)

/-- The directory of settings of the user, if there is one. -/
def settingsDirectory : IO (Option String) := do
  match ← IO.getEnv "XDG_CONFIG_HOME" with
  | some directory => if directory.startsWith "/" then return some directory
  | none => pure ()
  return (← IO.getEnv "HOME").map (· ++ "/.config")

/-- The present instant. -/
def presentInstant : IO Time.Instant := do
  return (← Std.Time.Timestamp.now).toNanosecondsSinceUnixEpoch.toInt

/-- Runs the program with arguments; the answer is its exit code. -/
def run (arguments : List String) : IO UInt32 := do
  let settingsPath := (← settingsDirectory).map (· ++ "/pvengine-rs/engine.toml")
  let settings ← settingsPath.mapM readText
  let display ← match arguments with
    | path :: _ => readText path
    | [] => pure (.error "")
  let ending := CommandLine.run arguments
    { language := .standard, nesting := 1000, codecs := .standard,
      settingsPath := settingsPath.getD "", settings, display, now := ← presentInstant }
  match ending with
  | .printed lines => lines.forM IO.println
  | .failed error causes => (CommandLine.errorLines error causes).forM IO.eprintln
  | .crashed => IO.eprintln "the display crashed"
  return UInt32.ofNat ending.code

end ProcessDisplay.Program

/-- Runs the program. -/
def main (arguments : List String) : IO UInt32 := ProcessDisplay.Program.run arguments
