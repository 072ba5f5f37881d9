import ProcessDisplay.Document.Decoder
import ProcessDisplay.Engine.Settings

/-!
# Settings in documents

Settings are read from either format and written in one. Every field has a
default. How texts in a format are read and written is a parameter.
-/

namespace ProcessDisplay.Document

open Engine (Settings)

/-- The bound of natural numbers in documents, 2⁶⁴. -/
def naturalBound : Nat := 18446744073709551616

/-- A natural number of a document. -/
def natural : Decoder Nat := Node.toNatural naturalBound

/-- The limits of scripts. -/
def decodeLimits (format : Format) : Decoder Script.Limits := fun node => do
  let defaults : Script.Limits := {}
  let es ← node.toRecord format
    ["max_operations", "max_call_levels", "max_expr_depth", "max_string_size", "max_array_size"]
  return {
    operations := ← optional es "max_operations" defaults.operations natural
    callLevels := ← optional es "max_call_levels" defaults.callLevels natural
    depth := ← optional es "max_expr_depth" defaults.depth natural
    textSize := ← optional es "max_string_size" defaults.textSize natural
    items := ← optional es "max_array_size" defaults.items natural }

/-- The settings of an engine. -/
def decodeSettings (format : Format) : Decoder Settings := fun node => do
  let defaults : Settings := {}
  let es ← node.toRecord format
    ["script_limits", "default_trace_capacity", "rng_seed", "clock_format", "clock_interval_secs"]
  let seed ← optional es "rng_seed" none (Node.toOption natural)
  return {
    limits := ← optional es "script_limits" defaults.limits (decodeLimits format)
    traceCapacity := ← optional es "default_trace_capacity" defaults.traceCapacity natural
    seed := seed.map UInt64.ofNat
    clockPattern := ← optional es "clock_format" defaults.clockPattern Node.toText
    clockSeconds := ← optional es "clock_interval_secs" defaults.clockSeconds Node.toNumber }

/-- The reading of texts in either format, and the writing of settings in
TOML. -/
structure Codecs where
  /-- The node that a text spells, or why there is none. -/
  read : Reader
  /-- The text of settings, or why there is none. -/
  write : Settings → Except String String

/-- The settings in a file. -/
def loadSettings (K : Codecs) (path : String) (file : FileText) : Except Failure Settings :=
  load K.read path file decodeSettings

/-- The settings in a file that may be missing or unfit: the defaults stand
in for them. -/
def settingsOrDefault (K : Codecs) (path : String) (file : Option FileText) : Settings :=
  match file.map (loadSettings K path) with
  | some (.ok settings) => settings
  | _ => {}

/-- What a system answers when a file is saved. -/
structure SaveAnswers where
  /-- Whether the directory of the file is there afterwards, or why not. -/
  directory : Except String Unit
  /-- Whether the file is written, or why not. -/
  file : Except String Unit

/-- The text of a file of settings that was saved. -/
def savedSettings (K : Codecs) (path : String) (s : Settings) (answers : SaveAnswers) :
    Except Failure String := do
  if let .error reason := answers.directory then throw (.config (.noDirectory reason))
  match K.write s with
  | .error reason => throw (.serialization ("Failed to serialize config: " ++ reason))
  | .ok text =>
    match answers.file with
    | .ok _ => return text
    | .error reason => throw (.config (.unwritable path reason))

end ProcessDisplay.Document
