import ProcessDisplay.Decimal.Layout
import ProcessDisplay.Engine.Settings
import ProcessDisplay.Text.Blank

/-!
# Settings written in TOML

A text is written in single quotes if that spares escapes. A number always
shows a fraction, so that it is read as a number again.
-/

namespace ProcessDisplay.Document

open Engine (Settings)

/-- The bound of natural numbers that TOML can write, 2⁶³. -/
def writtenBound : Nat := 9223372036854775808

/-- The most single quotes in a row. -/
def longestQuotes (cs : List Char) : Nat :=
  (cs.foldl (fun (longest, run) c =>
    if c = '\'' then (max longest (run + 1), run + 1) else (longest, 0)) (0, 0)).1

/-- Whether a character can stand between single quotes. -/
def isLiteral (c : Char) : Bool := c = '\t' || c = '\n' || (32 ≤ c.toNat && c.toNat ≠ 127)

/-- Whether a text is better written without escapes. -/
def prefersLiteral (cs : List Char) : Bool :=
  (cs.contains '"' || cs.contains '\\') && cs.all isLiteral && longestQuotes cs < 3 &&
    cs.getLast? ≠ some '\''

/-- A character between double quotes; line ends stand for themselves if the
text has several lines. -/
def escapedChar (severalLines : Bool) (c : Char) : String :=
  if c = '\x08' then "\\b"
  else if c = '\t' then "\\t"
  else if c = '\n' then if severalLines then "\n" else "\\n"
  else if c = '\x0c' then "\\f"
  else if c = '\r' then "\\r"
  else if c = '"' then "\\\""
  else if c = '\\' then "\\\\"
  else if c.toNat < 32 || c.toNat = 127 then
    "\\u" ++ Text.padLeft '0' 4 (Text.hexText c.toNat).toUpper
  else String.singleton c

/-- A text in TOML. -/
def writtenText (s : String) : String :=
  let cs := s.toList
  let severalLines := cs.contains '\n'
  if prefersLiteral cs then
    if severalLines then "'''\n" ++ s ++ "'''"
    else if cs.contains '\'' then "'''" ++ s ++ "'''"
    else "'" ++ s ++ "'"
  else
    let inner := String.join (cs.map (escapedChar severalLines))
    if severalLines then "\"\"\"\n" ++ inner ++ "\"\"\"" else "\"" ++ inner ++ "\""

/-- A number in TOML. -/
def writtenNumber (x : Float) : String :=
  if x.isNaN then "nan" else String.ofList (Decimal.Layout.pointed.render x)

/-- A line with a field. -/
def fieldLine (name value : String) : String := name ++ " = " ++ value ++ "\n"

/-- A natural number in TOML, if it can be written. -/
def writtenNatural (n : Nat) : Except String String :=
  if n < writtenBound then .ok (toString n) else .error "out-of-range value for u64 type"

/-- The lines of the limits. -/
def writtenLimits (limits : Script.Limits) : Except String String := do
  return fieldLine "max_operations" (← writtenNatural limits.operations) ++
    fieldLine "max_call_levels" (← writtenNatural limits.callLevels) ++
    fieldLine "max_expr_depth" (← writtenNatural limits.depth) ++
    fieldLine "max_string_size" (← writtenNatural limits.textSize) ++
    fieldLine "max_array_size" (← writtenNatural limits.items)

/-- The line of the seed, if there is one. -/
def writtenSeed (seed : Option UInt64) : Except String String :=
  match seed with
  | some n => (writtenNatural n.toNat).map (fieldLine "rng_seed")
  | none => .ok ""

/-- Settings in TOML. -/
def writtenSettings (s : Settings) : Except String String := do
  return fieldLine "default_trace_capacity" (← writtenNatural s.traceCapacity) ++
    (← writtenSeed s.seed) ++
    fieldLine "clock_format" (writtenText s.clockPattern) ++
    fieldLine "clock_interval_secs" (writtenNumber s.clockSeconds) ++
    "\n[script_limits]\n" ++ (← writtenLimits s.limits)

end ProcessDisplay.Document
