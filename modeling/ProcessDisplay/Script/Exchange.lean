import ProcessDisplay.Script.Datum
import ProcessDisplay.Value.Basic

/-!
# Values and data

A value of a process variable becomes a datum of the script language, and a
result of the language becomes a value again. The missing datum has no
value; a datum without a counterpart becomes its text.
-/

namespace ProcessDisplay

namespace Script.Datum

/-- The datum of a value. -/
def ofValue : Value → Datum
  | .number x => float x
  | .bool b => bool b
  | .text s => text s
  | .array xs => array (xs.map float)

/-- The number that an element of an array becomes. -/
def elementNumber : Datum → Float
  | float x => x
  | integer n => Float.ofInt n
  | bool b => if b then 1.0 else 0.0
  | _ => Value.notNumber

/-- The value of a datum, if it has one. -/
def value? : Datum → Option Value
  | unit => none
  | float x => some (.number x)
  | integer n => some (.number (Float.ofInt n))
  | bool b => some (.bool b)
  | text s => some (.text s)
  | array items => some (.array (items.map elementNumber))
  | other => some (.text other.toText)

end Script.Datum

end ProcessDisplay
