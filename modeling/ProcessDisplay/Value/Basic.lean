import ProcessDisplay.Decimal.Layout
import ProcessDisplay.Decimal.Reading

/-!
# Values of process variables

A value is a boolean, a number, a text or an array of numbers. Consumers see
a value only through its views: a number, an integer, a truth value and a
text. Equality of values compares numbers as binary floating point does, so
NaN differs from itself and both zeros are equal.
-/

namespace ProcessDisplay

/-- The value held by a process variable. -/
inductive Value where
  /-- A boolean. -/
  | bool (b : Bool)
  /-- A number; integers are whole numbers. -/
  | number (x : Float)
  /-- A text. -/
  | text (s : String)
  /-- A numeric waveform. -/
  | array (xs : List Float)
  deriving DecidableEq, Inhabited

namespace Value

/-- Comparison of two values, element by element with the equality of numbers. -/
def same : Value → Value → Bool
  | bool a, bool b => a == b
  | number x, number y => x == y
  | text s, text t => s == t
  | array xs, array ys => xs == ys
  | _, _ => false

instance : BEq Value := ⟨same⟩

/-- The value before any assignment. -/
def zero : Value := number 0.0

/-- Not a number. -/
def notNumber : Float := 0.0 / 0.0

/-- The number a text spells, with blanks around it ignored. -/
def numberOfText (s : String) : Float :=
  (Decimal.number? (Text.trimmed s.toList)).getD notNumber

/-- The numeric view: a boolean counts as zero or one, a text as the number
it spells and an array as its first element. -/
def toNumber : Value → Float
  | number x => x
  | bool b => if b then 1.0 else 0.0
  | text s => numberOfText s
  | array xs => xs.head?.getD notNumber

/-- The least 64-bit integer, -2⁶³. -/
def leastInteger : Int := -9223372036854775808

/-- The greatest 64-bit integer, 2⁶³ - 1. -/
def greatestInteger : Int := 9223372036854775807

/-- Whether an integer has 64 bits. -/
def isInteger (n : Int) : Bool := leastInteger ≤ n && n ≤ greatestInteger

/-- The whole part of a number within the 64-bit integers; beyond them the
nearest bound stands in, and NaN counts as zero. -/
def truncated (x : Float) : Int :=
  if x.isNaN then 0
  else if x.isInf then if Decimal.signBit x then leastInteger else greatestInteger
  else
    let magnitude := Decimal.Binary.ofFloat x
    let whole : Nat := (Decimal.Quotient.ofScaled magnitude.mantissa magnitude.exponent).floor
    let signed : Int := if Decimal.signBit x then -whole else whole
    max leastInteger (min greatestInteger signed)

/-- The integer view. -/
def toInteger (v : Value) : Int := truncated v.toNumber

/-- Whether a number counts as true. -/
def isTruthyNumber (x : Float) : Bool := !x.isNaN && x != 0.0

/-- The truth view: the texts that count as false are the empty one, `false` and `0`. -/
def toBool : Value → Bool
  | bool b => b
  | text s => s != "" && s != "false" && s != "0"
  | other => isTruthyNumber other.toNumber

/-- A number as text, with a fixed number of places if one is given. -/
def numberText (places : Option Nat) (x : Float) : String :=
  match places with
  | some places => Decimal.fixedText places x
  | none => Decimal.plainText x

/-- The text view; a number of places applies to numbers and array elements. -/
def toText (places : Option Nat) : Value → String
  | number x => numberText places x
  | bool b => if b then "true" else "false"
  | text s => s
  | array xs => "[" ++ Text.joined ", " (xs.map (numberText places)) ++ "]"

/-- Whether a value is a waveform. -/
def isArray : Value → Bool
  | array _ => true
  | _ => false

/-- An integer as a number. -/
def ofInt (n : Int) : Value := number (Float.ofInt n)

end Value

end ProcessDisplay
