import ProcessDisplay.Decimal.Remainder
import ProcessDisplay.Script.Course
import ProcessDisplay.Script.Operation

/-!
# Functions that every display adds to its language

Formulas, rules and scripts share the same functions of numbers. A function
is chosen by its name and the types of its arguments; nothing is converted. A
number clamped between crossed bounds ends the program.
-/

namespace ProcessDisplay.Script.Functions

/-- The ratio of a circle's circumference to its diameter. -/
def pi : Float := 3.141592653589793

/-- The base of the natural logarithm. -/
def euler : Float := 2.718281828459045

/-- The smaller of two numbers; a number wins over NaN. -/
def lesser (x y : Float) : Float :=
  if x.isNaN then y else if y.isNaN then x else if y < x then y else x

/-- The greater of two numbers; a number wins over NaN. -/
def greater (x y : Float) : Float :=
  if x.isNaN then y else if y.isNaN then x else if x < y then y else x

/-- The middle one of a number and two bounds. -/
def clamped (x low high : Float) : Float :=
  if x < low then low else if high < x then high else x

/-- A center if a value is less than half a width away from it, else the value. -/
def deadband (value center width : Float) : Float :=
  if (value - center).abs < width / 2.0 then center else value

/-- A value moved linearly from one range to another. -/
def mapRange (x inLow inHigh outLow outHigh : Float) : Float :=
  (x - inLow) * (outHigh - outLow) / (inHigh - inLow) + outLow

/-- Functions without arguments. -/
def constant (name : String) : Option Datum :=
  match name with
  | "pi" => some (.float pi)
  | "e" => some (.float euler)
  | _ => none

/-- Functions of one number. -/
def ofNumber (name : String) (x : Float) : Option Datum :=
  match name with
  | "abs" => some (.float x.abs)
  | "sqrt" => some (.float x.sqrt)
  | "exp" => some (.float x.exp)
  | "ln" => some (.float x.log)
  | "log" => some (.float x.log)
  | "log10" => some (.float x.log10)
  | "sin" => some (.float x.sin)
  | "cos" => some (.float x.cos)
  | "tan" => some (.float x.tan)
  | "asin" => some (.float x.asin)
  | "acos" => some (.float x.acos)
  | "atan" => some (.float x.atan)
  | "floor" => some (.float x.floor)
  | "ceil" => some (.float x.ceil)
  | "round" => some (.float x.round)
  | "trunc" => some (.float (Decimal.wholePart x))
  | "to_int" => some (.integer (Value.truncated x))
  | "is_nan" => some (.bool x.isNaN)
  | "is_finite" => some (.bool x.isFinite)
  | _ => none

/-- Functions of two numbers. -/
def ofNumbers (name : String) (x y : Float) : Option Datum :=
  match name with
  | "pow" => some (.float (x.pow y))
  | "atan2" => some (.float (x.atan2 y))
  | "min" => some (.float (lesser x y))
  | "max" => some (.float (greater x y))
  | _ => none

/-- Functions of two integers. -/
def ofIntegers (name : String) (m n : Int) : Option Datum :=
  match name with
  | "bit_and" => some (.integer (bits m &&& bits n).toInt)
  | "bit_or" => some (.integer (bits m ||| bits n).toInt)
  | "bit_test" => some (.bool (0 ≤ n && n < 64 && (bits m).getLsbD n.toNat))
  | _ => none

/-- Functions of three numbers; crossed bounds end the program. -/
def ofThree (name : String) (x y z : Float) : Option (Outcome Datum) :=
  match name with
  | "clamp" => some (if y ≤ z then .done (.float (clamped x y z)) else .crash)
  | "deadband" => some (.done (.float (deadband x y z)))
  | "lerp" => some (.done (.float (x + (y - x) * z)))
  | _ => none

/-- A shared function applied to its arguments, if there is one. -/
def call (name : String) (arguments : List Datum) : Option (Outcome Datum) :=
  match arguments with
  | [] => (constant name).map .done
  | [.float x] => (ofNumber name x).map .done
  | [.integer n] => if name = "to_float" then some (.done (.float (Float.ofInt n))) else none
  | [.float x, .float y] => (ofNumbers name x y).map .done
  | [.integer m, .integer n] => (ofIntegers name m n).map .done
  | [.float x, .float y, .float z] => ofThree name x y z
  | [.float x, .float a, .float b, .float c, .float d] =>
    if name = "map_range" then some (.done (.float (mapRange x a b c d))) else none
  | _ => none

end Functions

/-- The shared functions as actions on the state of a host, which they leave
as it is. -/
def sharedAction (name : String) (arguments : List Datum) :
    Option (σ → Outcome (Except String Datum × σ)) :=
  (Functions.call name arguments).map fun result state => do return (.ok (← result), state)

/-- The host of expressions: the shared functions; what is printed goes nowhere. -/
def expressionHost : Host Unit := fun name arguments =>
  (sharedAction name arguments).or
    (if name = "print" && arguments.length ≤ 1 then some fun state => .done (.ok .unit, state)
    else none)

end ProcessDisplay.Script
