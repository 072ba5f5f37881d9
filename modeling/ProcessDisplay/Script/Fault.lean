/-!
# Faults of an evaluation

A fault ends an evaluation with a message. Faults of the limits cannot be
caught by the script; all others can.
-/

namespace ProcessDisplay.Script

/-- Failures of integer arithmetic. -/
inductive ArithmeticFault where
  /-- A sum out of range. -/
  | addition
  /-- A difference out of range. -/
  | subtraction
  /-- A product out of range. -/
  | multiplication
  /-- A quotient out of range. -/
  | division
  /-- A quotient by zero. -/
  | divisionByZero
  /-- A remainder by zero or out of range. -/
  | modulo
  /-- A power out of range. -/
  | exponential
  /-- A power with a negative exponent. -/
  | negativePower
  /-- The negative of the least integer. -/
  | negation
  deriving DecidableEq, Repr

/-- The text of a failure of integer arithmetic. -/
def ArithmeticFault.message : ArithmeticFault → String
  | addition => "Addition overflow"
  | subtraction => "Subtraction overflow"
  | multiplication => "Multiplication overflow"
  | division => "Division overflow"
  | divisionByZero => "Division by zero"
  | modulo => "Modulo division by zero or overflow"
  | exponential => "Exponential overflow"
  | negativePower => "Integer raised to a negative power"
  | negation => "Negation overflow"

/-- Why an evaluation ends without a value. -/
inductive Fault where
  /-- A thrown value with its text. -/
  | thrown (text : String)
  /-- A variable that does not exist. -/
  | unknownVariable (name : String)
  /-- A function that does not exist for the given types. -/
  | unknownFunction (name : String)
  /-- A property of a value without properties. -/
  | unknownProperty (name typeName : String)
  /-- A failure of integer arithmetic. -/
  | arithmetic (fault : ArithmeticFault)
  /-- An index beyond the end of a row. -/
  | outOfBounds (row : String) (index : Int)
  /-- An index into a value without elements. -/
  | notIndexed
  /-- A value of the wrong type. -/
  | wrongType
  /-- A loop over a value without elements. -/
  | notIterable
  /-- An assignment to a constant. -/
  | constantAssigned
  /-- More operations than allowed. -/
  | tooManyOperations
  /-- Calls nested deeper than allowed. -/
  | callsTooDeep
  /-- A text longer than allowed. -/
  | textTooLong
  /-- An array with more elements than allowed. -/
  | arrayTooLarge
  /-- A map with more entries than allowed. -/
  | mapTooLarge
  /-- A fault of another kind, which says it itself. -/
  | stated (text : String)
  deriving DecidableEq, Repr

/-- The text of a fault. -/
def Fault.message : Fault → String
  | thrown text => if text = "" then "Runtime error" else "Runtime error: " ++ text
  | unknownVariable name => "Variable not found: " ++ name
  | unknownFunction name => "Function not found: " ++ name
  | unknownProperty name typeName =>
    "Unknown property '" ++ name ++ "' - a getter is not registered for type '" ++ typeName ++ "'"
  | arithmetic fault => fault.message
  | outOfBounds row index => row ++ " index " ++ toString index ++ " out of bounds"
  | notIndexed => "Indexer unavailable"
  | wrongType => "Data type incorrect"
  | notIterable => "For loop expects iterable type"
  | constantAssigned => "Cannot modify constant"
  | tooManyOperations => "Too many operations"
  | callsTooDeep => "Stack overflow"
  | textTooLong => "Length of string too large"
  | arrayTooLarge => "Size of array/BLOB too large"
  | mapTooLarge => "Size of object map too large"
  | stated text => text

/-- Whether a script can catch a fault. -/
def Fault.isCatchable : Fault → Bool
  | tooManyOperations | callsTooDeep | textTooLong | arrayTooLarge | mapTooLarge => false
  | _ => true

end ProcessDisplay.Script
