import ProcessDisplay.Script.Operation
import ProcessDisplay.Text.Case

/-!
# Functions of the language

The functions that the language has without a host. A function is chosen by
its name and the types of its arguments; nothing is converted.
-/

namespace ProcessDisplay.Script.Library

/-- The constants. -/
def constant (name : String) : Option Datum :=
  match name with
  | "PI" => some (.float 3.141592653589793)
  | "E" => some (.float 2.718281828459045)
  | _ => none

/-- Functions of one number. -/
def ofNumber (name : String) (x : Float) : Option Datum :=
  match name with
  | "to_float" => some (.float x)
  | "is_infinite" => some (.bool x.isInf)
  | _ => none

/-- Functions of one integer. -/
def ofInteger (name : String) (n : Int) : Option (Except Fault Datum) :=
  match name with
  | "abs" => some (checked .negation n.natAbs)
  | "to_int" => some (.ok (.integer n))
  | _ => none

/-- Functions of one text. -/
def ofText (name s : String) : Option Datum :=
  match name with
  | "len" => some (.integer s.length)
  | "to_upper" => some (.text (Text.upperCase s))
  | "to_lower" => some (.text (Text.lowerCase s))
  | "is_empty" => some (.bool (s = ""))
  | _ => none

/-- Functions of one array. -/
def ofArray (name : String) (items : List Datum) : Option Datum :=
  match name with
  | "len" => some (.integer items.length)
  | "is_empty" => some (.bool items.isEmpty)
  | _ => none

/-- Functions of one map. -/
def ofMap (name : String) (entries : List (String × Datum)) : Option Datum :=
  match name with
  | "len" => some (.integer entries.length)
  | "is_empty" => some (.bool entries.isEmpty)
  | "keys" => some (.array (entries.map fun entry => .text entry.1))
  | "values" => some (.array (entries.map fun entry => entry.2))
  | _ => none

/-- Functions of one datum. -/
def ofOne (name : String) (d : Datum) : Option (Except Fault Datum) :=
  if name = "to_string" then some (.ok (.text d.toText))
  else
    match d with
    | .float x => (ofNumber name x).map .ok
    | .integer n => ofInteger name n
    | .text s => (ofText name s).map .ok
    | .array items => (ofArray name items).map .ok
    | .map entries => (ofMap name entries).map .ok
    | _ => none

/-- Functions of two integers. -/
def ofIntegers (name : String) (m n : Int) : Option Datum :=
  match name with
  | "min" => some (.integer (min m n))
  | "max" => some (.integer (max m n))
  | _ => none

/-- The smaller or greater of an integer and a number, as a number. -/
def ofMixed (name : String) (x y : Float) : Option Datum :=
  match name with
  | "min" => some (.float (if x ≤ y then x else y))
  | "max" => some (.float (if y ≤ x then x else y))
  | _ => none

/-- Functions of two data. -/
def ofTwo (name : String) (a b : Datum) : Option (Except Fault Datum) :=
  match a, b with
  | .float x, .float y => if name = "log" then some (.ok (.float (x.log / y.log))) else none
  | .integer m, .integer n => (ofIntegers name m n).map .ok
  | .integer m, .float y => (ofMixed name (Float.ofInt m) y).map .ok
  | .float x, .integer n => (ofMixed name x (Float.ofInt n)).map .ok
  | _, _ => if name = "contains" then some ((contains a b).map .bool) else none

/-- A function of the language applied to its arguments, if there is one. -/
def call (name : String) (arguments : List Datum) : Option (Except Fault Datum) :=
  match arguments with
  | [] => (constant name).map .ok
  | [d] => ofOne name d
  | [a, b] => ofTwo name a b
  | _ => none

/-- A function that changes the datum it is applied to: the result and the
changed datum. -/
def change (name : String) (d : Datum) (arguments : List Datum) : Option (Datum × Datum) :=
  match name, d, arguments with
  | "push", .array items, [item] => some (.unit, .array (items ++ [item]))
  | "pop", .array items, [] => some (items.getLastD .unit, .array items.dropLast)
  | "shift", .array items, [] => some (items.headD .unit, .array items.tail)
  | "clear", .array _, [] => some (.unit, .array [])
  | "clear", .map _, [] => some (.unit, .map [])
  | _, _, _ => none

end ProcessDisplay.Script.Library
