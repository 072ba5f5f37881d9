import ProcessDisplay.Decimal.Remainder
import ProcessDisplay.Script.Fault
import ProcessDisplay.Script.Limits
import ProcessDisplay.Script.Term
import ProcessDisplay.Value.Basic

/-!
# Operators on data

Integers are checked: a result outside of 64 bits is a fault. An integer
beside a number is promoted, and numbers are compared approximately. A text
beside anything joins the texts of both. Data of unrelated types are different
and not ordered.
-/

namespace ProcessDisplay.Script

/-- An integer if it has 64 bits, or the given fault. -/
def checked (fault : ArithmeticFault) (n : Int) : Except Fault Datum :=
  if Value.isInteger n then .ok (.integer n) else .error (.arithmetic fault)

/-- An integer power. Bases of at least two overflow beyond 64 steps. -/
def integerPower (base exponent : Int) : Except Fault Datum :=
  if exponent > 4294967295 then .error (.arithmetic .exponential)
  else if exponent < 0 then .error (.arithmetic .negativePower)
  else if base.natAbs ≤ 1 then
    .ok (.integer (if exponent = 0 || base = 1 then 1 else if base = 0 then 0
      else if exponent % 2 = 0 then 1 else -1))
  else if exponent > 64 then .error (.arithmetic .exponential)
  else checked .exponential (Int.pow base exponent.toNat)

/-- The 64 bits of an integer. -/
def bits (n : Int) : BitVec 64 := BitVec.ofInt 64 n

/-- Bits moved by a number of places, to higher places if it is positive. -/
def shifted (n places : Int) : Int :=
  if places ≥ 0 then
    if places ≥ 64 then 0 else (bits n <<< places.toNat).toInt
  else if places ≤ -64 then if n < 0 then -1 else 0
  else n >>> (-places).toNat

/-- An operator on two integers. -/
def integerOperation (op : Operator) (a b : Int) : Option (Except Fault Datum) :=
  match op with
  | .add => some (checked .addition (a + b))
  | .subtract => some (checked .subtraction (a - b))
  | .multiply => some (checked .multiplication (a * b))
  | .divide =>
    some (if b = 0 then .error (.arithmetic .divisionByZero) else checked .division (a.tdiv b))
  | .remainder =>
    some (if b = 0 || (a = Value.leastInteger && b = -1) then .error (.arithmetic .modulo)
      else .ok (.integer (a.tmod b)))
  | .power => some (integerPower a b)
  | .shiftLeft => some (.ok (.integer (shifted a b)))
  | .shiftRight => some (.ok (.integer (shifted a (-b))))
  | .bitAnd => some (.ok (.integer (bits a &&& bits b).toInt))
  | .bitOr => some (.ok (.integer (bits a ||| bits b).toInt))
  | .bitXor => some (.ok (.integer (bits a ^^^ bits b).toInt))
  | .less => some (.ok (.bool (a < b)))
  | .lessEqual => some (.ok (.bool (a ≤ b)))
  | .greater => some (.ok (.bool (b < a)))
  | .greaterEqual => some (.ok (.bool (b ≤ a)))
  | .range => some (.ok (.range a b false))
  | .rangeInclusive => some (.ok (.range a b true))
  | .equal | .notEqual => none

/-- An operator on two numbers. -/
def floatOperation (op : Operator) (x y : Float) : Option Datum :=
  match op with
  | .add => some (.float (x + y))
  | .subtract => some (.float (x - y))
  | .multiply => some (.float (x * y))
  | .divide => some (.float (x / y))
  | .remainder => some (.float (Decimal.remainder x y))
  | .power => some (.float (x.pow y))
  | .equal => some (.bool (Approximate.equal x y))
  | .notEqual => some (.bool (Approximate.different x y))
  | .less => some (.bool (Approximate.less x y))
  | .lessEqual => some (.bool (Approximate.lessEqual x y))
  | .greater => some (.bool (Approximate.less y x))
  | .greaterEqual => some (.bool (Approximate.lessEqual y x))
  | _ => none

/-- An operator on two truth values. -/
def boolOperation (op : Operator) (a b : Bool) : Option Datum :=
  match op with
  | .bitAnd => some (.bool (a && b))
  | .bitOr => some (.bool (a || b))
  | .bitXor => some (.bool (a != b))
  | .less => some (.bool (!a && b))
  | .lessEqual => some (.bool (!a || b))
  | .greater => some (.bool (a && !b))
  | .greaterEqual => some (.bool (a || !b))
  | _ => none

/-- Characters without the occurrences of a row of characters. -/
def without (part : List Char) : Nat → List Char → List Char
  | 0, cs => cs
  | _ + 1, [] => []
  | fuel + 1, c :: rest =>
    match Text.after? part (c :: rest) with
    | some more => without part fuel more
    | none => c :: without part fuel rest

/-- An operator on two texts. -/
def textOperation (op : Operator) (s t : String) : Option Datum :=
  match op with
  | .add => some (.text (s ++ t))
  | .subtract =>
    some (.text (if t = "" then s else String.ofList (without t.toList (s.length + 1) s.toList)))
  | .less => some (.bool (s < t))
  | .lessEqual => some (.bool (!(t < s)))
  | .greater => some (.bool (t < s))
  | .greaterEqual => some (.bool (!(s < t)))
  | _ => none

/-- An operator on two rows of data. -/
def arrayOperation (op : Operator) (xs ys : List Datum) : Option Datum :=
  match op with
  | .add => some (.array (xs ++ ys))
  | _ => none

/-- An operator on two maps; entries of the second one win. -/
def mapOperation (op : Operator) (xs ys : List (String × Datum)) : Option Datum :=
  match op with
  | .add => some (.map (ys.foldl (fun m entry => Datum.insert entry.1 entry.2 m) xs))
  | _ => none

/-- Whether an operator compares its operands. -/
def Operator.compares : Operator → Bool
  | .equal | .notEqual | .less | .lessEqual | .greater | .greaterEqual => true
  | _ => false

/-- What is left for operands without a rule of their own: texts join with
anything, and comparisons of unrelated types fail. -/
def otherOperation (op : Operator) (a b : Datum) : Except Fault Datum :=
  match op, a, b with
  | .add, .text s, other => .ok (.text (s ++ other.toText))
  | .add, other, .text t => .ok (.text (other.toText ++ t))
  | _, _, _ =>
    if op.compares && a.typeName != b.typeName then .ok (.bool false)
    else .error (.unknownFunction op.symbol)

/-- The result of a rule of its own, or of the remaining rules. -/
def orOther (op : Operator) (a b : Datum) (found : Option Datum) : Except Fault Datum :=
  match found with
  | some d => .ok d
  | none => otherOperation op a b

/-- An operator that is not an equation, on data that are not numbers beside
a number. -/
def operateExactly (op : Operator) (a b : Datum) : Except Fault Datum :=
  match a, b with
  | .integer m, .integer n => (integerOperation op m n).getD (otherOperation op a b)
  | .bool p, .bool q => orOther op a b (boolOperation op p q)
  | .text s, .text t => orOther op a b (textOperation op s t)
  | .text s, .character d => orOther op a b (textOperation op s (String.singleton d))
  | .character c, .text t => orOther op a b (textOperation op (String.singleton c) t)
  | .character c, .character d =>
    if op = .subtract then otherOperation op a b
    else orOther op a b (textOperation op (String.singleton c) (String.singleton d))
  | .array xs, .array ys => orOther op a b (arrayOperation op xs ys)
  | .map xs, .map ys => orOther op a b (mapOperation op xs ys)
  | .unit, .unit => if op.compares then .ok (.bool false) else otherOperation op a b
  | _, _ => otherOperation op a b

/-- An operator on two data. -/
def operate (op : Operator) (a b : Datum) : Except Fault Datum :=
  match a, b with
  | .integer m, .float y => orOther op a b (floatOperation op (Float.ofInt m) y)
  | .float x, .integer n => orOther op a b (floatOperation op x (Float.ofInt n))
  | .float x, .float y => orOther op a b (floatOperation op x y)
  | _, _ =>
    match op with
    | .equal => .ok (.bool (a.same b))
    | .notEqual => .ok (.bool (!a.same b))
    | _ => operateExactly op a b

/-- The operator of an assignment that joins an old and a new value; an
array also takes a single element. -/
def accumulate (op : Operator) (old new : Datum) : Except Fault Datum :=
  match op, old, new with
  | .add, .array xs, .array ys => .ok (.array (xs ++ ys))
  | .add, .array xs, item => .ok (.array (xs ++ [item]))
  | _, _, _ => operate op old new

/-- A sign or a negation before a datum. -/
def signed (symbol : String) (d : Datum) : Except Fault Datum :=
  match d with
  | .integer n =>
    if symbol = "-" then checked .negation (-n)
    else if symbol = "+" then .ok d
    else .error (.unknownFunction symbol)
  | .float x =>
    if symbol = "-" then .ok (.float (-x))
    else if symbol = "+" then .ok d
    else .error (.unknownFunction symbol)
  | .bool b => if symbol = "!" then .ok (.bool (!b)) else .error (.unknownFunction symbol)
  | _ => .error (.unknownFunction symbol)

/-- Whether a row of characters occurs in another one. -/
def occurs (part : List Char) : List Char → Bool
  | [] => part.isEmpty
  | c :: rest => (Text.after? part (c :: rest)).isSome || occurs part rest

/-- Whether a datum is in a collection. -/
def contains (collection item : Datum) : Except Fault Bool :=
  match collection, item with
  | .array xs, d => .ok (xs.any fun x => x.same d)
  | .text s, .text t => .ok (occurs t.toList s.toList)
  | .text s, .character c => .ok (s.toList.contains c)
  | .map entries, .text name => .ok (entries.any fun entry => entry.1 = name)
  | .range first last inclusive, .integer n =>
    .ok (first ≤ n && (n < last || (inclusive && n = last)))
  | _, _ => .error (.unknownFunction "contains")

/-- A position counted from the front, or from the end if it is negative. -/
def position? (length : Nat) (index : Int) : Option Nat :=
  if index ≥ 0 then if index < length then some index.toNat else none
  else if -index ≤ length then some (length - index.natAbs) else none

/-- The part of a datum at an index. -/
def partAt (d index : Datum) : Except Fault Datum :=
  match d, index with
  | .array items, .integer n =>
    match (position? items.length n).bind fun i => items[i]? with
    | some item => .ok item
    | none => .error (.outOfBounds "Array" n)
  | .text s, .integer n =>
    match (position? s.length n).bind fun i => s.toList[i]? with
    | some c => .ok (.character c)
    | none => .error (.outOfBounds "String" n)
  | .integer m, .integer n =>
    match position? 64 n with
    | some i => .ok (.bool ((bits m).getLsbD i))
    | none => .error (.outOfBounds "Bit-field" n)
  | .map entries, .text name => .ok ((Datum.lookup name entries).getD .unit)
  | .array _, _ | .text _, _ | .map _, _ => .error .wrongType
  | _, _ => .error .notIndexed

/-- A datum with another part at an index. -/
def withPartAt (d index part : Datum) : Except Fault Datum :=
  match d, index with
  | .array items, .integer n =>
    match position? items.length n with
    | some i => .ok (.array (items.set i part))
    | none => .error (.outOfBounds "Array" n)
  | .text s, .integer n =>
    match position? s.length n, part with
    | some i, .character c => .ok (.text (String.ofList (s.toList.set i c)))
    | some _, _ => .error .wrongType
    | none, _ => .error (.outOfBounds "String" n)
  | .integer m, .integer n =>
    match position? 64 n, part with
    | some i, .bool b =>
      let mask := BitVec.ofNat 64 (1 <<< i)
      .ok (.integer (if b then bits m ||| mask else bits m &&& ~~~mask).toInt)
    | some _, _ => .error .wrongType
    | none, _ => .error (.outOfBounds "Bit-field" n)
  | .map entries, .text name => .ok (.map (Datum.insert name part entries))
  | .array _, _ | .text _, _ | .map _, _ => .error .wrongType
  | _, _ => .error .notIndexed

/-- The named part of a datum. -/
def propertyOf (d : Datum) (name : String) : Except Fault Datum :=
  match d with
  | .map entries => .ok ((Datum.lookup name entries).getD .unit)
  | other => .error (.unknownProperty name other.typeName)

/-- A datum with another named part. -/
def withProperty (d : Datum) (name : String) (part : Datum) : Except Fault Datum :=
  match d with
  | .map entries => .ok (.map (Datum.insert name part entries))
  | other => .error (.unknownProperty name other.typeName)

/-- Refuses a datum that is larger than the limits allow. -/
def checkSize (limits : Limits) (d : Datum) : Except Fault Datum :=
  let extent := d.extent
  if exceeds extent.bytes limits.textSize then .error .textTooLong
  else if exceeds extent.items limits.items then .error .arrayTooLarge
  else if exceeds extent.entries limits.items then .error .mapTooLarge
  else .ok d

end ProcessDisplay.Script
