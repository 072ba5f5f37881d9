import ProcessDisplay.Script.Datum

/-!
# Terms

A script is a tree of terms, and every term has a value. Loops, jumps and
declarations are terms as well; most of them have no value of interest.
-/

namespace ProcessDisplay.Script

/-- The operators that evaluate both of their operands. -/
inductive Operator where
  /-- The sum, or texts joined. -/
  | add
  /-- The difference. -/
  | subtract
  /-- The product. -/
  | multiply
  /-- The quotient. -/
  | divide
  /-- The remainder. -/
  | remainder
  /-- The power. -/
  | power
  /-- Bits moved to higher places. -/
  | shiftLeft
  /-- Bits moved to lower places. -/
  | shiftRight
  /-- Bits set in both. -/
  | bitAnd
  /-- Bits set in either. -/
  | bitOr
  /-- Bits set in exactly one. -/
  | bitXor
  /-- Whether both are equal. -/
  | equal
  /-- Whether both differ. -/
  | notEqual
  /-- Whether the first comes before the second. -/
  | less
  /-- Whether the first does not come after the second. -/
  | lessEqual
  /-- Whether the first comes after the second. -/
  | greater
  /-- Whether the first does not come before the second. -/
  | greaterEqual
  /-- The integers from the first up to, but not including, the second. -/
  | range
  /-- The integers from the first up to the second. -/
  | rangeInclusive
  deriving DecidableEq, Repr

/-- The written form of an operator. -/
def Operator.symbol : Operator → String
  | add => "+"
  | subtract => "-"
  | multiply => "*"
  | divide => "/"
  | remainder => "%"
  | power => "**"
  | shiftLeft => "<<"
  | shiftRight => ">>"
  | bitAnd => "&"
  | bitOr => "|"
  | bitXor => "^"
  | equal => "=="
  | notEqual => "!="
  | less => "<"
  | lessEqual => "<="
  | greater => ">"
  | greaterEqual => ">="
  | range => ".."
  | rangeInclusive => "..="

/-- One step from a value to a part of it. -/
inductive Access (α : Type u) where
  /-- The element at an index. -/
  | index (position : α)
  /-- A named part. -/
  | property (name : String)
  /-- The result of a function that takes the value first. -/
  | method (name : String) (arguments : List α)

/-- What a case of a selection accepts. -/
inductive Pattern where
  /-- One value. -/
  | value (d : Datum)
  /-- The numbers of a range. -/
  | within (first last : Int) (inclusive : Bool)

/-- One case of a selection. -/
structure Case (α : Type u) where
  /-- The accepted values; none stands for all of them. -/
  patterns : List Pattern
  /-- A further condition. -/
  guard : Option α
  /-- What the case evaluates to. -/
  result : α

/-- A term of a script. -/
inductive Term where
  /-- A value written in the source. -/
  | literal (value : Datum)
  /-- The value of a variable. -/
  | name (name : String)
  /-- The texts of several terms joined. -/
  | template (parts : List Term)
  /-- An array with the values of several terms. -/
  | array (items : List Term)
  /-- A map with the values of several terms. -/
  | map (entries : List (String × Term))
  /-- An operator between two operands. -/
  | binary (op : Operator) (left right : Term)
  /-- Whether a value is in a collection, or whether it is not. -/
  | member (negated : Bool) (item collection : Term)
  /-- Whether both conditions hold; the second is evaluated only if the first holds. -/
  | both (left right : Term)
  /-- Whether one of two conditions holds; the second is evaluated only if the first fails. -/
  | either (left right : Term)
  /-- The first value unless it is the missing one. -/
  | orElse (left right : Term)
  /-- A sign or a negation before an operand. -/
  | unary (symbol : String) (operand : Term)
  /-- A call of a function. -/
  | call (name : String) (arguments : List Term)
  /-- Steps from a value to its parts. -/
  | chain (root : Term) (steps : List (Access Term))
  /-- A term in the place of a statement. -/
  | statement (body : Term)
  /-- Statements with variables of their own. -/
  | block (statements : List Term)
  /-- One of two terms. -/
  | conditional (condition yes no : Term)
  /-- The first case that accepts a value. -/
  | select (subject : Term) (cases : List (Case Term))
  /-- A new variable or constant. -/
  | declare (name : String) (isConstant : Bool) (value : Term)
  /-- An assignment, with an operator applied to the old and the new value if there is one. -/
  | assign (target : Term) (op : Option Operator) (value : Term)
  /-- A loop while a condition holds. -/
  | whileLoop (condition body : Term)
  /-- A loop whose condition follows its body. -/
  | doLoop (body : Term) (whileTrue : Bool) (condition : Term)
  /-- A loop over the elements of a value. -/
  | forLoop (name : String) (counter : Option String) (source body : Term)
  /-- The end of a loop. -/
  | leaveLoop (value : Term)
  /-- The next round of a loop. -/
  | nextRound
  /-- The end of a function or of the script. -/
  | giveBack (value : Term)
  /-- A thrown value. -/
  | throw (value : Term)
  /-- A term whose faults are caught. -/
  | guarded (body : Term) (name : Option String) (handler : Term)

namespace Term

/-- The term without a value. -/
def unit : Term := literal .unit

/-- Whether a term only names a value. -/
def isSimple : Term → Bool
  | literal _ | name _ => true
  | _ => false

/-- Whether evaluating a term as a statement has no effect. -/
def isPure : Term → Bool
  | statement body => isPure body
  | array items => items.all isSimple
  | template parts => parts.all isSimple
  | map entries => entries.all fun entry => isSimple entry.2
  | other => isSimple other

/-- Whether a term is a block of statements without effect. -/
def isIdle : Term → Bool
  | block statements => statements.all isPure
  | _ => false

/-- Statements without those that have no effect, except for the last one. -/
def withoutPure : List Term → List Term
  | [] => []
  | [last] => [last]
  | first :: rest => if first.isPure then withoutPure rest else first :: withoutPure rest

end Term

/-- A function defined in a script. -/
structure Function where
  /-- The name of the function. -/
  name : String
  /-- The names of its parameters. -/
  parameters : List String
  /-- The body, a block. -/
  body : Term

/-- A parsed source text. -/
structure Program where
  /-- The statements in order. -/
  statements : List Term
  /-- The functions, which may be used before they are defined. -/
  functions : List Function
  /-- The number of characters of the source, which bounds the nesting of the terms. -/
  size : Nat

end ProcessDisplay.Script
