import ProcessDisplay.Decimal.Reading

/-!
# Accessors of rules

The expressions of a rule reach its inputs by position: `pv0` is the number
of the first input, `pvInt0` its integer, `pvStr0` its text and `pvSev0` the
code of its severity. Only views that occur in the rule are bound. Scanning
looks at identifiers alone, so it may bind more than an expression needs,
but never less.
-/

namespace ProcessDisplay.Rule

/-- The views of an input. -/
inductive View where
  /-- The number. -/
  | numeric
  /-- The integer. -/
  | integer
  /-- The text. -/
  | text
  /-- The code of the severity. -/
  | severity
  deriving DecidableEq, Repr

/-- What begins the accessors of a view. -/
def View.stem : View → String
  | numeric => "pv"
  | integer => "pvInt"
  | text => "pvStr"
  | severity => "pvSev"

/-- The accessor of a view of an input. -/
def accessorName (view : View) (index : Nat) : String := view.stem ++ toString index

/-- The views that occur in a rule, and the greatest input that is reached. -/
structure Accessors where
  /-- Whether numbers occur. -/
  numeric : Bool := false
  /-- Whether integers occur. -/
  integer : Bool := false
  /-- Whether texts occur. -/
  text : Bool := false
  /-- Whether severities occur. -/
  severity : Bool := false
  /-- The greatest position that occurs. -/
  greatest : Option Nat := none
  deriving DecidableEq, Repr

/-- Whether a character may begin an identifier. -/
def beginsIdentifier (c : Char) : Bool := c.isAlpha || c = '_'

/-- Whether a character may continue an identifier. -/
def continuesIdentifier (c : Char) : Bool := c.isAlphanum || c = '_'

/-- The identifiers of a text from within an open one, given in reverse. -/
def identifiersFrom : Option (List Char) → List Char → List (List Char)
  | none, [] => []
  | some read, [] => [read.reverse]
  | none, c :: rest =>
    identifiersFrom (if beginsIdentifier c then some [c] else none) rest
  | some read, c :: rest =>
    if continuesIdentifier c then identifiersFrom (some (c :: read)) rest
    else read.reverse :: identifiersFrom none rest

/-- The identifiers of a text in order. -/
def identifiers (cs : List Char) : List (List Char) := identifiersFrom none cs

/-- The positions that can be counted are below this one, 2⁶⁴. -/
def positionBound : Nat := 18446744073709551616

/-- The view and the position of an identifier, if it is an accessor. -/
def accessor? (identifier : List Char) : Option (View × Nat) := do
  let rest ← Text.after? "pv".toList identifier
  let (view, digits) :=
    match Text.after? "Int".toList rest, Text.after? "Str".toList rest,
      Text.after? "Sev".toList rest with
    | some digits, _, _ => (View.integer, digits)
    | none, some digits, _ => (View.text, digits)
    | none, none, some digits => (View.severity, digits)
    | none, none, none => (View.numeric, rest)
  if digits.isEmpty || !digits.all Char.isDigit then none
  else
    let index := Decimal.digitsValue digits
    if index < positionBound then some (view, index) else none

namespace Accessors

/-- Whether a view occurs. -/
def has (a : Accessors) : View → Bool
  | .numeric => a.numeric
  | .integer => a.integer
  | .text => a.text
  | .severity => a.severity

/-- Whether any view occurs. -/
def any (a : Accessors) : Bool := a.numeric || a.integer || a.text || a.severity

/-- The views with one more. -/
def mark (a : Accessors) : View → Accessors
  | .numeric => { a with numeric := true }
  | .integer => { a with integer := true }
  | .text => { a with text := true }
  | .severity => { a with severity := true }

/-- The greater of an optional position and a position. -/
def raise (greatest : Option Nat) (index : Nat) : Nat :=
  match greatest with
  | some m => max m index
  | none => index

/-- The views with those of an identifier. -/
def record (a : Accessors) (identifier : List Char) : Accessors :=
  match accessor? identifier with
  | some (view, index) => { a.mark view with greatest := some (raise a.greatest index) }
  | none => a

/-- The views with those of a text. -/
def scan (a : Accessors) (source : String) : Accessors :=
  (identifiers source.toList).foldl record a

end Accessors

end ProcessDisplay.Rule
