import ProcessDisplay.Failure
import ProcessDisplay.Value.Basic

/-!
# Widgets

A widget is a name and a row of typed properties, sorted by their names.
Every property has a default and a current value. Rules and scripts read and
write the current values; they cannot add properties.
-/

namespace ProcessDisplay

/-- What a property is for. -/
inductive PropertyKind where
  /-- A text. -/
  | string
  /-- A number. -/
  | number
  /-- A whole number. -/
  | integer
  /-- A truth value. -/
  | boolean
  /-- A color. -/
  | color
  /-- A font. -/
  | font
  deriving DecidableEq, Repr, Inhabited

/-- Whether the literal output of a rule is taken as it stands. -/
def PropertyKind.takesVerbatim (kind : PropertyKind) : Bool := kind = .string

/-- A property of a widget. -/
structure Property where
  /-- What it is for. -/
  kind : PropertyKind
  /-- The value it starts from and returns to. -/
  default : Value
  /-- The current value. -/
  value : Value
  deriving DecidableEq

/-- A named row of properties. -/
structure Widget where
  /-- The name, which appears in failures. -/
  name : String
  /-- The properties by name, sorted by their names. -/
  properties : List (String × Property) := []
  deriving DecidableEq

namespace Widget

/-- The property of a name in a row. -/
def find (property : String) : List (String × Property) → Option Property
  | [] => none
  | (name, p) :: rest => if name = property then some p else find property rest

/-- A row with a property in its place, instead of one of the same name. -/
def place (property : String) (p : Property) : List (String × Property) → List (String × Property)
  | [] => [(property, p)]
  | (name, q) :: rest =>
    if property = name then (property, p) :: rest
    else if property < name then (property, p) :: (name, q) :: rest
    else (name, q) :: place property p rest

/-- The property of a name. -/
def property? (w : Widget) (property : String) : Option Property := find property w.properties

/-- The kind of a property. -/
def kind? (w : Widget) (property : String) : Option PropertyKind :=
  (w.property? property).map Property.kind

/-- The current value of a property. -/
def value? (w : Widget) (property : String) : Option Value :=
  (w.property? property).map Property.value

/-- The default of a property. -/
def default? (w : Widget) (property : String) : Option Value :=
  (w.property? property).map Property.default

/-- A widget with one more property at its default. -/
def define (w : Widget) (property : String) (kind : PropertyKind) (default : Value) : Widget :=
  { w with properties := place property ⟨kind, default, default⟩ w.properties }

/-- A widget with another value of a property. -/
def assign (w : Widget) (property : String) (value : Value) : Except Failure Widget :=
  match w.property? property with
  | some p => .ok { w with properties := place property { p with value } w.properties }
  | none => .error (.missingProperty w.name property)

/-- The current values by name. -/
def values (w : Widget) : List (String × Value) :=
  w.properties.map fun entry => (entry.1, entry.2.value)

end Widget

end ProcessDisplay
