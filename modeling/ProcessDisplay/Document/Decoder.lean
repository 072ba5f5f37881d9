import ProcessDisplay.Document.Format
import ProcessDisplay.Document.Node
import ProcessDisplay.Value.Basic

/-!
# Decoding of nodes

A record is a table, or a list of its fields in order. Unknown fields are
ignored. A field occurs at most once; one that is missing is refused unless
it has a default. Every refusal says why.
-/

namespace ProcessDisplay.Document

/-- A reading of nodes as something else. -/
abbrev Decoder (α : Type) := Node → Except String α

namespace Node

/-- A text. -/
def toText : Decoder String
  | .text s => .ok s
  | _ => .error "expected a text"

/-- A truth value. -/
def toTruth : Decoder Bool
  | .bool b => .ok b
  | _ => .error "expected a truth value"

/-- A natural number below a bound. -/
def toNatural (bound : Nat) : Decoder Nat
  | .integer n =>
    if 0 ≤ n ∧ n < bound then .ok n.toNat else .error "a whole number is out of range"
  | _ => .error "expected a whole number"

/-- A number; a whole one becomes the nearest number. -/
def toNumber : Decoder Float
  | .integer n => .ok (Float.ofInt n)
  | .number x => .ok x
  | _ => .error "expected a number"

/-- A list. -/
def toList (item : Decoder α) : Decoder (List α)
  | .list items => items.mapM item
  | _ => .error "expected a list"

/-- Something that may be missing. -/
def toOption (decode : Decoder α) : Decoder (Option α)
  | .null => .ok none
  | node => (decode node).map some

/-- A value: a truth value, a number, a text or a list of numbers. -/
def toValue : Decoder Value
  | .bool b => .ok (.bool b)
  | .text s => .ok (.text s)
  | .list items => (items.mapM toNumber).map .array
  | node => node.toNumber.map .number

/-- Whether a node holds nothing, as it may stand beside the name of a choice. -/
def isVoid (format : Format) : Node → Bool
  | .null => format = .json
  | .list [] | .table [] => format = .toml
  | _ => false

/-- One of some choices by name. -/
def toChoice (format : Format) (choices : List (String × α)) (node : Node) : Except String α :=
  let name :=
    match node with
    | .text s => some s
    | .table [(s, inner)] => if inner.isVoid format then some s else none
    | _ => none
  match name.bind fun s => choices.lookup s with
  | some choice => .ok choice
  | none => .error "expected one of some names"

/-- The entries of a record with some fields. Beyond the fields, a list has
no items in JSON. -/
def toRecord (format : Format) (fields : List String) : Decoder (List (String × Node))
  | .table entries => .ok entries
  | .list items =>
    if format = .json && items.length > fields.length then .error "a list is too long"
    else .ok (fields.zip items)
  | _ => .error "expected a table"

/-- The entries of a table whose keys are free; of a key that is repeated the
last entry counts. -/
def toEntries (value : Decoder α) : Decoder (List (String × α))
  | .table entries => entries.mapM fun entry => (value entry.2).map (entry.1, ·)
  | _ => .error "expected a table"

end Node

/-- The node of a field, if there is one. -/
def field? (entries : List (String × Node)) (name : String) : Except String (Option Node) :=
  match entries.filter (·.1 = name) with
  | [] => .ok none
  | [(_, node)] => .ok (some node)
  | _ => .error ("the field " ++ name ++ " is repeated")

/-- A field that must be there. -/
def required (entries : List (String × Node)) (name : String) (decode : Decoder α) :
    Except String α := do
  match ← field? entries name with
  | some node => decode node
  | none => throw ("the field " ++ name ++ " is missing")

/-- A field with a default. -/
def optional (entries : List (String × Node)) (name : String) (default : α)
    (decode : Decoder α) : Except String α := do
  match ← field? entries name with
  | some node => decode node
  | none => return default

/-- What a system answers when a file is read: its text, or why not. -/
abbrev FileText := Except String String

/-- A reading of texts in either format: the node that a text spells, or why
there is none. -/
abbrev Reader := Format → String → Except String Node

/-- A document in a file. -/
def load (read : Reader) (path : String) (file : FileText) (decode : Format → Decoder α) :
    Except Failure α :=
  match file with
  | .error reason => .error (.config (.unreadable path reason))
  | .ok text =>
    let format := Format.ofPath path
    match read format text >>= decode format with
    | .ok a => .ok a
    | .error reason => .error (.config (.unparsable path reason))

end ProcessDisplay.Document
