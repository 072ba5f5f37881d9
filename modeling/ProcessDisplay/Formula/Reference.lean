import ProcessDisplay.Failure
import ProcessDisplay.Text.Blank

/-!
# References in formulas

A formula quotes the names of variables with single quotes. Before it is
compiled, every quoted name is replaced by an identifier: `pvref` and the
position of the name among the names of the formula. Texts in double quotes
are left as they are; a backslash in them protects the next character.
-/

namespace ProcessDisplay.Formula

/-- What begins the identifier of a reference. -/
def referenceStem : String := "pvref"

/-- The identifier of the name at a position. -/
def referenceName (index : Nat) : String := referenceStem ++ toString index

/-- Where in a formula a character stands. -/
inductive Region where
  /-- In an expression. -/
  | expression
  /-- In a text; the character may be protected. -/
  | text (isProtected : Bool)
  /-- In a reference, after some characters of it in reverse. -/
  | reference (read : List Char)

/-- The names of a formula with one more, unless it is there, and its position. -/
def register (names : List String) (name : String) : List String × Nat :=
  match names.idxOf? name with
  | some index => (names, index)
  | none => (names ++ [name], names.length)

/-- The rest of a formula with its references replaced, and all names of the formula. -/
def replaceFrom (source : String) (names : List String) :
    Region → List Char → Except FormulaFault (List Char × List String)
  | .expression, [] => .ok ([], names)
  | .expression, c :: rest =>
    if c = '\'' then replaceFrom source names (.reference []) rest
    else
      (replaceFrom source names (if c = '"' then .text false else .expression) rest).map
        fun (out, names) => (c :: out, names)
  | .text _, [] => .ok ([], names)
  | .text isProtected, c :: rest =>
    let region : Region :=
      if isProtected then .text false
      else if c = '\\' then .text true
      else if c = '"' then .expression
      else .text false
    (replaceFrom source names region rest).map fun (out, names) => (c :: out, names)
  | .reference _, [] => .error (.unterminatedReference source)
  | .reference read, c :: rest =>
    if c = '\'' then
      let name := Text.trimmed read.reverse
      if name.isEmpty then .error (.emptyReference source)
      else
        let (names, index) := register names (String.ofList name)
        (replaceFrom source names .expression rest).map fun (out, names) =>
          ((referenceName index).toList ++ out, names)
    else replaceFrom source names (.reference (c :: read)) rest

/-- The expression of a formula with identifiers for its references, and the
names of the references in the order of their positions. -/
def replaceReferences (source : String) : Except FormulaFault (String × List String) :=
  (replaceFrom source [] .expression source.toList).map fun (out, names) =>
    (String.ofList out, names)

end ProcessDisplay.Formula
