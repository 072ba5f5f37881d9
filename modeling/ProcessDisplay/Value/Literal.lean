import ProcessDisplay.Value.Basic

/-!
# Literals

A literal spells a value in an initializer or in the output of a rule.
Numbers and the two truth words come first, then texts in a pair of equal
quotes, then bracketed arrays of numbers. Everything else is a text, so
reading a literal never fails.
-/

namespace ProcessDisplay.Value

/-- The characters between two equal quotes. -/
def unquoted? : List Char → Option (List Char)
  | [] => none
  | quote :: rest =>
    if quote = '"' || quote = '\'' then Text.beforeLast? quote rest else none

/-- The numbers written between brackets; empty pieces between commas are skipped. -/
def elements? (cs : List Char) : Option (List Float) :=
  (((Text.pieces ',' cs).map Text.trimmed).filter (fun piece => !piece.isEmpty)).mapM
    Decimal.number?

/-- The elements of a bracketed array of numbers. -/
def bracketed? : List Char → Option (List Float)
  | '[' :: rest => (Text.beforeLast? ']' rest).bind elements?
  | _ => none

/-- The value that characters without surrounding blanks spell. -/
def ofTrimmed (cs : List Char) : Value :=
  match Decimal.number? cs with
  | some x => number x
  | none =>
    if cs = "true".toList then bool true
    else if cs = "false".toList then bool false
    else
      match unquoted? cs with
      | some inner => text (String.ofList inner)
      | none =>
        match bracketed? cs with
        | some xs => array xs
        | none => text (String.ofList cs)

/-- The value that a literal spells; blanks around it are ignored. -/
def ofLiteral (literal : String) : Value := ofTrimmed (Text.trimmed literal.toList)

end ProcessDisplay.Value
