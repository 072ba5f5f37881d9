/-!
# Problems of a source text

A source text that is not accepted is refused for one of the reasons below.
-/

namespace ProcessDisplay.Script

/-- Why a source text is refused. -/
inductive Problem where
  /-- A character that begins no token. -/
  | strayCharacter (c : Char)
  /-- A text, character or template without its end. -/
  | unclosedText
  /-- An escape sequence that does not exist or is incomplete. -/
  | badEscape
  /-- A character literal that does not hold exactly one character. -/
  | badCharacter
  /-- A number that cannot be read. -/
  | badNumber (text : String)
  /-- A literal beyond the size limits. -/
  | literalTooLarge
  /-- The source ends too early. -/
  | earlyEnd
  /-- Something else was expected. -/
  | unexpected (expected : String)
  /-- The source is nested too deeply. -/
  | tooDeep
  /-- A condition is a literal that is not a truth value. -/
  | notCondition
  /-- A loop runs over a literal that has no elements. -/
  | notIterable
  /-- An indexed literal has no elements, or the index has the wrong kind. -/
  | badIndex
  /-- An assignment to something that cannot hold a value. -/
  | notAssignable
  /-- An assignment to a constant. -/
  | constantAssigned (name : String)
  /-- A jump out of a loop where there is none. -/
  | outsideLoop
  /-- A function defined inside another construct. -/
  | nestedFunction
  /-- A name given twice. -/
  | duplicate (name : String)
  /-- A problem of another kind, which says it itself. -/
  | stated (text : String)
  deriving DecidableEq, Repr

/-- The text of a problem. -/
def Problem.message : Problem → String
  | strayCharacter c => "Unexpected character '" ++ String.singleton c ++ "'"
  | unclosedText => "Open text is not terminated"
  | badEscape => "Invalid escape sequence"
  | badCharacter => "Invalid character literal"
  | badNumber text => "Invalid number: '" ++ text ++ "'"
  | literalTooLarge => "Literal exceeds the size limit"
  | earlyEnd => "Script is incomplete"
  | unexpected expected => "Expecting " ++ expected
  | tooDeep => "Expression exceeds the depth limit"
  | notCondition => "Expecting a boolean expression"
  | notIterable => "Expecting an iterable value"
  | badIndex => "Invalid index expression"
  | notAssignable => "Expression cannot be assigned to"
  | constantAssigned name => "Cannot assign to constant '" ++ name ++ "'"
  | outsideLoop => "Jump outside of a loop"
  | nestedFunction => "Functions are only defined at global level"
  | duplicate name => "Duplicate name '" ++ name ++ "'"
  | stated text => text

end ProcessDisplay.Script
