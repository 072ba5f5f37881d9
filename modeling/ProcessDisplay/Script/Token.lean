/-!
# Tokens

A source text is a row of tokens. A template is a text with code in it: the
text before the first piece of code, between two pieces and after the last
one are tokens of their own, with the tokens of the code in between.
-/

namespace ProcessDisplay.Script

/-- One token of a source text. -/
inductive Token where
  /-- An integer literal. -/
  | integer (n : Int)
  /-- A number literal with a point or an exponent. -/
  | float (x : Float)
  /-- A character literal. -/
  | character (c : Char)
  /-- A text literal. -/
  | text (s : String)
  /-- The text of a template before its first piece of code. -/
  | templateOpen (s : String)
  /-- The text of a template between two pieces of code. -/
  | templateNext (s : String)
  /-- The text of a template after its last piece of code. -/
  | templateClose (s : String)
  /-- A name. -/
  | name (s : String)
  /-- A word with a meaning of its own, or one that is reserved. -/
  | word (s : String)
  /-- An operator or a separator. -/
  | mark (s : String)
  deriving DecidableEq

/-- Words with a meaning in the language. -/
def keywords : List String :=
  ["true", "false", "let", "const", "if", "else", "switch", "do", "while", "until", "loop",
    "for", "in", "fn", "private", "return", "break", "continue", "throw", "try", "catch",
    "import", "export", "as", "global", "this"]

/-- Words that no script may use. -/
def reservedWords : List String :=
  ["public", "protected", "super", "new", "use", "module", "package", "var", "static", "shared",
    "with", "is", "goto", "exit", "match", "case", "default", "void", "null", "nil", "spawn",
    "thread", "go", "sync", "async", "await", "yield"]

/-- Operators and separators, longer ones before their beginnings. A few of
them have no meaning; a script that contains one is refused. -/
def marks : List String :=
  ["..=", "...", "**=", "<<=", ">>=", "===", "!==", "..", "**", "<<", ">>", "==", "!=", "<=",
    ">=", "&&", "||", "+=", "-=", "*=", "/=", "%=", "&=", "|=", "^=", "=>", "??", "?.", "?[",
    "->", "<-", ":=", "::", "++", "--", "#\x7b", "#!", "|>", "<|", "+", "-", "*", "/", "%", "<",
    ">", "=", "!", "&", "|", "^", "(", ")", "[", "]", "\x7b", "\x7d", ",", ";", ":", ".", "#",
    "@", "$", "~", "?"]

/-- Whether a token ends an operand, so that a minus sign after it subtracts. -/
def Token.endsOperand : Token → Bool
  | .integer _ | .float _ | .character _ | .text _ | .templateClose _ | .name _ => true
  | .word s => s = "true" || s = "false" || s = "this"
  | .mark s => s = ")" || s = "]" || s = "\x7d"
  | .templateOpen _ | .templateNext _ => false

end ProcessDisplay.Script
