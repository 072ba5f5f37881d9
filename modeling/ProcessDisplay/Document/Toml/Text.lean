import ProcessDisplay.Document.Node
import ProcessDisplay.Text.Hex

/-!
# Texts, keys and blanks in TOML

A text stands in double quotes with escapes, or in single quotes without
any. Three quotes of a kind enclose a text of several lines, whose first
line end is dropped. A key is a row of plain characters or a text on one
line; keys joined by points form a path.
-/

namespace ProcessDisplay.Document.Toml

/-- Whether a character is a blank within a line. -/
def isSpace (c : Char) : Bool := c = ' ' || c = '\t'

/-- What follows the blanks of a line. -/
def skipSpace (cs : List Char) : List Char := cs.dropWhile isSpace

/-- Whether a character may stand in a line of a text or a comment. -/
def isPrintable (c : Char) : Bool := c = '\t' || (32 ≤ c.toNat && c.toNat ≠ 127)

/-- What follows a line end at the front. -/
def afterLineEnd? : List Char → Option (List Char)
  | '\n' :: rest => some rest
  | '\r' :: '\n' :: rest => some rest
  | _ => none

/-- What follows a comment, if one stands at the front. -/
def skipComment : List Char → List Char
  | '#' :: rest => rest.dropWhile isPrintable
  | cs => cs

/-- What follows the rest of a line that holds at most a comment. -/
def afterLine? (cs : List Char) : Option (List Char) :=
  match skipComment (skipSpace cs) with
  | [] => some []
  | rest => afterLineEnd? rest

/-- What follows blanks, comments and line ends. -/
def skipLines : Nat → List Char → List Char
  | 0, cs => cs
  | fuel + 1, cs =>
    let rest := skipSpace cs
    match rest with
    | [] => []
    | _ =>
      match afterLine? rest with
      | some next => skipLines fuel next
      | none => rest

/-- The character that an escape letter without a code stands for. -/
def simpleEscape? (c : Char) : Option Char :=
  if c = 'b' then some '\x08'
  else if c = 't' then some '\t'
  else if c = 'n' then some '\n'
  else if c = 'f' then some '\x0c'
  else if c = 'r' then some '\r'
  else if c = '"' || c = '\\' then some c
  else none

/-- The number of digits after an escape letter with a code. -/
def escapeWidth? (c : Char) : Option Nat :=
  if c = 'u' then some 4 else if c = 'U' then some 8 else none

/-- The character of an escape after its backslash and what follows it. -/
def escape? : List Char → Option (Char × List Char)
  | [] => none
  | c :: rest =>
    match simpleEscape? c with
    | some plain => some (plain, rest)
    | none => do
      let width ← escapeWidth? c
      if rest.length < width then none
      else (Text.hexCharacter? (rest.take width)).map (·, rest.drop width)

/-- A text of one line in double quotes, after the first of them. -/
def basicLine? : Nat → List Char → Option (List Char × List Char)
  | 0, _ => none
  | _ + 1, [] => none
  | _ + 1, '"' :: rest => some ([], rest)
  | fuel + 1, '\\' :: rest => do
    let (c, rest) ← escape? rest
    let (more, rest) ← basicLine? fuel rest
    return (c :: more, rest)
  | fuel + 1, c :: rest =>
    if isPrintable c then (basicLine? fuel rest).map fun (more, rest) => (c :: more, rest)
    else none

/-- A text of one line in single quotes, after the first of them. -/
def literalLine? : List Char → Option (List Char × List Char)
  | [] => none
  | '\'' :: rest => some ([], rest)
  | c :: rest =>
    if isPrintable c then (literalLine? rest).map fun (more, rest) => (c :: more, rest) else none

/-- The quotes at the end of a text of several lines: three close it, and one
or two more before them belong to it. -/
def closing? (quote : Char) (cs : List Char) : Option (List Char × List Char) :=
  let count := min 5 (cs.takeWhile (· = quote)).length
  if count < 3 then none else some (List.replicate (count - 3) quote, cs.drop count)

/-- What follows blanks and line ends. -/
def skipGap : List Char → List Char
  | [] => []
  | '\r' :: '\n' :: rest => skipGap rest
  | c :: rest => if isSpace c || c = '\n' then skipGap rest else c :: rest

/-- What follows a line end and a gap, after the backslash that joins lines. -/
def joinLines? (cs : List Char) : Option (List Char) :=
  (afterLineEnd? (skipSpace cs)).map skipGap

/-- A text of several lines in double quotes, after the first three of them. -/
def basicLines? : Nat → List Char → Option (List Char × List Char)
  | 0, _ => none
  | fuel + 1, cs =>
    match closing? '"' cs with
    | some result => some result
    | none =>
      match cs with
      | [] => none
      | '\\' :: rest =>
        match joinLines? rest with
        | some rest => basicLines? fuel rest
        | none => do
          let (c, rest) ← escape? rest
          let (more, rest) ← basicLines? fuel rest
          return (c :: more, rest)
      | c :: rest =>
        match afterLineEnd? cs with
        | some rest => (basicLines? fuel rest).map fun (more, rest) => ('\n' :: more, rest)
        | none =>
          if isPrintable c then
            (basicLines? fuel rest).map fun (more, rest) => (c :: more, rest)
          else none

/-- A text of several lines in single quotes, after the first three of them. -/
def literalLines? : Nat → List Char → Option (List Char × List Char)
  | 0, _ => none
  | fuel + 1, cs =>
    match closing? '\'' cs with
    | some result => some result
    | none =>
      match cs with
      | [] => none
      | c :: rest =>
        match afterLineEnd? cs with
        | some rest => (literalLines? fuel rest).map fun (more, rest) => ('\n' :: more, rest)
        | none =>
          if isPrintable c then
            (literalLines? fuel rest).map fun (more, rest) => (c :: more, rest)
          else none

/-- What follows a line end that comes first. -/
def dropLineEnd (cs : List Char) : List Char := (afterLineEnd? cs).getD cs

/-- A text at the front and what follows it. -/
def text? (cs : List Char) : Option (String × List Char) :=
  let inner :=
    match cs with
    | '"' :: '"' :: '"' :: rest => basicLines? (rest.length + 1) (dropLineEnd rest)
    | '\'' :: '\'' :: '\'' :: rest => literalLines? (rest.length + 1) (dropLineEnd rest)
    | '"' :: rest => basicLine? (rest.length + 1) rest
    | '\'' :: rest => literalLine? rest
    | _ => none
  inner.map fun (characters, rest) => (String.ofList characters, rest)

/-- Whether a character may stand in a plain key. -/
def isKeyPart (c : Char) : Bool := c.isAlphanum || c = '_' || c = '-'

/-- A key at the front and what follows it. -/
def key? (cs : List Char) : Option (String × List Char) :=
  match cs with
  | '"' :: rest =>
    (basicLine? (rest.length + 1) rest).map fun (key, rest) => (String.ofList key, rest)
  | '\'' :: rest => (literalLine? rest).map fun (key, rest) => (String.ofList key, rest)
  | _ =>
    let key := cs.takeWhile isKeyPart
    if key.isEmpty then none else some (String.ofList key, cs.dropWhile isKeyPart)

/-- A path of keys at the front, with blanks around it, and what follows. -/
def path? : Nat → List Char → Option (List String × List Char)
  | 0, _ => none
  | fuel + 1, cs => do
    let (key, rest) ← key? (skipSpace cs)
    match skipSpace rest with
    | '.' :: rest => (path? fuel rest).map fun (path, rest) => (key :: path, rest)
    | rest => some ([key], rest)

end ProcessDisplay.Document.Toml
