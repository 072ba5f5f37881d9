import ProcessDisplay.Script.Limits
import ProcessDisplay.Script.Problem
import ProcessDisplay.Script.Token
import ProcessDisplay.Text.Hex
import ProcessDisplay.Value.Basic

/-!
# From characters to tokens

One step skips a blank or a comment, or takes the longest token that stands
at the front. A pair of braces inside the code of a template is counted, so
that the brace that ends the code is known.
-/

namespace ProcessDisplay.Script

/-- Whether a character may begin a name. -/
def isNameStart (c : Char) : Bool := c.isAlpha || c = '_'

/-- Whether a character may continue a name. -/
def isNamePart (c : Char) : Bool := c.isAlphanum || c = '_'

/-- The character that an escape letter without digits stands for. -/
def simpleEscape? (c : Char) : Option Char :=
  if c = 't' then some '\t'
  else if c = 'n' then some '\n'
  else if c = 'r' then some '\r'
  else if c = '\\' || c = '"' || c = '\'' then some c
  else none

/-- The number of digits after an escape letter with a code. -/
def escapeWidth? (c : Char) : Option Nat :=
  if c = 'x' then some 2 else if c = 'u' then some 4 else if c = 'U' then some 8 else none

/-- The inside of a quoted literal and what follows it. A quote written
twice stands for itself, and a backslash at the end of a line joins lines. -/
def quoted (quote : Char) : Nat → List Char → Except Problem (List Char × List Char)
  | 0, _ => .error .unclosedText
  | _ + 1, [] => .error .unclosedText
  | fuel + 1, '\\' :: c :: rest =>
    if c = '\n' then quoted quote fuel rest
    else
      match simpleEscape? c, escapeWidth? c with
      | some plain, _ => (quoted quote fuel rest).map fun (inner, rest) => (plain :: inner, rest)
      | none, some width =>
        if rest.length < width then .error .badEscape
        else
          match Text.hexCharacter? (rest.take width) with
          | some plain =>
            (quoted quote fuel (rest.drop width)).map fun (inner, rest) => (plain :: inner, rest)
          | none => .error .badEscape
      | none, none => .error .badEscape
  | fuel + 1, c :: rest =>
    if c = quote then
      match rest with
      | next :: more =>
        if next = quote then
          (quoted quote fuel more).map fun (inner, rest) => (quote :: inner, rest)
        else .ok ([], rest)
      | [] => .ok ([], rest)
    else if c = '\n' || c = '\\' then .error .unclosedText
    else (quoted quote fuel rest).map fun (inner, rest) => (c :: inner, rest)

/-- Where a piece of template text ends. -/
inductive TemplateEnd where
  /-- At a piece of code. -/
  | code
  /-- At the end of the template. -/
  | close

/-- The text of a template up to its next piece of code or its end. -/
def templateText : List Char → Except Problem (List Char × TemplateEnd × List Char)
  | [] => .error .unclosedText
  | '\x60' :: '\x60' :: rest =>
    (templateText rest).map fun (inner, stop, rest) => ('\x60' :: inner, stop, rest)
  | '\x60' :: rest => .ok ([], .close, rest)
  | '$' :: '\x7b' :: rest => .ok ([], .code, rest)
  | c :: rest => (templateText rest).map fun (inner, stop, rest) => (c :: inner, stop, rest)

/-- The characters of a decimal number, without separators, and what follows.
A point belongs to the number unless a name, a separator or a second point
follows it. -/
def decimalText : List Char → List Char × List Char
  | [] => ([], [])
  | '.' :: next :: rest =>
    if next.isDigit then
      let (more, rest) := decimalText (next :: rest)
      ('.' :: more, rest)
    else if next = '.' || isNameStart next then ([], '.' :: next :: rest)
    else
      let (more, rest) := decimalText (next :: rest)
      ('.' :: '0' :: more, rest)
  | 'e' :: next :: rest =>
    if next.isDigit then
      let (more, rest) := decimalText (next :: rest)
      ('e' :: more, rest)
    else if next = '+' || next = '-' then
      let (more, rest) := decimalText rest
      ('e' :: next :: more, rest)
    else ([], 'e' :: next :: rest)
  | c :: rest =>
    if c.isDigit then
      let (more, rest) := decimalText rest
      (c :: more, rest)
    else if c = '_' then decimalText rest
    else ([], c :: rest)

/-- The token of a decimal number; an integer out of range is read as a
number with a fraction. -/
def decimalToken (negative : Bool) (cs : List Char) : Except Problem (Token × List Char) :=
  let (digits, rest) := decimalText cs
  let whole : Int := Decimal.digitsValue digits
  let signed := if negative then -whole else whole
  if digits.all Char.isDigit && Value.isInteger signed then .ok (.integer signed, rest)
  else
    match Decimal.number? digits with
    | some x => .ok (.float (if negative then -x else x), rest)
    | none => .error (.badNumber (String.ofList digits))

/-- The radix that a letter after a zero announces. -/
def radix? (c : Char) : Option Nat :=
  if c = 'x' || c = 'X' then some 16
  else if c = 'o' || c = 'O' then some 8
  else if c = 'b' || c = 'B' then some 2
  else none

/-- Whether a character is a digit of a radix. -/
def isDigitOf (radix : Nat) (c : Char) : Bool :=
  match Text.hexValue? c with
  | some value => value < radix
  | none => false

/-- The token of a number in another radix; its 64 bits are taken as a signed integer. -/
def radixToken (negative : Bool) (radix : Nat) (cs : List Char) :
    Except Problem (Token × List Char) :=
  let isPart (c : Char) : Bool := c = '_' || isDigitOf radix c
  let digits := (cs.takeWhile isPart).filter (· ≠ '_')
  let value := digits.foldl (fun n c => radix * n + (Text.hexValue? c).getD 0) 0
  if digits.isEmpty || value ≥ 18446744073709551616 then .error (.badNumber (String.ofList digits))
  else
    let signed : Int :=
      if value ≤ Value.greatestInteger then value else (value : Int) - 18446744073709551616
    .ok (.integer (if negative then -signed else signed), cs.dropWhile isPart)

/-- The token of a number that begins with a digit. -/
def numberToken (negative : Bool) (cs : List Char) : Except Problem (Token × List Char) :=
  match cs with
  | '0' :: c :: rest =>
    match radix? c with
    | some radix => radixToken negative radix rest
    | none => decimalToken negative cs
  | _ => decimalToken negative cs

/-- What follows a block comment; comments nest, and an open one runs to the end. -/
def afterComment : Nat → List Char → List Char
  | _, [] => []
  | depth, '/' :: '*' :: rest => afterComment (depth + 1) rest
  | depth, '*' :: '/' :: rest => if depth = 0 then rest else afterComment (depth - 1) rest
  | depth, _ :: rest => afterComment depth rest

/-- What the next step has to know about the tokens before. -/
structure LexState where
  /-- The open braces in the code of each template, the innermost first. -/
  templates : List Nat := []
  /-- Whether the last token ends an operand. -/
  afterOperand : Bool := false

/-- The token of a name or word. -/
def wordToken (s : String) : Except Problem Token :=
  if keywords.contains s || reservedWords.contains s then .ok (.word s)
  else if (s.toList.dropWhile (· = '_')).head?.any Char.isAlpha then .ok (.name s)
  else if s = "_" then .ok (.word s)
  else .error (.unexpected "a name")

/-- The first mark that stands at the front. -/
def markToken? (cs : List Char) : Option (String × List Char) :=
  marks.findSome? fun m => (Text.after? m.toList cs).map fun rest => (m, rest)

/-- A text literal, if its size is allowed. -/
def sized (limits : Limits) (s : String) : Except Problem String :=
  if exceeds s.utf8ByteSize limits.textSize then .error .literalTooLarge else .ok s

/-- The token of a piece of template text and the state after it. -/
def templatePiece (limits : Limits) (isFirst : Bool) (state : LexState) (cs : List Char) :
    Except Problem (Token × LexState × List Char) := do
  let (inner, stop, rest) ← templateText cs
  let s ← sized limits (String.ofList inner)
  match stop with
  | .code =>
    return (if isFirst then .templateOpen s else .templateNext s,
      ⟨0 :: state.templates, false⟩, rest)
  | .close =>
    return (if isFirst then .text s else .templateClose s, ⟨state.templates, true⟩, rest)

/-- The state after a mark. -/
def LexState.afterMark (state : LexState) (m : String) : LexState :=
  let templates :=
    match state.templates with
    | [] => []
    | depth :: outer =>
      if m = "\x7b" || m = "#\x7b" then (depth + 1) :: outer
      else if m = "\x7d" then (depth - 1) :: outer
      else state.templates
  ⟨templates, (Token.mark m).endsOperand⟩

/-- One step: what is skipped yields no token. -/
def lexStep (limits : Limits) (state : LexState) (cs : List Char) :
    Except Problem (Option Token × LexState × List Char) :=
  match cs with
  | [] => .ok (none, state, [])
  | '/' :: '/' :: rest => .ok (none, state, rest.dropWhile (· ≠ '\n'))
  | '/' :: '*' :: rest => .ok (none, state, afterComment 0 rest)
  | '"' :: rest => do
    let (inner, rest) ← quoted '"' (rest.length + 1) rest
    let s ← sized limits (String.ofList inner)
    return (some (.text s), { state with afterOperand := true }, rest)
  | '\'' :: rest => do
    let (inner, rest) ← quoted '\'' (rest.length + 1) rest
    match inner with
    | [c] => return (some (.character c), { state with afterOperand := true }, rest)
    | _ => throw .badCharacter
  | '\x60' :: rest => do
    let start := match rest with | '\n' :: more => more | _ => rest
    let (token, state, rest) ← templatePiece limits true state start
    return (some token, state, rest)
  | c :: rest =>
    if Text.isBlank c then .ok (none, state, rest)
    else if c.isDigit then do
      let (token, rest) ← numberToken false cs
      return (some token, { state with afterOperand := true }, rest)
    else if c = '-' && !state.afterOperand && rest.head?.any Char.isDigit then do
      let (token, rest) ← numberToken true rest
      return (some token, { state with afterOperand := true }, rest)
    else if isNameStart c then do
      let token ← wordToken (String.ofList (cs.takeWhile isNamePart))
      return (some token, { state with afterOperand := token.endsOperand },
        cs.dropWhile isNamePart)
    else
      match state.templates with
      | 0 :: outer =>
        if c = '\x7d' then do
          let (token, state, rest) ← templatePiece limits false ⟨outer, false⟩ rest
          return (some token, state, rest)
        else lexMark
      | _ => lexMark
where
  /-- A mark, or the negated form of membership. -/
  lexMark : Except Problem (Option Token × LexState × List Char) :=
    match Text.after? "!in".toList cs with
    | some rest =>
      if rest.head?.any isNamePart then plainMark
      else .ok (some (.mark "!in"), { state with afterOperand := false }, rest)
    | none => plainMark
  /-- A mark of the table. -/
  plainMark : Except Problem (Option Token × LexState × List Char) :=
    match markToken? cs with
    | some (m, rest) => .ok (some (.mark m), state.afterMark m, rest)
    | none => .error (.strayCharacter (cs.headD ' '))

/-- All tokens, at most one step for every unit of fuel. -/
def lexAll (limits : Limits) : Nat → LexState → List Char → Except Problem (List Token)
  | 0, _, _ => .ok []
  | fuel + 1, state, cs =>
    if cs.isEmpty then
      if state.templates.isEmpty then .ok [] else .error .unclosedText
    else do
      let (token, state, rest) ← lexStep limits state cs
      let more ← lexAll limits fuel state rest
      return match token with | some token => token :: more | none => more

/-- The tokens of a source text; every step takes at least one character. -/
def lex (limits : Limits) (source : String) : Except Problem (List Token) :=
  lexAll limits (source.length + 1) {} source.toList

end ProcessDisplay.Script
