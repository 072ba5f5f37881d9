import ProcessDisplay.Decimal.Reading
import ProcessDisplay.Document.Node
import ProcessDisplay.Text.Blank
import ProcessDisplay.Text.Hex
import ProcessDisplay.Value.Basic

/-!
# Documents in JSON

A whole number that fits 64 bits, with or without a sign, is read exactly. Any
other number is read as its leading digits, as many as fit 64 bits, scaled
once by a power of ten; one that is too large has no value.
-/

namespace ProcessDisplay.Document.Json

/-- Whether a character is blank between the parts of a document. -/
def isSpace (c : Char) : Bool := c = ' ' || c = '\n' || c = '\t' || c = '\r'

/-- What follows the blanks. -/
def skipSpace (cs : List Char) : List Char := cs.dropWhile isSpace

/-- A text as it was written: a half of a surrogate pair has no character. -/
structure Quoted where
  /-- The characters. -/
  characters : List Char := []
  /-- Whether every escape stands for a character. -/
  isReadable : Bool := true

/-- The text with one more character in front. -/
def Quoted.cons (q : Quoted) (c : Char) : Quoted := { q with characters := c :: q.characters }

/-- The text with an escape without a character in front. -/
def Quoted.broken (q : Quoted) : Quoted := { q with isReadable := false }

/-- The character that an escape letter without a code stands for. -/
def simpleEscape? (c : Char) : Option Char :=
  if c = '"' || c = '\\' || c = '/' then some c
  else if c = 'b' then some '\x08'
  else if c = 'f' then some '\x0c'
  else if c = 'n' then some '\n'
  else if c = 'r' then some '\r'
  else if c = 't' then some '\t'
  else none

/-- Whether a code is the first half of a surrogate pair. -/
def isHighSurrogate (code : Nat) : Bool := 0xD800 ≤ code && code < 0xDC00

/-- Whether a code is the second half of a surrogate pair. -/
def isLowSurrogate (code : Nat) : Bool := 0xDC00 ≤ code && code < 0xE000

/-- The code of the pair of two surrogates. -/
def pairCode (high low : Nat) : Nat := 0x10000 + (high - 0xD800) * 0x400 + (low - 0xDC00)

/-- The code of an escape at the front and what follows it. -/
def escapeCode? : List Char → Option (Nat × List Char)
  | '\\' :: 'u' :: a :: b :: c :: d :: rest => (Text.hexCode? [a, b, c, d]).map (·, rest)
  | _ => none

/-- The character of an escape with a code, if it has one, and what follows. -/
def codeEscape (code : Nat) (rest : List Char) : Option Char × List Char :=
  if isHighSurrogate code then
    match escapeCode? rest with
    | some (low, more) =>
      if isLowSurrogate low then (Text.character? (pairCode code low), more) else (none, rest)
    | none => (none, rest)
  else (Text.character? code, rest)

/-- The text after an opening quote and what follows its closing quote. -/
def quoted : Nat → List Char → Option (Quoted × List Char)
  | 0, _ => none
  | _ + 1, [] => none
  | _ + 1, '"' :: rest => some ({}, rest)
  | fuel + 1, '\\' :: c :: rest =>
    match simpleEscape? c with
    | some plain => (quoted fuel rest).map fun (q, rest) => (q.cons plain, rest)
    | none =>
      match escapeCode? ('\\' :: c :: rest) with
      | none => none
      | some (code, more) =>
        let (character, after) := codeEscape code more
        (quoted fuel after).map fun (q, rest) =>
          (match character with
            | some plain => q.cons plain
            | none => q.broken, rest)
  | fuel + 1, c :: rest =>
    if c = '\\' || c.toNat < 32 then none
    else (quoted fuel rest).map fun (q, rest) => (q.cons c, rest)

/-- The bound of the significand of a number, 2⁶⁴. -/
def significandBound : Nat := 18446744073709551616

/-- The leading digits of a number, as many as fit the significand, and the
number of the digits left over. -/
def significand (n : Nat) : List Char → Nat × Nat
  | [] => (n, 0)
  | c :: rest =>
    let next := 10 * n + Decimal.digitValue c
    if next < significandBound then significand next rest else (n, rest.length + 1)

/-- A power of ten as a number. -/
def powerOfTen (n : Nat) : Float := Float.ofScientific 1 false n

/-- The greatest power of ten that is a number. -/
def greatestPower : Nat := 308

/-- A number divided by a power of ten, in steps of the greatest power. -/
def scaleDown : Nat → Float → Nat → Float
  | 0, x, _ => x
  | fuel + 1, x, n =>
    if n ≤ greatestPower then x / powerOfTen n
    else if x == 0.0 then x
    else scaleDown fuel (x / powerOfTen greatestPower) (n - greatestPower)

/-- A number times a power of ten, if it is not too large. -/
def scaled (x : Float) (exponent : Int) : Option Float :=
  if exponent < 0 then some (scaleDown ((-exponent).toNat / greatestPower + 1) x (-exponent).toNat)
  else if exponent.toNat ≤ greatestPower then
    let product := x * powerOfTen exponent.toNat
    if product.isInf then none else some product
  else if x == 0.0 then some x
  else none

/-- The value of a number with its parts: the digits before and after the
point and the exponent. -/
def numberValue (whole fraction : List Char) (exponent : Int) : Option Float :=
  let (leading, dropped) := significand 0 whole
  let (all, unused) := significand leading fraction
  scaled (Decimal.nearestFloat all 0) (exponent + dropped - (fraction.length - unused : Nat))

/-- Whether a number is in the range of whole numbers. -/
def isWhole (n : Int) : Bool := Value.leastInteger ≤ n && n < significandBound

/-- The node of a number with its parts. A negative zero is not whole. -/
def numberNode (negative : Bool) (whole : List Char) (fraction : Option (List Char))
    (exponent : Option Int) : Node :=
  let n := Decimal.digitsValue whole
  let signed : Int := if negative then -n else n
  if fraction.isNone && exponent.isNone && isWhole signed && !(negative && n = 0) then
    .integer signed
  else
    match numberValue whole (fraction.getD []) (exponent.getD 0) with
    | some x => .number (if negative then -x else x)
    | none => .unreadable

/-- The digits at the front and what follows them; there is at least one. -/
def digits? (cs : List Char) : Option (List Char × List Char) :=
  let digits := cs.takeWhile Char.isDigit
  if digits.isEmpty then none else some (digits, cs.dropWhile Char.isDigit)

/-- The digits after a point, if there is a point. -/
def fraction? : List Char → Option (Option (List Char) × List Char)
  | '.' :: rest => (digits? rest).map fun (digits, rest) => (some digits, rest)
  | cs => some (none, cs)

/-- An exponent after its mark. -/
def signedExponent? (cs : List Char) : Option (Int × List Char) :=
  match cs with
  | '+' :: rest => (digits? rest).map fun (ds, rest) => ((Decimal.digitsValue ds : Int), rest)
  | '-' :: rest => (digits? rest).map fun (ds, rest) => (-(Decimal.digitsValue ds : Int), rest)
  | _ => (digits? cs).map fun (ds, rest) => ((Decimal.digitsValue ds : Int), rest)

/-- An exponent, if there is a mark. -/
def exponent? : List Char → Option (Option Int × List Char)
  | [] => some (none, [])
  | c :: rest =>
    if c = 'e' || c = 'E' then (signedExponent? rest).map fun (n, rest) => (some n, rest)
    else some (none, c :: rest)

/-- The digits before the point: a single zero, or digits without a leading zero. -/
def whole? (cs : List Char) : Option (List Char × List Char) :=
  (digits? cs).bind fun (digits, rest) =>
    if digits.head? = some '0' && digits.length > 1 then none else some (digits, rest)

/-- A number at the front and what follows it. -/
def number? (cs : List Char) : Option (Node × List Char) := do
  let (negative, cs) := match cs with | '-' :: rest => (true, rest) | _ => (false, cs)
  let (whole, cs) ← whole? cs
  let (fraction, cs) ← fraction? cs
  let (exponent, cs) ← exponent? cs
  return (numberNode negative whole fraction exponent, cs)

/-- The node of a text. -/
def Quoted.node (q : Quoted) : Node :=
  if q.isReadable then .text (String.ofList q.characters) else .unreadable

/-- A table with one more entry in front, unless its key has no value. -/
def consEntry (key : Quoted) (value : Node) : Node → Node
  | .table entries =>
    if key.isReadable then .table ((String.ofList key.characters, value) :: entries)
    else .unreadable
  | other => other

/-- A list with one more item in front. -/
def consItem (item : Node) : Node → Node
  | .list items => .list (item :: items)
  | other => other

mutual

/-- The value at the front and what follows it. -/
def value? : Nat → List Char → Option (Node × List Char)
  | 0, _ => none
  | fuel + 1, cs =>
    match skipSpace cs with
    | [] => none
    | '"' :: rest => (quoted (rest.length + 1) rest).map fun (q, rest) => (q.node, rest)
    | '[' :: rest =>
      match skipSpace rest with
      | ']' :: rest => some (.list [], rest)
      | _ => items? fuel rest
    | '\x7b' :: rest =>
      match skipSpace rest with
      | '\x7d' :: rest => some (.table [], rest)
      | _ => entries? fuel rest
    | c :: rest =>
      if c = '-' || c.isDigit then number? (c :: rest)
      else
        match Text.after? "null".toList (c :: rest), Text.after? "true".toList (c :: rest),
            Text.after? "false".toList (c :: rest) with
        | some rest, _, _ => some (.null, rest)
        | _, some rest, _ => some (.bool true, rest)
        | _, _, some rest => some (.bool false, rest)
        | _, _, _ => none

/-- The items of a list up to its end. -/
def items? : Nat → List Char → Option (Node × List Char)
  | 0, _ => none
  | fuel + 1, cs => do
    let (item, rest) ← value? fuel cs
    match skipSpace rest with
    | ',' :: rest => (items? fuel rest).map fun (items, rest) => (consItem item items, rest)
    | ']' :: rest => some (.list [item], rest)
    | _ => none

/-- The entries of a table up to its end. -/
def entries? : Nat → List Char → Option (Node × List Char)
  | 0, _ => none
  | fuel + 1, cs =>
    match skipSpace cs with
    | '"' :: rest => do
      let (key, rest) ← quoted (rest.length + 1) rest
      match skipSpace rest with
      | ':' :: rest => do
        let (value, rest) ← value? fuel rest
        match skipSpace rest with
        | ',' :: rest =>
          (entries? fuel rest).map fun (entries, rest) => (consEntry key value entries, rest)
        | '\x7d' :: rest => some (consEntry key value (.table []), rest)
        | _ => none
      | _ => none
    | _ => none

end

/-- The node that a text spells. Every nesting takes a character, which
bounds the depth. -/
def read (text : String) : Option Node := do
  let (node, rest) ← value? (2 * text.length + 2) text.toList
  if (skipSpace rest).isEmpty then some node else none

end ProcessDisplay.Document.Json
