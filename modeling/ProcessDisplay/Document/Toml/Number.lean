import ProcessDisplay.Decimal.Reading
import ProcessDisplay.Document.Node
import ProcessDisplay.Text.Blank
import ProcessDisplay.Text.Hex
import ProcessDisplay.Value.Basic

/-!
# Numbers, truth values and dates in TOML

Digits may be separated by single underscores. A whole number has 64 bits
and a sign; it may be written in another radix, without a sign. Dates are
checked but have no use here: a date counts as a table with one entry.
-/

namespace ProcessDisplay.Document.Toml

/-- Digits without their separators; every separator stands between two digits. -/
def separated? (isDigit : Char → Bool) : List Char → Option (List Char)
  | [] => none
  | [c] => if isDigit c then some [c] else none
  | c :: '_' :: rest =>
    if isDigit c then (separated? isDigit rest).map (c :: ·) else none
  | c :: rest => if isDigit c then (separated? isDigit rest).map (c :: ·) else none

/-- The digits of a number before a point: no zero comes first but a single one. -/
def wholeDigits? (cs : List Char) : Option (List Char) :=
  (separated? Char.isDigit cs).bind fun digits =>
    if digits.head? = some '0' && digits.length > 1 then none else some digits

/-- A sign at the front, true for minus, and what follows it. -/
def signed (cs : List Char) : Bool × List Char :=
  match cs with
  | '-' :: rest => (true, rest)
  | '+' :: rest => (false, rest)
  | _ => (false, cs)

/-- Whether a number has 64 bits and a sign. -/
def isWhole (n : Int) : Bool := Value.isInteger n

/-- The node of a whole number that is in range. -/
def wholeNode? (n : Int) : Option Node := if isWhole n then some (.integer n) else none

/-- A whole number in decimal digits. -/
def decimal? (cs : List Char) : Option Node := do
  let (negative, rest) := signed cs
  let n : Int := Decimal.digitsValue (← wholeDigits? rest)
  wholeNode? (if negative then -n else n)

/-- A whole number in the digits of another radix. -/
def inRadix? (radix : Nat) (cs : List Char) : Option Node := do
  let isDigit (c : Char) : Bool :=
    match Text.hexValue? c with
    | some value => value < radix
    | none => false
  let digits ← separated? isDigit cs
  wholeNode? (digits.foldl (fun n c => radix * n + (Text.hexValue? c).getD 0) 0 : Nat)

/-- The characters of an exponent after its mark. -/
def exponent? (cs : List Char) : Option (List Char) :=
  match cs with
  | '+' :: rest => (separated? Char.isDigit rest).map ('+' :: ·)
  | '-' :: rest => (separated? Char.isDigit rest).map ('-' :: ·)
  | _ => separated? Char.isDigit cs

/-- Whether a character begins an exponent. -/
def isExponentMark (c : Char) : Bool := c = 'e' || c = 'E'

/-- The characters of a fraction and an exponent, of which there is at least one. -/
def tail? (cs : List Char) : Option (List Char) :=
  let fraction := cs.takeWhile fun c => !isExponentMark c
  let exponent := cs.dropWhile fun c => !isExponentMark c
  let fraction? :=
    match fraction with
    | [] => some []
    | '.' :: digits => (separated? Char.isDigit digits).map ('.' :: ·)
    | _ => none
  let exponent? :=
    match exponent with
    | [] => some []
    | _ :: digits => (exponent? digits).map ('e' :: ·)
  match fraction?, exponent? with
  | some f, some e => if f.isEmpty && e.isEmpty then none else some (f ++ e)
  | _, _ => none

/-- A number with a fraction or an exponent, or a special one. A number
beyond the greatest one is refused. -/
def float? (cs : List Char) : Option Node := do
  let (negative, rest) := signed cs
  let sign (x : Float) : Float := if negative then -x else x
  if rest = "inf".toList then return .number (sign (1.0 / 0.0))
  if rest = "nan".toList then return .number (0.0 / 0.0)
  let isWholePart (c : Char) : Bool := c.isDigit || c = '_'
  let whole ← wholeDigits? (rest.takeWhile isWholePart)
  let tail ← tail? (rest.dropWhile isWholePart)
  let x ← Decimal.number? (whole ++ tail)
  if x.isInf && !negative then none else some (.number (sign x))

/-- The number that exactly so many digits write. -/
def fixed? (width : Nat) (cs : List Char) : Option Nat :=
  if cs.length = width && cs.all Char.isDigit then some (Decimal.digitsValue cs) else none

/-- Whether a year has a leap day. -/
def isLeap (year : Nat) : Bool := year % 4 = 0 && (year % 100 ≠ 0 || year % 400 = 0)

/-- The number of days of a month. -/
def monthDays (year month : Nat) : Nat :=
  if month = 2 then (if isLeap year then 29 else 28)
  else if month = 4 || month = 6 || month = 9 || month = 11 then 30
  else 31

/-- Whether characters write a day. -/
def isDay (cs : List Char) : Bool :=
  match Text.pieces '-' cs with
  | [year, month, day] =>
    match fixed? 4 year, fixed? 2 month, fixed? 2 day with
    | some y, some m, some d => 1 ≤ m && m ≤ 12 && 1 ≤ d && d ≤ monthDays y m
    | _, _, _ => false
  | _ => false

/-- Whether characters write a time of a day. -/
def isTime (cs : List Char) : Bool :=
  let (seconds, fraction) := (cs.takeWhile (· ≠ '.'), cs.dropWhile (· ≠ '.'))
  let isFraction :=
    match fraction with
    | [] => true
    | _ :: digits => !digits.isEmpty && digits.all Char.isDigit
  match Text.pieces ':' seconds with
  | [hour, minute, second] =>
    match fixed? 2 hour, fixed? 2 minute, fixed? 2 second with
    | some h, some m, some s => h < 24 && m < 60 && s ≤ 60 && isFraction
    | _, _, _ => false
  | _ => false

/-- Whether characters write the offset of a time zone. -/
def isOffset (cs : List Char) : Bool :=
  match cs with
  | [] => true
  | [c] => c = 'z' || c = 'Z'
  | sign :: rest =>
    (sign = '+' || sign = '-') &&
      match Text.pieces ':' rest with
      | [hour, minute] =>
        match fixed? 2 hour, fixed? 2 minute with
        | some h, some m => h < 24 && m < 60
        | _, _ => false
      | _ => false

/-- Whether characters write a time of a day with an offset or without one. -/
def isZonedTime (cs : List Char) : Bool :=
  let isTimePart (c : Char) : Bool := c.isDigit || c = ':' || c = '.'
  isTime (cs.takeWhile isTimePart) && isOffset (cs.dropWhile isTimePart)

/-- The length of a day. -/
def dayWidth : Nat := 10

/-- Whether characters write a day, a time or both. -/
def isDate (cs : List Char) : Bool :=
  isDay cs || isTime cs ||
    (isDay (cs.take dayWidth) &&
      match cs.drop dayWidth with
      | mark :: time => (mark = 'T' || mark = 't' || mark = ' ') && isZonedTime time
      | [] => false)

/-- The node of a date. -/
def dateNode (cs : List Char) : Node := .table [("date", .text (String.ofList cs))]

/-- Whether a character ends a value that is not quoted. -/
def endsWord (c : Char) : Bool :=
  c = ' ' || c = '\t' || c = '\n' || c = '\r' || c = ',' || c = ']' || c = '\x7d' || c = '#'

/-- A value that is not quoted. -/
def word? (cs : List Char) : Option Node :=
  if cs = "true".toList then some (.bool true)
  else if cs = "false".toList then some (.bool false)
  else if isDate cs then some (dateNode cs)
  else
    match cs with
    | '0' :: 'x' :: digits => inRadix? 16 digits
    | '0' :: 'o' :: digits => inRadix? 8 digits
    | '0' :: 'b' :: digits => inRadix? 2 digits
    | _ => (decimal? cs).or (float? cs)

/-- A value that is not quoted at the front, and what follows it. A blank may
stand between a day and a time. -/
def wordAt? (cs : List Char) : Option (Node × List Char) :=
  let word := cs.takeWhile fun c => !endsWord c
  let rest := cs.dropWhile fun c => !endsWord c
  let both :=
    match rest with
    | ' ' :: more => word ++ ' ' :: more.takeWhile fun c => !endsWord c
    | _ => word
  if isDay word && isDate both then some (dateNode both, cs.drop both.length)
  else (word? word).map (·, rest)

end ProcessDisplay.Document.Toml
