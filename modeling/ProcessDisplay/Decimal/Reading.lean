import ProcessDisplay.Text.Blank

/-!
# Reading decimal numbers

A written number is an optional sign, then either one of the words `inf`,
`infinity` and `nan` in any letter case, or digits with an optional point
and an optional exponent. At least one digit must stand before or after the
point. The result is the binary value nearest to the written one, with ties
to even; beyond the largest value it is infinite.
-/

namespace ProcessDisplay.Decimal

/-- The value of a decimal digit. -/
def digitValue (c : Char) : Nat := c.toNat - '0'.toNat

/-- The natural written by a row of decimal digits. -/
def digitsValue (digits : List Char) : Nat := digits.foldl (fun n c => 10 * n + digitValue c) 0

/-- The binary value nearest to `mantissa * 10 ^ exponent`. Exponents far
outside the range of binary64 are settled before any power is formed. -/
def nearestFloat (mantissa : Nat) (exponent : Int) : Float :=
  if mantissa = 0 then 0.0
  else
    let leading := exponent + (Nat.toDigits 10 mantissa).length
    if leading > 400 then 1.0 / 0.0
    else if leading < -400 then 0.0
    else if exponent ≥ 0 then Float.ofScientific mantissa false exponent.toNat
    else Float.ofScientific mantissa true (-exponent).toNat

/-- The exponent part after the mantissa: nothing, or a mark, an optional sign and digits. -/
def exponentPart : List Char → Option Int
  | [] => some 0
  | mark :: rest =>
    if mark = 'e' || mark = 'E' then
      let (negative, digits) :=
        match rest with
        | '+' :: digits => (false, digits)
        | '-' :: digits => (true, digits)
        | digits => (false, digits)
      if !digits.isEmpty && digits.all Char.isDigit then
        some (if negative then -(digitsValue digits : Int) else digitsValue digits)
      else none
    else none

/-- A number without its sign. -/
def unsigned? (cs : List Char) : Option Float :=
  let lower := cs.map Char.toLower
  if lower = "inf".toList || lower = "infinity".toList then some (1.0 / 0.0)
  else if lower = "nan".toList then some (0.0 / 0.0)
  else
    let whole := cs.takeWhile Char.isDigit
    let rest := cs.dropWhile Char.isDigit
    let (fraction, rest) :=
      match rest with
      | '.' :: more => (more.takeWhile Char.isDigit, more.dropWhile Char.isDigit)
      | _ => ([], rest)
    if whole.isEmpty && fraction.isEmpty then none
    else
      (exponentPart rest).map fun exponent =>
        nearestFloat (digitsValue (whole ++ fraction)) (exponent - fraction.length)

/-- The number written by all of the characters. -/
def number? (cs : List Char) : Option Float :=
  match cs with
  | '+' :: rest => unsigned? rest
  | '-' :: rest => (unsigned? rest).map fun x => -x
  | _ => unsigned? cs

/-- The natural written by all of the characters, with an optional plus sign. -/
def natural? (cs : List Char) : Option Nat :=
  let digits := match cs with | '+' :: rest => rest | _ => cs
  if !digits.isEmpty && digits.all Char.isDigit then some (digitsValue digits) else none

end ProcessDisplay.Decimal
