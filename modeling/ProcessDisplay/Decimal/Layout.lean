import ProcessDisplay.Decimal.Shortest

/-!
# Laying out selected digits

Digits are written either positionally or with one digit before the point
and an exponent. Every written form of this library is one of the records
below, so the decisions of a form stand in one place. Fixed places round the
exact binary value, a half to the even neighbour.
-/

namespace ProcessDisplay.Decimal

/-- The decimal digits of a natural. -/
def naturalText (n : Nat) : List Char := Nat.toDigits 10 n

/-- Zeros in a row. -/
def zeros (n : Nat) : List Char := List.replicate n '0'

/-- Digits in their places, with a point only where a fraction follows. -/
def Digits.positional (d : Digits) : List Char :=
  let text := naturalText d.digits
  if d.exponent ≥ 0 then text ++ zeros d.exponent.toNat
  else
    let places := (-d.exponent).toNat
    if text.length > places then
      text.take (text.length - places) ++ '.' :: text.drop (text.length - places)
    else '0' :: '.' :: (zeros (places - text.length) ++ text)

/-- The decimal exponent of the first digit. -/
def Digits.leading (d : Digits) : Int := d.exponent + (naturalText d.digits).length - 1

/-- An integer with a minus sign when it is negative. -/
def integerText (n : Int) : List Char :=
  if n < 0 then '-' :: naturalText n.natAbs else naturalText n.natAbs

/-- One digit before the point, and the exponent of that digit. -/
def Digits.scientific (d : Digits) : List Char :=
  let mantissa :=
    match naturalText d.digits with
    | [] => []
    | [only] => [only]
    | first :: rest => first :: '.' :: rest
  mantissa ++ 'e' :: integerText d.leading

/-- Whether a value is a whole number. -/
def Digits.isWhole (d : Digits) : Bool := d.exponent ≥ 0

/-- How a written form lays out a finite value. -/
structure Layout where
  /-- Values whose first digit has an exponent from here on are positional. -/
  plainFrom : Option Int
  /-- Values whose first digit has an exponent below this one are positional. -/
  plainBelow : Option Int
  /-- Whether a positional whole number keeps a point and a zero. -/
  wholePoint : Bool

/-- The positional form that never uses an exponent: `5`, `0.1`, `-0`. -/
def Layout.plain : Layout := ⟨none, none, false⟩

/-- The positional form in which a whole number keeps its point: `5.0`. -/
def Layout.pointed : Layout := ⟨none, none, true⟩

/-- The form of numbers inside a written list: `5.0`, `1e16`, `1e-5`. -/
def Layout.element : Layout := ⟨some (-4), some 16, true⟩

/-- Always one digit before the point: `1.5e300`. -/
def Layout.exponential : Layout := ⟨none, some (-100000), false⟩

/-- Whether a first digit with this exponent is written positionally. -/
def Layout.isPlain (layout : Layout) (leading : Int) : Bool :=
  (match layout.plainFrom with | some least => least ≤ leading | none => true) &&
    (match layout.plainBelow with | some bound => leading < bound | none => true)

/-- The text of a positive or zero magnitude. -/
def Layout.magnitude (layout : Layout) (x : Binary) : List Char :=
  if x.mantissa = 0 then if layout.wholePoint then ['0', '.', '0'] else ['0']
  else
    let d := x.shortest
    if layout.isPlain d.leading then
      d.positional ++ if layout.wholePoint && d.isWhole then ['.', '0'] else []
    else d.scientific

/-- The text of any value; the sign of a zero is shown. -/
def Layout.render (layout : Layout) (x : Float) : List Char :=
  if x.isNaN then ['N', 'a', 'N']
  else
    let magnitude := if x.isInf then ['i', 'n', 'f'] else layout.magnitude (Binary.ofFloat x)
    if signBit x then '-' :: magnitude else magnitude

/-- The text of a value in the form without exponents. -/
def plainText (x : Float) : String := String.ofList (Layout.plain.render x)

/-- A magnitude rounded to a fixed number of places after the point. -/
def Binary.places (x : Binary) (places : Nat) : List Char :=
  let scaled := ((Quotient.ofScaled x.mantissa x.exponent).perTen (-(places : Int))).nearest
  let text := naturalText scaled
  if places = 0 then text
  else
    let full := zeros (places + 1 - text.length) ++ text
    full.take (full.length - places) ++ '.' :: full.drop (full.length - places)

/-- The text of a value with a fixed number of places; the sign of a value
that rounds to zero is kept. -/
def fixedText (places : Nat) (x : Float) : String :=
  if x.isNaN || x.isInf then plainText x
  else
    let magnitude := (Binary.ofFloat x).places places
    String.ofList (if signBit x then '-' :: magnitude else magnitude)

end ProcessDisplay.Decimal
