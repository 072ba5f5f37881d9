import ProcessDisplay.Decimal.Binary

/-!
# Exact remainders

The remainder of a binary division has the sign of the dividend and is a
binary value itself, so it is formed exactly: both magnitudes are brought to
the smaller of their exponents and divided as naturals.
-/

namespace ProcessDisplay.Decimal

/-- The binary64 value `mantissa * 2 ^ exponent`, for a value that has one. -/
def exactFloat (mantissa : Nat) (exponent : Int) : Float :=
  if mantissa = 0 then 0.0
  else
    let width := Nat.log2 mantissa
    let leading := exponent + width
    if leading > 1023 then 1.0 / 0.0
    else if leading ≥ -1022 then
      let full := if width ≥ 52 then mantissa >>> (width - 52) else mantissa <<< (52 - width)
      Float.ofBits (((leading + 1023).toNat <<< 52) + (full - 4503599627370496)).toUInt64
    else if exponent ≥ -1074 then
      Float.ofBits (mantissa <<< (exponent + 1074).toNat).toUInt64
    else Float.ofBits (mantissa >>> (-1074 - exponent).toNat).toUInt64

/-- The remainder of a division of numbers. -/
def remainder (x y : Float) : Float :=
  if x.isNaN || y.isNaN || x.isInf || y == 0.0 then 0.0 / 0.0
  else if y.isInf then x
  else
    let a := Binary.ofFloat x
    let b := Binary.ofFloat y
    let exponent := min a.exponent b.exponent
    let rest :=
      (a.mantissa <<< (a.exponent - exponent).toNat) %
        (b.mantissa <<< (b.exponent - exponent).toNat)
    let magnitude := exactFloat rest exponent
    if signBit x then -magnitude else magnitude

/-- The whole part of a number; the sign of a zero is kept. -/
def wholePart (x : Float) : Float := if x < 0.0 then x.ceil else x.floor

end ProcessDisplay.Decimal
