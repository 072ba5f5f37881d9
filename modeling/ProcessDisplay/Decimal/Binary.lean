/-!
# Finite binary values as exact numbers

A finite binary64 value is read as a sign and a natural mantissa times a
power of two. All printing starts from this exact value, so digits are
selected by natural arithmetic alone. NaN and the infinities have no such
value and are told apart before.
-/

namespace ProcessDisplay.Decimal

/-- The magnitude `mantissa * 2 ^ exponent` of a finite binary64 value. -/
structure Binary where
  /-- The integer mantissa, with the hidden bit of a normal value. -/
  mantissa : Nat
  /-- The power of two that scales the mantissa. -/
  exponent : Int
  /-- Whether the gap to the next smaller value is half the gap to the next larger one. -/
  narrowBelow : Bool
  deriving DecidableEq, Repr

/-- The magnitude of a finite value; the sign bit is ignored. -/
def Binary.ofFloat (x : Float) : Binary :=
  let bits := x.toBits
  let biased := ((bits >>> 52) &&& 0x7FF).toNat
  let fraction := (bits &&& 0xFFFFFFFFFFFFF).toNat
  if biased = 0 then ⟨fraction, -1074, false⟩
  else ⟨fraction + 4503599627370496, (biased : Int) - 1075, fraction = 0 && biased > 1⟩

/-- Whether the sign bit is set, also for a negative zero. -/
def signBit (x : Float) : Bool := x.toBits >>> 63 = 1

/-- An exact non-negative quotient of two naturals. -/
structure Quotient where
  /-- The dividend. -/
  num : Nat
  /-- The divisor, positive wherever a quotient is built here. -/
  den : Nat

/-- The exact value `scale * 2 ^ exponent` as a quotient. -/
def Quotient.ofScaled (scale : Nat) (exponent : Int) : Quotient :=
  if exponent ≥ 0 then ⟨scale <<< exponent.toNat, 1⟩ else ⟨scale, 1 <<< (-exponent).toNat⟩

/-- A quotient divided by a power of ten. -/
def Quotient.perTen (q : Quotient) (power : Int) : Quotient :=
  if power ≥ 0 then ⟨q.num, q.den * Nat.pow 10 power.toNat⟩
  else ⟨q.num * Nat.pow 10 (-power).toNat, q.den⟩

/-- Comparison of two quotients with positive divisors by cross multiplication. -/
def Quotient.compare (a b : Quotient) : Ordering := Ord.compare (a.num * b.den) (b.num * a.den)

/-- The largest natural below or at a quotient. -/
def Quotient.floor (q : Quotient) : Nat := q.num / q.den

/-- The natural nearest to a quotient; a half goes to the even neighbour. -/
def Quotient.nearest (q : Quotient) : Nat :=
  let below := q.num / q.den
  let twice := 2 * (q.num % q.den)
  if twice < q.den then below
  else if twice > q.den then below + 1
  else if below % 2 = 0 then below else below + 1

end ProcessDisplay.Decimal
