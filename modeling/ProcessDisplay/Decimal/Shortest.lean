import ProcessDisplay.Decimal.Binary

/-!
# The fewest digits that read back

The reals that round to a finite binary value form an interval around it;
its ends belong to it exactly when the mantissa is even. For one digit, two
digits and so on, the two neighbours of the value on that decimal grid are
tested against the interval. The first grid with a hit wins, of two hits the
nearer one, and of two equally near hits the upper one.
-/

namespace ProcessDisplay.Decimal

/-- The decimal `digits * 10 ^ exponent`. -/
structure Digits where
  /-- All digits as one natural. -/
  digits : Nat
  /-- The power of ten that scales the last digit. -/
  exponent : Int
  deriving DecidableEq, Repr

/-- Whether a decimal lies among the reals that round to the binary value. -/
def Binary.readsBack (x : Binary) (d : Digits) : Bool :=
  let low := Quotient.ofScaled (4 * x.mantissa - if x.narrowBelow then 1 else 2) (x.exponent - 2)
  let high := Quotient.ofScaled (4 * x.mantissa + 2) (x.exponent - 2)
  let value := (Quotient.mk d.digits 1).perTen (-d.exponent)
  let closed := x.mantissa % 2 = 0
  let aboveLow := value.compare low
  let belowHigh := value.compare high
  (aboveLow = .gt || (closed && aboveLow = .eq)) && (belowHigh = .lt || (closed && belowHigh = .eq))

/-- The decimal exponent of the leading digit of a positive value: an
estimate from the binary logarithm, corrected by exact comparison. -/
def Binary.leading (x : Binary) : Int :=
  let value := Quotient.ofScaled x.mantissa x.exponent
  let estimate := ((Nat.log2 x.mantissa : Int) + x.exponent) * 30103 / 100000
  let reaches (power : Int) : Bool := (value.perTen power).compare ⟨1, 1⟩ ≠ .lt
  if reaches (estimate + 1) then estimate + 1
  else if reaches estimate then estimate
  else estimate - 1

/-- The neighbour of a value on one decimal grid that reads back, if any. -/
def Binary.onGrid (x : Binary) (grid : Int) : Option Digits :=
  let scaled := (Quotient.ofScaled x.mantissa x.exponent).perTen grid
  let below := scaled.floor
  let lower : Digits := ⟨below, grid⟩
  let upper : Digits := ⟨below + 1, grid⟩
  match x.readsBack lower, x.readsBack upper with
  | true, true =>
    if Quotient.compare ⟨2 * scaled.num, scaled.den⟩ ⟨2 * below + 1, 1⟩ = .lt then some lower
    else some upper
  | true, false => some lower
  | false, true => some upper
  | false, false => none

/-- Trailing zeros moved from the digits into the exponent, at most a given number of them. -/
def Digits.strip : Nat → Digits → Digits
  | 0, d => d
  | fuel + 1, d =>
    if d.digits ≠ 0 ∧ d.digits % 10 = 0 then strip fuel ⟨d.digits / 10, d.exponent + 1⟩ else d

/-- The decimal with the fewest digits that reads back as a positive value;
seventeen digits suffice, and the exact value would stand in for a miss. -/
def Binary.shortest (x : Binary) : Digits :=
  let lead := x.leading
  let found := (List.range 17).findSome? fun n : Nat => x.onGrid (lead - n)
  let exact : Digits :=
    if x.exponent ≥ 0 then ⟨x.mantissa <<< x.exponent.toNat, 0⟩
    else ⟨x.mantissa * Nat.pow 5 (-x.exponent).toNat, x.exponent⟩
  (found.getD exact).strip 400

end ProcessDisplay.Decimal
