/-!
# Approximate comparison of numbers

Two numbers are equal if their distance, relative to the larger one of them,
is at most the distance of one from the next number. A zero is compared by
the distance itself. Relative to an infinity there is no distance, so an
infinite number, like one that is not a number, is neither equal to a number
nor different from it nor ordered with it.
-/

namespace ProcessDisplay.Script.Approximate

/-- The distance of one from the next number, 2⁻⁵². -/
def tolerance : Float := Float.scaleB 1.0 (-52)

/-- What the distance of two numbers is measured by. -/
def scale (x y : Float) : Float :=
  if x * y == 0.0 then 1.0 else if x.abs < y.abs then y.abs else x.abs

/-- Whether two numbers are close to each other. -/
def equal (x y : Float) : Bool := (x - y).abs / scale x y ≤ tolerance

/-- Whether two numbers are apart. -/
def different (x y : Float) : Bool := tolerance < (x - y).abs / scale x y

/-- Whether a number is below another one and apart from it. -/
def less (x y : Float) : Bool := tolerance < (y - x) / scale x y

/-- Whether a number is not above another one and apart from it. -/
def lessEqual (x y : Float) : Bool := -tolerance < (y - x) / scale x y

end ProcessDisplay.Script.Approximate
