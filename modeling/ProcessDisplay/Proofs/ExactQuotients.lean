import Mathlib
import ProcessDisplay.Decimal.Binary

/-!
# Quotients as rational numbers

All digits and all intervals are chosen by arithmetic on quotients of
naturals. A quotient with a positive divisor is a rational number: the
operations on quotients are those of the rational numbers, its comparison is
their order, and rounding goes to a whole number that is nearest.
-/

namespace ProcessDisplay.Decimal

/-- The rational number of a finite magnitude. -/
def Binary.value (x : Binary) : ℚ := x.mantissa * 2 ^ x.exponent

namespace Quotient

/-- The rational number of a quotient. -/
def value (q : Quotient) : ℚ := q.num / q.den

variable {q : Quotient}

/-- A scaled number has a positive divisor. -/
theorem den_ofScaled_pos (scale : Nat) (exponent : Int) : 0 < (ofScaled scale exponent).den := by
  unfold ofScaled
  split
  · exact Nat.one_pos
  · rw [Nat.one_shiftLeft]
    positivity

/-- A power of ten leaves the divisor positive. -/
theorem den_perTen_pos (h : 0 < q.den) (power : Int) : 0 < (q.perTen power).den := by
  unfold perTen
  split
  · exact Nat.mul_pos h (Nat.pow_pos (by decide))
  · exact h

/-- A scaled number is a multiple of a power of two. -/
theorem value_ofScaled (scale : Nat) (exponent : Int) :
    (ofScaled scale exponent).value = scale * 2 ^ exponent := by
  unfold ofScaled value
  split
  · next hge =>
    obtain ⟨k, rfl⟩ := Int.eq_ofNat_of_zero_le hge
    simp [Nat.shiftLeft_eq]
  · next hlt =>
    obtain ⟨k, hk⟩ := Int.eq_ofNat_of_zero_le (a := -exponent) (by omega)
    obtain rfl : exponent = -(k : Int) := by omega
    simp [Nat.shiftLeft_eq, div_eq_mul_inv]

/-- A power of ten divides the number. -/
theorem value_perTen (q : Quotient) (power : Int) :
    (q.perTen power).value = q.value / 10 ^ power := by
  unfold perTen value
  split
  · next hge =>
    obtain ⟨k, rfl⟩ := Int.eq_ofNat_of_zero_le hge
    simp [div_div]
  · next hlt =>
    obtain ⟨k, hk⟩ := Int.eq_ofNat_of_zero_le (a := -power) (by omega)
    obtain rfl : power = -(k : Int) := by omega
    simp [div_eq_mul_inv, mul_right_comm]

/-- At most a half is rounded to zero. -/
theorem nearest_eq_zero_iff (h : 0 < q.den) : q.nearest = 0 ↔ 2 * q.value ≤ 1 := by
  have hvalue : 2 * q.value ≤ 1 ↔ 2 * q.num ≤ q.den := by
    have hden : (0 : ℚ) < q.den := by exact_mod_cast h
    rw [value, ← mul_div_assoc, div_le_one hden]
    exact_mod_cast Iff.rfl
  have hbelow : q.num < q.den ↔ q.num / q.den = 0 := by
    rw [Nat.div_eq_zero_iff, or_iff_right h.ne']
  have hrest : q.num < q.den → q.num % q.den = q.num := Nat.mod_eq_of_lt
  rw [hvalue]
  unfold nearest
  dsimp only
  generalize q.num / q.den = below at *
  generalize q.num % q.den = rest at *
  split
  · omega
  · split
    · omega
    · split <;> omega

end Quotient

end ProcessDisplay.Decimal
