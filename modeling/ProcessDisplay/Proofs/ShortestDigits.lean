import ProcessDisplay.Decimal.Shortest
import ProcessDisplay.Proofs.DecimalReadings

/-!
# Shortest digits read back

The digits that are chosen for a finite number lie in its interval, whether the
search among few digits finds them or the exact value stands in. So they are
read as the number that they were chosen for.
-/

namespace ProcessDisplay.Decimal

open Float.Model Float.Model.UnpackedFloat

section Floats

variable {x : Float}

/-- The magnitude of a finite number that is not zero, with its digits and its exponent. -/
theorem ofFloat_parts (x : Float) :
    (Binary.ofFloat x).mantissa = Trace.significand (Trace.magnitude x.toBits) ∧
      (Binary.ofFloat x).exponent = (Trace.biased (Trace.magnitude x.toBits) : Int) - 1075 ∧
      ((Binary.ofFloat x).narrowBelow = true ↔
        Trace.magnitude x.toBits % 0x10000000000000 = 0 ∧
          1 < Trace.magnitude x.toBits / 0x10000000000000) := by
  have hlt := x.toBits.toNat_lt
  have hbiased : ((x.toBits >>> 52) &&& 0x7FF).toNat =
      Trace.magnitude x.toBits / 0x10000000000000 := by
    rw [UInt64.toNat_and, UInt64.toNat_shiftRight]
    have hmask : (0x7FF : UInt64).toNat = 2 ^ 11 - 1 := rfl
    have hplaces : (52 : UInt64).toNat % 64 = 52 := rfl
    rw [hmask, hplaces, Nat.and_two_pow_sub_one_eq_mod, Nat.shiftRight_eq_div_pow]
    unfold Trace.magnitude
    omega
  have hfraction : (x.toBits &&& 0xFFFFFFFFFFFFF).toNat =
      Trace.magnitude x.toBits % 0x10000000000000 := by
    rw [UInt64.toNat_and]
    have hmask : (0xFFFFFFFFFFFFF : UInt64).toNat = 2 ^ 52 - 1 := rfl
    rw [hmask, Nat.and_two_pow_sub_one_eq_mod]
    unfold Trace.magnitude
    omega
  unfold Binary.ofFloat
  dsimp only
  rw [hbiased, hfraction]
  unfold Trace.significand Trace.biased
  generalize Trace.magnitude x.toBits = a
  split
  · next hzero =>
    refine ⟨?_, ?_, iff_of_false Bool.false_ne_true ?_⟩
    · dsimp only
      omega
    · dsimp only
      omega
    · omega
  · next hnormal =>
    refine ⟨?_, ?_, by simp⟩
    · dsimp only
      omega
    · dsimp only
      omega

/-- The magnitude of a finite number that is not zero is in its form. -/
theorem proper_ofFloat (hpos : Trace.magnitude x.toBits ≠ 0)
    (hlt : Trace.magnitude x.toBits < Trace.infinite) : (Binary.ofFloat x).Proper := by
  have hinfinite : Trace.infinite = 0x7FF0000000000000 := rfl
  obtain ⟨hmantissa, hexponent, hnarrow⟩ := ofFloat_parts x
  have hsome := Trace.significand_pos hpos
  generalize Trace.magnitude x.toBits = a at *
  have hbiased : Trace.biased a = max (a / 0x10000000000000) 1 := rfl
  have hsignificand : Trace.significand a = a - (Trace.biased a - 1) * 0x10000000000000 := rfl
  constructor
  · omega
  · omega
  · omega
  · omega
  · omega
  · rw [hnarrow, hmantissa, hexponent]
    omega

/-- The float of a magnitude has its bits. -/
theorem toNat_toBits_toFloat (hpos : Trace.magnitude x.toBits ≠ 0)
    (hlt : Trace.magnitude x.toBits < Trace.infinite) :
    ((Binary.ofFloat x).toFloat (proper_ofFloat hpos hlt)).toBits.toNat =
      Trace.magnitude x.toBits := by
  obtain ⟨hmantissa, hexponent, -⟩ := ofFloat_parts x
  have hpacked := Trace.toNat_pack_finite hpos hlt .positive
  change (UnpackedFloat.pack .binary64 (.finite .positive
    (Binary.ofFloat x).mantissa (Binary.ofFloat x).exponent (proper_ofFloat hpos hlt).pos)).toNat =
      _
  simp only [hmantissa, hexponent]
  rw [hpacked]
  exact Nat.zero_add _

end Floats

section Signs

variable {x y : Float}

/-- A float is infinite exactly if its magnitude is. -/
theorem isInf_iff (x : Float) : x.isInf = true ↔ Trace.magnitude x.toBits = Trace.infinite := by
  change (UnpackedFloat.unpack .binary64 x.toBits.toBitVec).isInf = true ↔ _
  rw [Trace.unpack_eq]
  by_cases h : Trace.infinite < Trace.magnitude x.toBits
  · rw [Trace.numberOf, if_pos h]
    exact iff_of_false Bool.false_ne_true h.ne'
  · rcases Trace.numberOf_cases (Nat.le_of_not_lt h) (Trace.signOf x.toBits) with
      ⟨ha, hnumber⟩ | ⟨ha, hnumber⟩ | ⟨_, hlt, hnumber⟩
    · rw [hnumber]
      exact iff_of_true rfl ha
    · rw [hnumber, ha]
      exact iff_of_false Bool.false_ne_true (by decide)
    · rw [hnumber]
      exact iff_of_false Bool.false_ne_true hlt.ne

/-- A sign is told by the first bit. -/
theorem signBit_eq (x : Float) : signBit x = decide (0x8000000000000000 ≤ x.toBits.toNat) := by
  have hlt := x.toBits.toNat_lt
  have hfirst : (x.toBits >>> 63).toNat = x.toBits.toNat / 0x8000000000000000 := by
    rw [UInt64.toNat_shiftRight, Nat.shiftRight_eq_div_pow]
    rfl
  have hone : (1 : UInt64).toNat = 1 := rfl
  unfold signBit
  rw [Bool.eq_iff_iff, decide_eq_true_iff, decide_eq_true_iff, ← UInt64.toNat_inj, hfirst, hone]
  omega

/-- A minus sign changes the sign only. -/
theorem neg_numberOf (a : Nat) :
    (Trace.numberOf .positive a).neg = Trace.numberOf .negative a := by
  unfold Trace.numberOf
  by_cases hnan : Trace.infinite < a
  · rw [if_pos hnan, if_pos hnan]
    rfl
  · rw [if_neg hnan, if_neg hnan]
    by_cases hlast : a = Trace.infinite
    · rw [if_pos hlast, if_pos hlast]
      rfl
    · rw [if_neg hlast, if_neg hlast]
      by_cases hzero : a = 0
      · rw [dif_pos hzero, dif_pos hzero]
        rfl
      · rw [dif_neg hzero, dif_neg hzero]
        rfl

/-- The float of a magnitude, with the sign of a number that has this magnitude, is this number. -/
theorem signed_eq (hy : y.toBits.toNat = Trace.magnitude x.toBits)
    (hle : Trace.magnitude x.toBits ≤ Trace.infinite) : (if signBit x then -y else y) = x := by
  have hlt := x.toBits.toNat_lt
  have hinfinite : Trace.infinite = 0x7FF0000000000000 := rfl
  refine Trace.eq_of_toBits_eq (UInt64.toNat_inj.mp ?_)
  rw [signBit_eq]
  by_cases hsign : 0x8000000000000000 ≤ x.toBits.toNat
  · have hpositive : Trace.signOf y.toBits = .positive := if_pos (by omega)
    have hmagnitude : Trace.magnitude y.toBits = Trace.magnitude x.toBits := by
      rw [← hy]
      exact Nat.mod_eq_of_lt (by omega)
    rw [decide_eq_true hsign, if_pos rfl]
    change (UnpackedFloat.pack .binary64 (UnpackedFloat.unpack .binary64
      y.toBits.toBitVec).neg).toNat = _
    have hone : Sign.negative.toBitVec.toNat = 1 := rfl
    rw [Trace.unpack_eq, hpositive, hmagnitude, neg_numberOf, Trace.toNat_pack_numberOf hle, hone]
    unfold Trace.magnitude
    omega
  · rw [decide_eq_false hsign, if_neg Bool.false_ne_true, hy]
    exact Nat.mod_eq_of_lt (by omega)

/-- The bits of infinity. -/
theorem toBits_infinity : (1.0 / 0.0 : Float).toBits.toNat = Trace.infinite := by
  rfl

end Signs

section Intervals

variable {x : Binary} {d : Digits}

/-- The rational number of a decimal. -/
def Digits.value (d : Digits) : ℚ := d.digits * 10 ^ d.exponent

/-- Quotients compare as their rational numbers do. -/
theorem Quotient.compare_eq {a b : Quotient} (ha : 0 < a.den) (hb : 0 < b.den) :
    (a.compare b = .lt ↔ a.value < b.value) ∧ (a.compare b = .eq ↔ a.value = b.value) ∧
      (a.compare b = .gt ↔ b.value < a.value) := by
  have hleft : (0 : ℚ) < a.den := by exact_mod_cast ha
  have hright : (0 : ℚ) < b.den := by exact_mod_cast hb
  unfold Quotient.compare Quotient.value
  rw [Nat.compare_eq_lt, Nat.compare_eq_eq, Nat.compare_eq_gt, div_lt_div_iff₀ hleft hright,
    div_eq_div_iff hleft.ne' hright.ne', div_lt_div_iff₀ hright hleft]
  exact ⟨by exact_mod_cast Iff.rfl, by exact_mod_cast Iff.rfl, by exact_mod_cast Iff.rfl⟩

/-- A decimal passes the test of a magnitude exactly if the interval of the
magnitude holds it. -/
theorem readsBack_iff (hx : x.Proper) : x.readsBack d = true ↔ x.Holds d.value := by
  have hvalue : ((Quotient.mk d.digits 1).perTen (-d.exponent)).value = d.value := by
    rw [Quotient.value_perTen, Quotient.value, Nat.cast_one, div_one, zpow_neg, div_inv_eq_mul]
    rfl
  have hlow : (Quotient.ofScaled (4 * x.mantissa - if x.narrowBelow then 1 else 2)
      (x.exponent - 2)).value = x.low := by
    have hpos := hx.pos
    rw [Quotient.value_ofScaled, Binary.low]
    congr 1
    split
    · rw [Nat.cast_sub (by omega)]
      push_cast
      rfl
    · rw [Nat.cast_sub (by omega)]
      push_cast
      rfl
  have hhigh : (Quotient.ofScaled (4 * x.mantissa + 2) (x.exponent - 2)).value = x.high := by
    rw [Quotient.value_ofScaled, Binary.high]
    push_cast
    rfl
  have hden : 0 < ((Quotient.mk d.digits 1).perTen (-d.exponent)).den :=
    Quotient.den_perTen_pos Nat.one_pos _
  have habove := Quotient.compare_eq hden (Quotient.den_ofScaled_pos
    (4 * x.mantissa - if x.narrowBelow then 1 else 2) (x.exponent - 2))
  have hbelow := Quotient.compare_eq hden
    (Quotient.den_ofScaled_pos (4 * x.mantissa + 2) (x.exponent - 2))
  rw [hvalue, hlow] at habove
  rw [hvalue, hhigh] at hbelow
  unfold Binary.readsBack
  dsimp only
  simp only [Bool.and_eq_true, Bool.or_eq_true, decide_eq_true_iff, habove, hbelow]
  constructor
  · rintro ⟨hl, hh⟩
    constructor
    · rcases hl with hl | hl
      · exact hl.le
      · exact hl.2.ge
    · rcases hh with hh | hh
      · exact hh.le
      · exact hh.2.le
    · rintro (heq | heq)
      · exact (hl.resolve_left heq.not_gt).1
      · exact (hh.resolve_left heq.not_lt).1
  · rintro ⟨hl, hh, heven⟩
    constructor
    · rcases hl.lt_or_eq with hl | hl
      · exact .inl hl
      · exact .inr ⟨heven (.inl hl.symm), hl.symm⟩
    · rcases hh.lt_or_eq with hh | hh
      · exact .inl hh
      · exact .inr ⟨heven (.inr hh), hh⟩

/-- Whatever the search on a grid finds passes the test. -/
theorem readsBack_of_onGrid {grid : Int} (h : x.onGrid grid = some d) : x.readsBack d = true := by
  unfold Binary.onGrid at h
  dsimp only at h
  split at h
  · next hlower hupper =>
    split at h <;> cases h
    · exact hlower
    · exact hupper
  · next hlower _ =>
    cases h
    exact hlower
  · next hupper =>
    cases h
    exact hupper
  · cases h

/-- Zeros that are moved into the exponent do not change a decimal. -/
theorem value_strip (fuel : Nat) (d : Digits) : (d.strip fuel).value = d.value := by
  induction fuel generalizing d with
  | zero => rfl
  | succ fuel ih =>
    rw [Digits.strip]
    split
    · next h =>
      have hdigits : (d.digits : ℚ) = 10 * (d.digits / 10 : Nat) := by
        exact_mod_cast (Nat.mul_div_cancel' (Nat.dvd_of_mod_eq_zero h.2)).symm
      rw [ih, Digits.value, Digits.value, zpow_add_one₀ (by norm_num), hdigits]
      dsimp only
      ring
    · rfl

/-- The interval of a magnitude holds its value. -/
theorem holds_value (x : Binary) : x.Holds x.value := by
  have hpos : (0 : ℚ) < 2 ^ (x.exponent - 2) := by positivity
  have hgrid : (2 : ℚ) ^ x.exponent = 2 ^ 2 * 2 ^ (x.exponent - 2) := zpow_shift 2 (by omega)
  have hvalue : x.value = 4 * x.mantissa * 2 ^ (x.exponent - 2) := by
    rw [Binary.value, hgrid]
    ring
  have hlow : x.low < x.value := by
    rw [Binary.low, hvalue]
    refine mul_lt_mul_of_pos_right ?_ hpos
    split <;> linarith
  have hhigh : x.value < x.high := by
    rw [Binary.high, hvalue]
    exact mul_lt_mul_of_pos_right (by linarith) hpos
  exact ⟨hlow.le, hhigh.le, fun h => absurd h (not_or.mpr ⟨hlow.ne', hhigh.ne⟩)⟩

/-- A binary number is a decimal, since every half has one more place. -/
theorem value_exact (x : Binary) :
    (if x.exponent ≥ 0 then ⟨x.mantissa <<< x.exponent.toNat, 0⟩
      else ⟨x.mantissa * Nat.pow 5 (-x.exponent).toNat, x.exponent⟩ : Digits).value = x.value := by
  unfold Digits.value Binary.value
  split
  · next hge =>
    obtain ⟨k, hk⟩ := Int.eq_ofNat_of_zero_le hge
    simp [hk, Nat.shiftLeft_eq]
  · next hlt =>
    obtain ⟨k, hk⟩ := Int.eq_ofNat_of_zero_le (a := -x.exponent) (by omega)
    have hexponent : x.exponent = -(k : Int) := by omega
    have hten : (10 : ℚ) = 5 * 2 := by norm_num
    have hfive : ((Nat.pow 5 k : Nat) : ℚ) = 5 ^ k := Nat.cast_pow 5 k
    rw [hk, hexponent, hten, zpow_neg, zpow_neg, zpow_natCast, zpow_natCast, mul_pow,
      Int.toNat_natCast, Nat.cast_mul, hfive]
    field_simp

/-- The digits that are chosen for a magnitude lie in its interval. -/
theorem holds_shortest (hx : x.Proper) : x.Holds x.shortest.value := by
  unfold Binary.shortest
  dsimp only
  rw [value_strip]
  cases hfound : (List.range 17).findSome? fun n : Nat => x.onGrid (x.leading - n) with
  | some d =>
    obtain ⟨n, -, hgrid⟩ := List.exists_of_findSome?_eq_some hfound
    exact (readsBack_iff hx).mp (readsBack_of_onGrid hgrid)
  | none =>
    rw [Option.getD_none, value_exact]
    exact holds_value x

/-- The digits of a magnitude are no zero. -/
theorem digits_shortest_ne_zero (hx : x.Proper) : x.shortest.digits ≠ 0 := by
  intro hnone
  have hbounds := ((holds_shortest hx).bounds hx).1
  rw [Digits.value, hnone, Nat.cast_zero, zero_mul] at hbounds
  exact absurd hbounds (not_le.mpr (by positivity))

end Intervals

end ProcessDisplay.Decimal
