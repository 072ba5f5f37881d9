import Mathlib

/-!
# Whole numbers among floats

A whole number below 2⁵³ has a float of its own, which is brought into its
normal form without rounding, wherever its value comes from. So one added to
the float of such a number gives the float of the next one.
-/

namespace ProcessDisplay.Whole

open Float.Model Float.Model.UnpackedFloat

variable {n : Nat}

/-- The leading digit of a number moves with its other digits. -/
theorem log2_mul_two_pow (hn : n ≠ 0) (k : Nat) : (n * 2 ^ k).log2 = n.log2 + k := by
  have hpos : 0 < 2 ^ k := Nat.two_pow_pos k
  refine (Nat.log2_eq_iff (Nat.mul_ne_zero hn (Nat.ne_of_gt hpos))).mpr ⟨?_, ?_⟩
  · rw [Nat.pow_add]
    exact Nat.mul_le_mul_right _ (Nat.log2_self_le hn)
  · rw [Nat.add_right_comm, Nat.pow_add]
    exact (Nat.mul_lt_mul_right hpos).mpr Nat.lt_log2_self

/-- The leading digit of a number below 2⁵³. -/
theorem log2_le (hn : n ≠ 0) (hlt : n < 2 ^ 53) : n.log2 ≤ 52 :=
  Nat.le_of_lt_succ ((Nat.log2_lt hn).mpr hlt)

/-- The digits of a whole number in its normal form. -/
def digits (n : Nat) : Nat := n * 2 ^ (52 - n.log2)

/-- The exponent of a whole number in its normal form. -/
def exponent (n : Nat) : Int := n.log2 - 52

/-- The leading digit of the normal form. -/
theorem log2_digits (hn : n ≠ 0) (hlt : n < 2 ^ 53) : (digits n).log2 = 52 := by
  have := log2_le hn hlt
  rw [digits, log2_mul_two_pow hn]
  omega

/-- A number has digits. -/
theorem digits_pos (hn : n ≠ 0) : 0 < digits n :=
  Nat.mul_pos (Nat.pos_of_ne_zero hn) (Nat.two_pow_pos _)

/-- The normal form of a whole number. -/
def normalForm (n : Nat) (hn : n ≠ 0) : UnpackedFloat :=
  .finite .positive (digits n) (exponent n) (digits_pos hn)

/-- The exponent of the normal form depends on the number alone. -/
theorem targetExponent_eq (hn : n ≠ 0) (k : Nat) :
    Format.binary64.targetExponent (totalExponent (n * 2 ^ k) (-k)) = exponent n := by
  rw [totalExponent, log2_mul_two_pow hn]
  simp only [Format.targetExponent, Format.mantissaBits, Format.minExponent, exponent]
  omega

/-- Nothing is lost with digits that are zero. -/
theorem shiftRight_eq (m k : Nat) :
    (ExtendedMantissa.mk (m * 2 ^ k) false false) >>> k = ⟨m, false, false⟩ := by
  induction k generalizing m with
  | zero => rw [Nat.pow_zero, Nat.mul_one]; rfl
  | succ k ih =>
    have hshift : (ExtendedMantissa.mk (m * 2 ^ (k + 1)) false false) >>> (k + 1) =
        ((ExtendedMantissa.mk (m * 2 * 2 ^ k) false false) >>> k).shiftRightOne := by
      rw [Nat.pow_succ', ← Nat.mul_assoc]
      rfl
    rw [hshift, ih]
    simp [ExtendedMantissa.shiftRightOne]

/-- Digits that are shifted to the normal form, if there are enough of them. -/
theorem shiftToTargetExponent_eq (hn : n ≠ 0) (hlt : n < 2 ^ 53) {k : Nat}
    (hk : 52 - n.log2 ≤ k) :
    shiftToTargetExponent .binary64 (n * 2 ^ k) (-k) .exact =
      (⟨digits n, false, false⟩, exponent n) := by
  have hlog := log2_le hn hlt
  obtain ⟨j, rfl⟩ := Nat.exists_eq_add_of_le hk
  have hshift : (exponent n - -(52 - n.log2 + j : Nat)).toNat = j := by
    rw [exponent]
    omega
  have hdigits : n * 2 ^ (52 - n.log2 + j) = digits n * 2 ^ j := by
    rw [digits, Nat.pow_add, Nat.mul_assoc]
  have hexponent : -(52 - n.log2 + j : Nat) + (j : Int) = exponent n := by
    rw [exponent]
    omega
  unfold shiftToTargetExponent shiftToExponent
  dsimp only [ExtendedMantissa.ofMantissaAndAccuracy]
  rw [targetExponent_eq hn, hshift, hdigits, shiftRight_eq, hexponent]

/-- Rounding a whole number that has digits enough gives its normal form. -/
theorem roundWithAccuracy_eq (hn : n ≠ 0) (hlt : n < 2 ^ 53) {k : Nat} (hk : 52 - n.log2 ≤ k) :
    roundWithAccuracy .binary64 .positive (n * 2 ^ k) (-k) .exact = normalForm n hn := by
  have hlog := log2_le hn hlt
  have hexponent : -((52 - n.log2 : Nat) : Int) = exponent n := by
    rw [exponent]
    omega
  have hagain := shiftToTargetExponent_eq hn hlt (Nat.le_refl (52 - n.log2))
  rw [hexponent] at hagain
  have hrounded : (ExtendedMantissa.mk (digits n) false false).roundedMantissa =
      n * 2 ^ (52 - n.log2) := rfl
  unfold roundWithAccuracy
  rw [shiftToTargetExponent_eq hn hlt hk]
  dsimp only
  rw [hrounded, hagain]
  exact dif_neg (Nat.ne_of_gt (digits_pos hn))

/-- Rounding a whole number gives its normal form. -/
theorem round_eq (hn : n ≠ 0) (hlt : n < 2 ^ 53) (k : Nat) :
    UnpackedFloat.round .binary64 .positive (n * 2 ^ k) (-k) = normalForm n hn := by
  have hlog := log2_le hn hlt
  unfold UnpackedFloat.round decreaseExponent
  dsimp only
  rw [targetExponent_eq hn, Nat.shiftLeft_eq, Nat.mul_assoc, ← Nat.pow_add]
  obtain ⟨j, hj⟩ : ∃ j, (-(k : Int) - exponent n).toNat = j := ⟨_, rfl⟩
  have hk : 52 - n.log2 ≤ k + j := by
    rw [exponent] at hj
    omega
  have hexponent : -(k : Int) - (j : Nat) = -(k + j : Nat) := by omega
  rw [hj, hexponent]
  exact roundWithAccuracy_eq hn hlt hk

/-- The sign of packed components. -/
theorem unpackSign_packComponents (format : Format) (sign : Sign)
    (exponent : BitVec format.exponentBits)
    (mantissa : BitVec format.mantissaBitsWithoutImplicit) :
    unpackSign (packComponents format sign exponent mantissa) = sign.toBitVec := by
  refine BitVec.eq_of_getLsbD_eq fun i hi => ?_
  obtain rfl : i = 0 := by omega
  simp [unpackSign, packComponents, BitVec.getLsbD_append, BitVec.getElem_append]

/-- The leading digit is put back in front of the others. -/
theorem toNat_append_mantissa {m : Nat} (hm : m ≠ 0) (hlog : m.log2 = 52) :
    (1#1 ++ BitVec.ofNat 52 m).toNat = m := by
  obtain ⟨hlower, hupper⟩ := (Nat.log2_eq_iff hm).mp hlog
  rw [BitVec.toNat_append, ← Nat.shiftLeft_add_eq_or_of_lt (BitVec.isLt _), BitVec.toNat_ofNat,
    BitVec.toNat_ofNat, Nat.shiftLeft_eq]
  omega

/-- The packed normal form of a whole number. -/
theorem pack_normalForm (hn : n ≠ 0) (hlt : n < 2 ^ 53) :
    UnpackedFloat.pack .binary64 (normalForm n hn) =
      packComponents .binary64 .positive (BitVec.ofNat 11 (n.log2 + 1023))
        (BitVec.ofNat 52 (digits n)) := by
  have hlog := log2_le hn hlt
  have hbiased : (exponent n + Format.binary64.exponentBias + (52 : Nat)).toNat =
      n.log2 + 1023 := by
    simp only [Format.exponentBias, exponent]
    omega
  unfold UnpackedFloat.pack normalForm
  dsimp only
  rw [hbiased, if_neg (by omega), if_pos (by rw [log2_digits hn hlt]; rfl)]

/-- The normal form survives packing. -/
theorem unpack_pack (hn : n ≠ 0) (hlt : n < 2 ^ 53) :
    (Float.Model.pack (normalForm n hn)).unpack = normalForm n hn := by
  have hlog := log2_le hn hlt
  have hbits : (BitVec.ofNat 11 (n.log2 + 1023)).toNat = n.log2 + 1023 := by
    rw [BitVec.toNat_ofNat]
    omega
  have hinfinite : BitVec.ofNat 11 (n.log2 + 1023) ≠ -1#_ := by
    intro h
    have h := congrArg BitVec.toNat h
    rw [hbits, BitVec.neg_one_eq_allOnes, BitVec.toNat_allOnes] at h
    omega
  have hzero : BitVec.ofNat 11 (n.log2 + 1023) ≠ 0#_ := by
    intro h
    have h := congrArg BitVec.toNat h
    rw [hbits] at h
    exact absurd h (Nat.succ_ne_zero _)
  have hexponent : ((n.log2 + 1023 : Nat) : Int) -
      (Format.binary64.exponentBias + (52 : Nat)) = exponent n := by
    simp only [Format.exponentBias, exponent]
    omega
  have hmantissa := toNat_append_mantissa (Nat.ne_of_gt (digits_pos hn)) (log2_digits hn hlt)
  unfold Float.Model.pack Float.Model.unpack
  dsimp only
  rw [pack_normalForm hn hlt]
  unfold UnpackedFloat.unpack normalForm
  simp only [unpackMantissa_packComponents, unpackExponent_packComponents,
    unpackSign_packComponents]
  rw [if_neg hinfinite, if_neg hzero]
  simp only [hbits, hexponent, hmantissa]
  rfl

/-- The normal form of a positive whole number, whatever its digits are. -/
theorem normalize_eq (hn : n ≠ 0) (hlt : n < 2 ^ 53) (k : Nat) (sign : Sign) :
    UnpackedFloat.normalize .binary64 (n * 2 ^ k : Nat) (-k) sign = normalForm n hn := by
  have hpos : 0 < n * 2 ^ k := Nat.mul_pos (Nat.pos_of_ne_zero hn) (Nat.two_pow_pos k)
  have hsign : compare ((n * 2 ^ k : Nat) : Int) 0 = .gt :=
    Int.compare_eq_gt.mpr (Int.natCast_pos.mpr hpos)
  unfold UnpackedFloat.normalize
  rw [hsign]
  dsimp only
  rw [Int.toNat_natCast]
  exact round_eq hn hlt k

/-- A whole number times one. -/
theorem mul_one (hn : n ≠ 0) (hlt : n < 2 ^ 53) :
    UnpackedFloat.mul .binary64 (normalForm n hn) (normalForm 1 Nat.one_ne_zero) =
      normalForm n hn := by
  have hlog := log2_le hn hlt
  have hdigits : digits n * digits 1 = n * 2 ^ (52 - n.log2 + 52) := by
    have hone : digits 1 = 2 ^ 52 := rfl
    rw [hone, digits, Nat.pow_add, Nat.mul_assoc]
  have hexponent : exponent n + exponent 1 = -(52 - n.log2 + 52 : Nat) := by
    have hone : exponent 1 = -52 := rfl
    rw [hone, exponent]
    omega
  change roundWithAccuracy .binary64 .positive (digits n * digits 1) (exponent n + exponent 1)
    .exact = _
  rw [hdigits, hexponent]
  exact roundWithAccuracy_eq hn hlt (Nat.le_add_right _ _)

/-- A positive word below 2⁵³ as a float. -/
theorem toFloat_eq (hn : n ≠ 0) (hlt : n < 2 ^ 53) :
    n.toUInt64.toFloat = .ofModel (Float.Model.pack (normalForm n hn)) := by
  have hvalue : n.toUInt64.toNat = n := by
    rw [Nat.toUInt64, UInt64.toNat_ofNat']
    omega
  have hnormal := normalize_eq hn hlt 0 .positive
  rw [Nat.pow_zero, Nat.mul_one] at hnormal
  change Float.ofModel (Float.Model.pack (UnpackedFloat.normalize .binary64
    (n.toUInt64.toNat : Int) 0 .positive)) = _
  rw [hvalue]
  exact congrArg (fun f => Float.ofModel (Float.Model.pack f)) hnormal

end ProcessDisplay.Whole
