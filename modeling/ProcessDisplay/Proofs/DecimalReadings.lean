import ProcessDisplay.Decimal.Reading
import ProcessDisplay.Proofs.BinaryRounding
import ProcessDisplay.Proofs.WholeNumbers

/-!
# Reading a decimal back

A decimal is read as the binary number whose interval holds it, whether its
digits and its power of ten are binary numbers themselves or not.
-/

namespace ProcessDisplay.Decimal

open Float.Model Float.Model.UnpackedFloat

section Powers

/-- The powers of ten that are binary numbers themselves. -/
theorem exists_power {e : Nat} (he : e < Float.exactlyRepresentablePowersOfTen.size) :
    ∃ p : UInt64, Float.exactlyRepresentablePowersOfTen[e] = Float.ofBits p ∧
      0x10000000000000 ≤ p.toNat ∧ p.toNat < Trace.infinite ∧
      Trace.significand p.toNat * 2 ^ (Trace.biased p.toNat - 1075) =
        10 ^ e * 2 ^ (1075 - Trace.biased p.toNat) := by
  have hlt : e < 23 := he
  interval_cases e <;> exact ⟨_, rfl, by decide, by decide, by decide⟩

/-- A power of two whose exponent is a difference. -/
theorem zpow_natCast_sub (a c : Nat) : (2 : ℚ) ^ ((a : Int) - c) = 2 ^ (a - c) / 2 ^ (c - a) := by
  rw [← zpow_natCast, ← zpow_natCast, ← zpow_sub₀ two_ne_zero]
  congr 1
  omega

/-- A power of ten that is a binary number has its digits and its exponent. -/
theorem unpack_power {e : Nat} (he : e < Float.exactlyRepresentablePowersOfTen.size) :
    ∃ m : Nat, ∃ i : Int, ∃ h : 0 < m,
      Float.exactlyRepresentablePowersOfTen[e].toModel.unpack = .finite .positive m i h ∧
        (m : ℚ) * 2 ^ i = 10 ^ e ∧ 52 ≤ m.log2 := by
  obtain ⟨p, hp, hnormal, hfinite, hvalue⟩ := exists_power he
  have hinfinite : Trace.infinite = 0x7FF0000000000000 := rfl
  have hbiased : Trace.biased p.toNat = max (p.toNat / 0x10000000000000) 1 := rfl
  have hmagnitude : Trace.magnitude p = p.toNat := Nat.mod_eq_of_lt (by omega)
  have hsign : Trace.signOf p = .positive := if_pos (by omega)
  have hnan : Trace.isNaNPattern p = false := decide_eq_false (by omega)
  have hunpack : (Float.ofBits p).toModel.unpack = Trace.numberOf .positive p.toNat := by
    change UnpackedFloat.unpack .binary64 (Float.ofBits p).toBits.toBitVec = _
    rw [Trace.toBits_ofBits hnan, Trace.unpack_eq, hsign, hmagnitude]
  rcases Trace.numberOf_cases hfinite.le .positive with ⟨h, -⟩ | ⟨h, -⟩ | ⟨hpos, -, hnumber⟩
  · omega
  · omega
  · refine ⟨_, _, Trace.significand_pos hpos, by rw [hp, hunpack, hnumber], ?_, ?_⟩
    · have hscaled : (Trace.significand p.toNat : ℚ) * 2 ^ (Trace.biased p.toNat - 1075) =
          10 ^ e * 2 ^ (1075 - Trace.biased p.toNat) := by exact_mod_cast hvalue
      have hpower : (2 : ℚ) ^ ((Trace.biased p.toNat : Int) - 1075) =
          2 ^ (Trace.biased p.toNat - 1075) / 2 ^ (1075 - Trace.biased p.toNat) :=
        zpow_natCast_sub _ 1075
      rw [hpower, ← mul_div_assoc, hscaled]
      exact mul_div_cancel_right₀ _ (by positivity)
    · have hleading : 2 ^ 52 ≤ Trace.significand p.toNat := by
        unfold Trace.significand
        omega
      exact (Nat.le_log2 (Trace.significand_pos hpos).ne').mpr hleading

end Powers

section Digits

variable {m : Nat}

/-- The digits of a number bound it. -/
theorem digits_bounds (hm : m ≠ 0) :
    10 ^ ((Nat.toDigits 10 m).length - 1) ≤ m ∧ m < 10 ^ (Nat.toDigits 10 m).length := by
  have hpos := Nat.length_toDigits_pos (b := 10) (n := m)
  have hiff : ∀ k, 0 < k → ((Nat.toDigits 10 m).length ≤ k ↔ m < 10 ^ k) := fun k =>
    Nat.length_toDigits_le_iff (by decide)
  refine ⟨?_, (hiff _ hpos).mp le_rfl⟩
  by_cases hone : (Nat.toDigits 10 m).length - 1 = 0
  · rw [hone]
    exact Nat.pos_of_ne_zero hm
  · rw [← not_lt, ← hiff _ (Nat.pos_of_ne_zero hone)]
    omega

end Digits

section Bounds

variable {x : Binary} {r : ℚ}

/-- Three binary digits are less than a decimal one. -/
theorem two_zpow_le (k : Nat) :
    (2 : ℚ) ^ (3 * k : Int) ≤ 10 ^ (k : Int) ∧ (10 : ℚ) ^ (-k : Int) ≤ 2 ^ (-(3 * k) : Int) := by
  have hle : (2 : ℚ) ^ (3 * k : Int) ≤ 10 ^ (k : Int) := by
    rw [zpow_mul, zpow_natCast, zpow_natCast]
    exact pow_le_pow_left₀ (by norm_num) (by norm_num) k
  refine ⟨hle, ?_⟩
  rw [zpow_neg, zpow_neg]
  exact inv_anti₀ (by positivity) hle

/-- The numbers of an interval are neither too small nor too large. -/
theorem Binary.Holds.bounds (hx : x.Proper) (hr : x.Holds r) :
    (10 : ℚ) ^ (-(359 : Nat) : Int) ≤ r ∧ r ≤ 10 ^ ((342 : Nat) : Int) := by
  have hfirst : (1 : ℚ) ≤ x.mantissa := by exact_mod_cast hx.pos
  have hlast : (x.mantissa : ℚ) + 1 ≤ 2 ^ 53 := by exact_mod_cast hx.lt
  have hleast : (2 : ℚ) ^ (-1077 : Int) ≤ 2 ^ (x.exponent - 2) :=
    zpow_le_zpow_right₀ one_le_two (by have := hx.least; omega)
  have hgreatest : (2 : ℚ) ^ (x.exponent - 2) ≤ 2 ^ (971 : Int) :=
    zpow_le_zpow_right₀ one_le_two (by have := hx.greatest; omega)
  constructor
  · have htwo : (1 : ℚ) ≤ 4 * x.mantissa - if x.narrowBelow then 1 else 2 := by
      split <;> linarith
    calc (10 : ℚ) ^ (-(359 : Nat) : Int)
        ≤ 1 * 2 ^ (-1077 : Int) := by
          rw [one_mul]
          exact (two_zpow_le 359).2
      _ ≤ x.low := mul_le_mul htwo hleast (by positivity) (by linarith)
      _ ≤ r := hr.low
  · calc r ≤ x.high := hr.high
      _ ≤ 2 ^ 55 * 2 ^ (971 : Int) :=
        mul_le_mul (by linarith) hgreatest (by positivity) (by positivity)
      _ = 2 ^ (3 * (342 : Nat) : Int) := (zpow_shift 55 rfl).symm
      _ ≤ 10 ^ ((342 : Nat) : Int) := (two_zpow_le 342).1

end Bounds

section Reading

variable {x : Binary} {m k : Nat}

/-- The float of a magnitude. -/
def Binary.toFloat (x : Binary) (hx : x.Proper) : Float :=
  .ofModel (Float.Model.pack (.finite .positive x.mantissa x.exponent hx.pos))

/-- The normal form of a whole number has its value. -/
theorem value_normalForm (hm : m ≠ 0) (hlt : m < 2 ^ 53) :
    (Whole.digits m : ℚ) * 2 ^ Whole.exponent m = m := by
  have hlog := Whole.log2_le hm hlt
  have hpower : (2 : ℚ) ^ Whole.exponent m = 2 ^ (m.log2 - 52) / 2 ^ (52 - m.log2) :=
    zpow_natCast_sub _ 52
  rw [hpower, Whole.digits, Nat.sub_eq_zero_of_le hlog]
  push_cast
  field_simp

/-- The model of reading has no limit in the way. -/
theorem ofScientific_eq (hm : m ≠ 0) {e : Int} (hgreatest : e ≤ 2048)
    (hleast : -(2048 + m.log2) ≤ e) : UnpackedFloat.ofScientific .binary64 m e =
      if 0 ≤ e then
        mul .binary64 (.finite .positive (m <<< 53) (-53) (by simpa [Nat.pos_iff_ne_zero]))
          (.finite .positive (10 ^ e.toNat) 0 (Nat.pow_pos (by decide)))
      else
        div .binary64 (.finite .positive m 0 (Nat.pos_iff_ne_zero.2 hm))
          (.finite .positive (10 ^ (-e).toNat) 0 (Nat.pow_pos (by decide))) := by
  have hlimit : (2 : Int) ^ Format.binary64.exponentBits = 2048 := rfl
  unfold UnpackedFloat.ofScientific
  rw [dif_neg hm, hlimit, if_neg (by omega), if_neg (by omega)]
  rfl

/-- A product has at least as many digits as a factor. -/
theorem le_log2_mul {a b : Nat} (ha : a ≠ 0) (hb : b ≠ 0) : b.log2 ≤ (a * b).log2 := by
  rw [Nat.le_log2 (Nat.mul_ne_zero ha hb)]
  exact (Nat.log2_self_le hb).trans (Nat.le_mul_of_pos_left b (Nat.pos_of_ne_zero ha))

/-- A whole number times a power of ten is read back. -/
theorem ofScientific_mul (hx : x.Proper) (hm : m ≠ 0) (hk : k ≤ 2048)
    (hr : x.Holds (m * 10 ^ k)) : Float.ofScientific m false k = x.toFloat hx := by
  unfold Float.ofScientific
  split
  · next h =>
    have hindex : k < Float.exactlyRepresentablePowersOfTen.size := Nat.lt_succ_of_le h.2
    obtain ⟨n, i, hn, hunpack, hvalue, hlog⟩ := unpack_power hindex
    have hdigits := Whole.digits_pos hm
    rw [← hvalue, ← value_normalForm hm h.1] at hr
    have hproduct := mul_eq hdigits hn hx hr (hlog.trans (le_log2_mul hdigits.ne' hn.ne'))
    rw [if_neg Bool.false_ne_true, Whole.toFloat_eq hm h.1]
    change Float.ofModel (Float.Model.pack (UnpackedFloat.mul .binary64
      (Float.Model.pack (Whole.normalForm m hm)).unpack
      Float.exactlyRepresentablePowersOfTen[k].toModel.unpack)) = _
    rw [Whole.unpack_pack hm h.1, hunpack, Whole.normalForm, hproduct]
    rfl
  · change Float.ofModel (.pack (UnpackedFloat.ofScientific .binary64 m (k : Int))) = _
    have hshifted : m <<< 53 ≠ 0 := by simpa using hm
    have hpower : 10 ^ k ≠ 0 := (Nat.pow_pos (by decide)).ne'
    have hvalue : ((m <<< 53 : Nat) : ℚ) * 2 ^ (-53 : Int) * ((10 ^ k : Nat) * 2 ^ (0 : Int)) =
        m * 10 ^ k := by
      have hone : (2 : ℚ) ^ 53 * 2 ^ (-53 : Int) = 1 := (zpow_shift 53 rfl).symm
      rw [Nat.shiftLeft_eq, Nat.cast_mul, Nat.cast_pow, Nat.cast_ofNat, mul_assoc (m : ℚ), hone]
      simp
    have hlog : 52 ≤ (m <<< 53 * 10 ^ k).log2 := by
      rw [Nat.mul_comm]
      refine le_trans ?_ (le_log2_mul hpower hshifted)
      rw [Nat.le_log2 hshifted, Nat.shiftLeft_eq]
      have := Nat.pos_of_ne_zero hm
      omega
    rw [← hvalue] at hr
    have hproduct := mul_eq (Nat.pos_of_ne_zero hshifted) (Nat.pos_of_ne_zero hpower) hx hr hlog
    rw [ofScientific_eq hm (by omega) (by omega), if_pos (Int.natCast_nonneg k)]
    exact congrArg (fun f => Float.ofModel (Float.Model.pack f)) hproduct

/-- A whole number divided by a power of ten is read back. -/
theorem ofScientific_div (hx : x.Proper) (hm : m ≠ 0) (hpos : 0 < k) (hk : k ≤ 2048 + m.log2)
    (hr : x.Holds (m / 10 ^ k)) : Float.ofScientific m true k = x.toFloat hx := by
  unfold Float.ofScientific
  split
  · next h =>
    have hindex : k < Float.exactlyRepresentablePowersOfTen.size := Nat.lt_succ_of_le h.2
    obtain ⟨n, i, hn, hunpack, hvalue, -⟩ := unpack_power hindex
    have hdigits := Whole.digits_pos hm
    rw [← hvalue, ← value_normalForm hm h.1] at hr
    rw [if_pos rfl, Whole.toFloat_eq hm h.1]
    change Float.ofModel (Float.Model.pack (UnpackedFloat.div .binary64
      (Float.Model.pack (Whole.normalForm m hm)).unpack
      Float.exactlyRepresentablePowersOfTen[k].toModel.unpack)) = _
    rw [Whole.unpack_pack hm h.1, hunpack, Whole.normalForm, div_eq hdigits hn hx hr]
    rfl
  · have hnegative : Int.negOfNat k = -k := Int.negOfNat_eq
    have hnat : (-(-(k : Int))).toNat = k := by omega
    change Float.ofModel (.pack (UnpackedFloat.ofScientific .binary64 m (Int.negOfNat k))) = _
    have hpower : 0 < 10 ^ k := Nat.pow_pos (by decide)
    have hvalue : (m : ℚ) * 2 ^ (0 : Int) / ((10 ^ k : Nat) * 2 ^ (0 : Int)) = m / 10 ^ k := by
      simp
    rw [← hvalue] at hr
    have hquotient := div_eq (Nat.pos_of_ne_zero hm) hpower hx hr
    rw [hnegative, ofScientific_eq hm (by omega) (by omega), if_neg (by omega)]
    simp only [hnat]
    exact congrArg (fun f => Float.ofModel (Float.Model.pack f)) hquotient

/-- A decimal is read as the magnitude whose interval holds it. -/
theorem nearestFloat_eq (hx : x.Proper) {e : Int} (hr : x.Holds (m * 10 ^ e)) :
    nearestFloat m e = x.toFloat hx := by
  obtain ⟨hleast, hgreatest⟩ := hr.bounds hx
  have hm : m ≠ 0 := by
    rintro rfl
    rw [Nat.cast_zero, zero_mul] at hleast
    exact absurd hleast (not_le.mpr (by positivity))
  obtain ⟨hfirst, hnext⟩ := digits_bounds hm
  have hlength := Nat.length_toDigits_pos (b := 10) (n := m)
  generalize hn : (Nat.toDigits 10 m).length = n at *
  have hpos : (0 : ℚ) < 10 ^ e := by positivity
  -- the place of the first digit
  have hbelow : e + (n - 1 : Nat) ≤ (342 : Nat) := by
    refine (zpow_le_zpow_iff_right₀ (a := (10 : ℚ)) (by norm_num)).mp (le_trans ?_ hgreatest)
    have hless : (10 : ℚ) ^ (n - 1) ≤ m := by exact_mod_cast hfirst
    rw [zpow_add₀ (by norm_num), mul_comm ((10 : ℚ) ^ e), zpow_natCast]
    exact mul_le_mul_of_nonneg_right hless hpos.le
  have habove : -(359 : Nat) < e + n := by
    refine (zpow_lt_zpow_iff_right₀ (a := (10 : ℚ)) (by norm_num)).mp (hleast.trans_lt ?_)
    have hless : (m : ℚ) < 10 ^ n := by exact_mod_cast hnext
    rw [zpow_add₀ (by norm_num), mul_comm ((10 : ℚ) ^ e), zpow_natCast]
    exact mul_lt_mul_of_pos_right hless hpos
  have hlog : n - 1 ≤ m.log2 := by
    rw [Nat.le_log2 hm]
    exact (Nat.pow_le_pow_left (by decide) _).trans hfirst
  unfold nearestFloat
  rw [if_neg hm]
  dsimp only
  rw [hn, if_neg (by omega), if_neg (by omega)]
  split
  · next hge =>
    obtain ⟨k, rfl⟩ := Int.eq_ofNat_of_zero_le hge
    rw [zpow_natCast] at hr
    exact ofScientific_mul hx hm (by omega) hr
  · next hlt =>
    obtain ⟨k, hk⟩ := Int.eq_ofNat_of_zero_le (a := -e) (by omega)
    obtain rfl : e = -(k : Int) := by omega
    rw [zpow_neg, zpow_natCast, ← div_eq_mul_inv] at hr
    rw [hk, Int.toNat_natCast]
    exact ofScientific_div hx hm (by omega) (by omega) hr

end Reading

end ProcessDisplay.Decimal
