import ProcessDisplay.Proofs.ExactQuotients
import ProcessDisplay.Proofs.NumberOrder

/-!
# Rounding to the nearest binary number

Whatever its sign, a number is rounded from some of its leading digits and two
bits that tell of the others. Where these digits reach down to the last place
of the result, the result depends on the number alone: it is the magnitude
whose interval holds the number. Products and quotients are rounded so.
-/

namespace ProcessDisplay.Decimal

open Float.Model Float.Model.UnpackedFloat

section Digits

variable {m n : Nat} {q : ℚ}

/-- The digits in front of the last place and the two bits behind it are those of a number. -/
def Shows (em : ExtendedMantissa) (q : ℚ) : Prop :=
  let start : ℚ := em.mantissa + if em.roundBit then 1 / 2 else 0
  if em.stickyBit then start < q ∧ q < start + 1 / 2 else q = start

/-- A number lies between its digits and the next ones. -/
theorem Shows.bounds {em : ExtendedMantissa} (h : Shows em q) :
    (em.mantissa : ℚ) ≤ q ∧ q < em.mantissa + 1 := by
  rcases em with ⟨m, round, sticky⟩
  cases round <;> cases sticky <;> simp only [Shows, if_true, if_false, Bool.false_eq_true] at h <;>
    constructor <;> linarith

/-- Half of the number is shown by the digits without the last one. -/
theorem Shows.shiftRightOne {em : ExtendedMantissa} (h : Shows em q) :
    Shows em.shiftRightOne (q / 2) := by
  rcases em with ⟨m, round, sticky⟩
  have hparts : (m : ℚ) = 2 * (m / 2 : Nat) + (m % 2 : Nat) := by
    exact_mod_cast (Nat.div_add_mod m 2).symm
  rcases Nat.mod_two_eq_zero_or_one m with hlast | hlast <;>
    cases round <;> cases sticky <;>
      simp only [Shows, ExtendedMantissa.shiftRightOne, hlast, if_true, if_false,
        Bool.false_eq_true, Bool.or_false, Bool.or_true, bne_self_eq_false,
        Nat.cast_zero, Nat.cast_one, one_ne_zero, bne_iff_ne, ne_eq,
        not_false_eq_true] at h hparts ⊢ <;>
      first
        | linarith
        | constructor <;> linarith

/-- The number divided by a power of two is shown by its leading digits. -/
theorem Shows.shiftRight {em : ExtendedMantissa} (h : Shows em q) (k : Nat) :
    Shows (em >>> k) (q / 2 ^ k) := by
  induction k with
  | zero =>
    rw [pow_zero, div_one]
    exact h
  | succ k ih =>
    rw [pow_succ, ← div_div]
    exact ih.shiftRightOne

/-- The number is nearest to a whole number; a half is next to an even one only. -/
def Nearest (q : ℚ) (n : Nat) : Prop :=
  (n : ℚ) - 1 / 2 ≤ q ∧ q ≤ n + 1 / 2 ∧ (q = n - 1 / 2 ∨ q = n + 1 / 2 → n % 2 = 0)

/-- Digits are rounded to the nearest whole number. -/
theorem Shows.roundedMantissa {em : ExtendedMantissa} (h : Shows em q) (hn : Nearest q n) :
    em.roundedMantissa = n := by
  rcases em with ⟨m, round, sticky⟩
  obtain ⟨hlow, hhigh, heven⟩ := hn
  cases round <;> cases sticky <;>
    simp only [Shows, if_true, if_false, Bool.false_eq_true, add_zero] at h <;>
    simp only [ExtendedMantissa.roundedMantissa, ExtendedMantissa.accuracy,
      Accuracy.roundToNearestEven]
  · have hlt : (m : ℚ) < n + 1 := by linarith
    have hgt : (n : ℚ) < m + 1 := by linarith
    norm_cast at hlt hgt
    omega
  · have hlt : (m : ℚ) < n + 1 := by linarith
    have hgt : (n : ℚ) < m + 1 := by linarith
    norm_cast at hlt hgt
    omega
  · have hle : (m : ℚ) ≤ n := by linarith
    have hge : (n : ℚ) ≤ m + 1 := by linarith
    norm_cast at hle hge
    rcases (by omega : n = m ∨ n = m + 1) with rfl | rfl
    · have := heven (.inr h)
      omega
    · have := heven (.inl (by push_cast; linarith))
      omega
  · have hlt : (m : ℚ) < n := by linarith
    have hgt : (n : ℚ) < m + 2 := by linarith
    norm_cast at hlt hgt
    omega

/-- The digits of a whole number. -/
theorem shows_natCast (m : Nat) : Shows ⟨m, false, false⟩ m := by
  simp [Shows]

end Digits

section Magnitudes

/-- A positive magnitude in the form that binary numbers have. -/
structure Binary.Proper (x : Binary) : Prop where
  /-- It has digits. -/
  pos : 0 < x.mantissa
  /-- They fit. -/
  lt : x.mantissa < 2 ^ 53
  /-- The exponent is at least the least one. -/
  least : -1074 ≤ x.exponent
  /-- The exponent is at most the greatest one. -/
  greatest : x.exponent ≤ 971
  /-- With any other exponent the first digit is in the first place. -/
  normal : 2 ^ 52 ≤ x.mantissa ∨ x.exponent = -1074
  /-- The gap below is narrower where the exponent changes. -/
  narrow : x.narrowBelow = true ↔ x.mantissa = 2 ^ 52 ∧ x.exponent ≠ -1074

/-- The least number that may be rounded to a magnitude. -/
def Binary.low (x : Binary) : ℚ :=
  (4 * x.mantissa - if x.narrowBelow then 1 else 2) * 2 ^ (x.exponent - 2)

/-- The greatest number that may be rounded to a magnitude. -/
def Binary.high (x : Binary) : ℚ := (4 * x.mantissa + 2) * 2 ^ (x.exponent - 2)

/-- A number in the interval of a magnitude; its ends belong to even digits. -/
structure Binary.Holds (x : Binary) (r : ℚ) : Prop where
  /-- The number is not below the interval. -/
  low : x.low ≤ r
  /-- The number is not above the interval. -/
  high : r ≤ x.high
  /-- The number is at an end only if the digits are even. -/
  even : r = x.low ∨ r = x.high → x.mantissa % 2 = 0

variable {x : Binary} {r : ℚ} {m : Nat} {e t : Int}

/-- A power of two as a multiple of a smaller one. -/
theorem zpow_shift {i : Int} (k : Nat) (h : i = e + k) : (2 : ℚ) ^ i = 2 ^ k * 2 ^ e := by
  rw [h, zpow_add₀ two_ne_zero, zpow_natCast, mul_comm]

/-- The exponent of the last place depends on the number alone. -/
theorem targetExponent_eq (hm : m = 0 → e ≤ -1074) (hlow : (m : ℚ) * 2 ^ e ≤ r)
    (hhigh : r < (m + 1) * 2 ^ e) (hmin : -1074 ≤ t) (hlt : r < 2 ^ (t + 53))
    (hge : 2 ^ (t + 52) ≤ r ∨ t = -1074) :
    Format.binary64.targetExponent (totalExponent m e) = t := by
  have hpos : (0 : ℚ) < 2 ^ e := by positivity
  have hnext : r < (2 : ℚ) ^ (e + (m.log2 + 1 : Nat)) := by
    rw [zpow_shift _ rfl]
    refine lt_of_lt_of_le hhigh (mul_le_mul_of_nonneg_right ?_ hpos.le)
    exact_mod_cast Nat.succ_le_of_lt (Nat.lt_log2_self (n := m))
  have habove : t + 52 < e + (m.log2 + 1 : Nat) ∨ t = -1074 :=
    hge.imp_left fun h => (zpow_lt_zpow_iff_right₀ one_lt_two).mp (h.trans_lt hnext)
  have hbelow : e + m.log2 < t + 53 := by
    by_cases hzero : m = 0
    · have := hm hzero
      rw [hzero, Nat.log2_zero]
      omega
    · have hfirst : (2 : ℚ) ^ (e + m.log2) ≤ r := by
        rw [zpow_shift _ rfl]
        refine le_trans (mul_le_mul_of_nonneg_right ?_ hpos.le) hlow
        exact_mod_cast Nat.log2_self_le hzero
      exact (zpow_lt_zpow_iff_right₀ one_lt_two).mp (hfirst.trans_lt hlt)
  simp only [Format.targetExponent, totalExponent, Format.mantissaBits, Format.minExponent]
  omega

/-- Nearness on a grid. -/
theorem nearest_div_iff {p : ℚ} (hp : 0 < p) (n : Nat) : Nearest (r / p) n ↔
    (n - 1 / 2) * p ≤ r ∧ r ≤ (n + 1 / 2) * p ∧
      (r = (n - 1 / 2) * p ∨ r = (n + 1 / 2) * p → n % 2 = 0) := by
  unfold Nearest
  rw [le_div_iff₀ hp, div_le_iff₀ hp, div_eq_iff hp.ne', div_eq_iff hp.ne']

section Grids

variable (hx : x.Proper) (hr : x.Holds r)
include hx hr

/-- Where the interval has the grid of its magnitude, its numbers are nearest
to the digits. -/
theorem Binary.Holds.nearest (hge : 2 ^ (x.exponent + 52) ≤ r ∨ x.exponent = -1074) :
    r < 2 ^ (x.exponent + 53) ∧ Nearest (r / 2 ^ x.exponent) x.mantissa := by
  obtain ⟨hlow, hhigh, heven⟩ := hr
  obtain ⟨e, he⟩ : ∃ e : Int, x.exponent = e + (2 : Nat) := ⟨x.exponent - 2, by omega⟩
  have hexponent : x.exponent - 2 = e := by omega
  have hpos : (0 : ℚ) < 2 ^ e := by positivity
  have hgrid : (2 : ℚ) ^ x.exponent = 2 ^ 2 * 2 ^ e := zpow_shift 2 he
  have hfirst : (2 : ℚ) ^ (x.exponent + 52) = 2 ^ 54 * 2 ^ e := zpow_shift 54 (by omega)
  have hnext : (2 : ℚ) ^ (x.exponent + 53) = 2 ^ 55 * 2 ^ e := zpow_shift 55 (by omega)
  have hdigits : ((x.mantissa : ℚ) + 1) * 2 ^ e ≤ 2 ^ 53 * 2 ^ e := by
    refine mul_le_mul_of_nonneg_right ?_ hpos.le
    exact_mod_cast hx.lt
  rw [Binary.low, hexponent] at hlow heven
  rw [Binary.high, hexponent] at hhigh heven
  rw [hgrid, nearest_div_iff (by positivity), hnext]
  rw [hfirst] at hge
  generalize (2 : ℚ) ^ e = p at *
  refine ⟨by linarith, ?_⟩
  by_cases hnarrow : x.narrowBelow = true
  · obtain ⟨hm, hne⟩ := hx.narrow.mp hnarrow
    have hge := hge.resolve_right hne
    rw [hm]
    rw [hm] at hhigh
    push_cast at hhigh ⊢
    exact ⟨by linarith, by linarith, fun _ => by norm_num⟩
  · rw [if_neg hnarrow] at hlow heven
    refine ⟨by linarith, by linarith, fun h => heven (h.imp (fun h => ?_) fun h => ?_)⟩ <;> linarith

/-- Elsewhere the interval reaches down to the grid of the next smaller
exponent, and its numbers are nearest to the end of that grid. -/
theorem Binary.Holds.nearest_below
    (hlt : ¬(2 ^ (x.exponent + 52) ≤ r ∨ x.exponent = -1074)) :
    x.mantissa = 2 ^ 52 ∧ 2 ^ (x.exponent - 1 + 52) ≤ r ∧ r < 2 ^ (x.exponent - 1 + 53) ∧
      Nearest (r / 2 ^ (x.exponent - 1)) (2 ^ 53) := by
  obtain ⟨hlow, hhigh, -⟩ := hr
  obtain ⟨e, he⟩ : ∃ e : Int, x.exponent = e + (2 : Nat) := ⟨x.exponent - 2, by omega⟩
  have hexponent : x.exponent - 2 = e := by omega
  have hpos : (0 : ℚ) < 2 ^ e := by positivity
  have hgrid : (2 : ℚ) ^ (x.exponent - 1) = 2 ^ 1 * 2 ^ e := zpow_shift 1 (by omega)
  have hstart : (2 : ℚ) ^ (x.exponent - 1 + 52) = 2 ^ 53 * 2 ^ e := zpow_shift 53 (by omega)
  have hend : (2 : ℚ) ^ (x.exponent - 1 + 53) = 2 ^ 54 * 2 ^ e := zpow_shift 54 (by omega)
  obtain ⟨hlt, hne⟩ := not_or.mp hlt
  have hfirst : x.exponent + 52 = x.exponent - 1 + 53 := by omega
  rw [hfirst, hend, not_le] at hlt
  rw [Binary.low, hexponent] at hlow
  rw [hstart, hend, hgrid, nearest_div_iff (by positivity)]
  have hleading := hx.normal.resolve_right hne
  have hm : x.mantissa = 2 ^ 52 := by
    by_contra hm
    have hnarrow : ¬x.narrowBelow = true := fun h => hm (hx.narrow.mp h).1
    have hdigits : ((2 : ℚ) ^ 52 + 1) * 2 ^ e ≤ x.mantissa * 2 ^ e := by
      refine mul_le_mul_of_nonneg_right ?_ hpos.le
      exact_mod_cast Nat.lt_of_le_of_ne hleading (Ne.symm hm)
    rw [if_neg hnarrow] at hlow
    linarith
  rw [if_pos (hx.narrow.mpr ⟨hm, hne⟩), hm] at hlow
  push_cast at hlow ⊢
  generalize (2 : ℚ) ^ e = p at *
  exact ⟨hm, by linarith, by linarith, by linarith, by linarith, fun _ => by norm_num⟩

end Grids

section Rounding

/-- The digits of a magnitude stay where they are. -/
theorem shiftToTargetExponent_proper (hx : x.Proper) :
    shiftToTargetExponent .binary64 x.mantissa x.exponent .exact =
      (⟨x.mantissa, false, false⟩, x.exponent) := by
  have htarget : Format.binary64.targetExponent (totalExponent x.mantissa x.exponent) =
      x.exponent := by
    have hlt := (Nat.log2_lt hx.pos.ne').mpr hx.lt
    have hle := hx.normal.imp_left (Nat.le_log2 hx.pos.ne').mpr
    have hleast := hx.least
    simp only [Format.targetExponent, totalExponent, Format.mantissaBits, Format.minExponent]
    omega
  unfold shiftToTargetExponent shiftToExponent
  dsimp only [ExtendedMantissa.ofMantissaAndAccuracy]
  rw [htarget, Int.sub_self]
  simp
  rfl

/-- Digits that need one more place than there are move up. -/
theorem shiftToTargetExponent_next (ht : -1074 ≤ t) :
    shiftToTargetExponent .binary64 (2 ^ 53) t .exact = (⟨2 ^ 52, false, false⟩, t + 1) := by
  have htarget : Format.binary64.targetExponent (totalExponent (2 ^ 53) t) = t + 1 := by
    have hlog : Nat.log2 (2 ^ 53) = 53 := Nat.log2_two_pow
    simp only [Format.targetExponent, totalExponent, Format.mantissaBits, Format.minExponent, hlog]
    omega
  have hone : (t + 1 - t).toNat = 1 := by omega
  unfold shiftToTargetExponent shiftToExponent
  dsimp only [ExtendedMantissa.ofMantissaAndAccuracy]
  rw [htarget, hone]
  rfl

/-- A number that its leading digits show, if they reach down to the last place
of the result, is rounded to the magnitude whose interval holds it. -/
theorem roundWithAccuracy_eq (hx : x.Proper) (hr : x.Holds r) {acc : Accuracy}
    (hshows : Shows (.ofMantissaAndAccuracy m acc) (r / 2 ^ e))
    (he : e ≤ Format.binary64.targetExponent (totalExponent m e)) (s : Sign) :
    roundWithAccuracy .binary64 s m e acc = .finite s x.mantissa x.exponent hx.pos := by
  have hpos : (0 : ℚ) < 2 ^ e := by positivity
  have hm : m = 0 → e ≤ -1074 := by
    rintro rfl
    simp only [Format.targetExponent, totalExponent, Format.mantissaBits, Format.minExponent,
      Nat.log2_zero] at he
    omega
  have hmantissa : (ExtendedMantissa.ofMantissaAndAccuracy m acc).mantissa = m := by
    rcases acc with _ | _ | _ | _ <;> rfl
  obtain ⟨hlow, hhigh⟩ := hshows.bounds
  rw [hmantissa, le_div_iff₀ hpos] at hlow
  rw [hmantissa, div_lt_iff₀ hpos] at hhigh
  -- the digits down to the last place, and the place
  have hshifted : ∀ {t : Int} {n : Nat},
      Format.binary64.targetExponent (totalExponent m e) = t → Nearest (r / 2 ^ t) n →
      ∃ em, shiftToTargetExponent .binary64 m e acc = (em, t) ∧ em.roundedMantissa = n := by
    intro t n ht hn
    obtain ⟨k, rfl⟩ : ∃ k : Nat, t = e + k := ⟨(t - e).toNat, by omega⟩
    have hk : (e + (k : Int) - e).toNat = k := by omega
    refine ⟨_, ?_, (hshows.shiftRight k).roundedMantissa ?_⟩
    · unfold shiftToTargetExponent shiftToExponent
      dsimp only
      rw [ht, hk]
    · rw [div_div, mul_comm, ← zpow_shift k rfl]
      exact hn
  unfold roundWithAccuracy
  by_cases hge : 2 ^ (x.exponent + 52) ≤ r ∨ x.exponent = -1074
  · obtain ⟨hlt, hnear⟩ := hr.nearest hx hge
    obtain ⟨em, hem, hrounded⟩ :=
      hshifted (targetExponent_eq hm hlow hhigh hx.least hlt hge) hnear
    rw [hem]
    dsimp only
    rw [hrounded, shiftToTargetExponent_proper hx]
    exact dif_neg hx.pos.ne'
  · obtain ⟨hdigits, hfirst, hlt, hnear⟩ := hr.nearest_below hx hge
    have hleast : -1074 ≤ x.exponent - 1 := by
      have := hx.least
      omega
    obtain ⟨em, hem, hrounded⟩ :=
      hshifted (targetExponent_eq hm hlow hhigh hleast hlt (.inl hfirst)) hnear
    rw [hem]
    dsimp only
    rw [hrounded, shiftToTargetExponent_next hleast]
    simp only [Int.sub_add_cancel, hdigits]
    exact dif_neg (by decide)

end Rounding

section Operations

variable {m₁ m₂ : Nat} {e₁ e₂ : Int} (h₁ : 0 < m₁) (h₂ : 0 < m₂)

/-- A product that has digits enough is rounded to the magnitude whose interval holds it. -/
theorem mul_eq (hx : x.Proper) (hr : x.Holds (m₁ * 2 ^ e₁ * (m₂ * 2 ^ e₂)))
    (hlog : 52 ≤ (m₁ * m₂).log2) :
    UnpackedFloat.mul .binary64 (.finite .positive m₁ e₁ h₁) (.finite .positive m₂ e₂ h₂) =
      .finite .positive x.mantissa x.exponent hx.pos := by
  refine roundWithAccuracy_eq hx hr ?_ ?_ .positive
  · have hproduct : (m₁ * 2 ^ e₁ * (m₂ * 2 ^ e₂) : ℚ) / 2 ^ (e₁ + e₂) = (m₁ * m₂ : Nat) := by
      rw [zpow_add₀ two_ne_zero]
      push_cast
      field_simp
    rw [hproduct]
    exact shows_natCast _
  · simp only [Format.targetExponent, totalExponent, Format.mantissaBits]
    omega

/-- The digits of a quotient tell how it goes on. -/
theorem shows_div (m : Nat) (h₂ : 0 < m₂) :
    Shows (.ofMantissaAndAccuracy (m / m₂) (accuracyOfFraction (m % m₂) m₂)) ((m : ℚ) / m₂) := by
  have hpos : (0 : ℚ) < m₂ := by exact_mod_cast h₂
  have hparts : (m : ℚ) = m₂ * (m / m₂ : Nat) + (m % m₂ : Nat) := by
    exact_mod_cast (Nat.div_add_mod m m₂).symm
  have hrest : (m : ℚ) / m₂ = (m / m₂ : Nat) + (m % m₂ : Nat) / m₂ := by
    rw [hparts]
    field_simp
  have hlt : ((m % m₂ : Nat) : ℚ) < m₂ := by exact_mod_cast Nat.mod_lt m h₂
  rw [hrest]
  generalize m % m₂ = rest at *
  unfold accuracyOfFraction
  by_cases hzero : rest = 0
  · rw [if_pos hzero, hzero, Nat.cast_zero, zero_div, add_zero]
    exact shows_natCast _
  · have hpositive : (0 : ℚ) < rest := by exact_mod_cast Nat.pos_of_ne_zero hzero
    rw [if_neg hzero]
    rcases hcompare : compare (2 * rest) m₂ with _ | _ | _
    · have hless : (2 * rest : ℚ) < m₂ := by exact_mod_cast Nat.compare_eq_lt.mp hcompare
      have hhalf : (rest : ℚ) / m₂ < 1 / 2 := by
        rw [div_lt_iff₀ hpos]
        linarith
      have hsome : (0 : ℚ) < rest / m₂ := div_pos hpositive hpos
      simp only [Shows, ExtendedMantissa.ofMantissaAndAccuracy, if_true, if_false,
        Bool.false_eq_true]
      constructor <;> linarith
    · have hsame : (2 * rest : ℚ) = m₂ := by exact_mod_cast Nat.compare_eq_eq.mp hcompare
      have hhalf : (rest : ℚ) / m₂ = 1 / 2 := by
        rw [div_eq_iff hpos.ne']
        linarith
      simp [Shows, ExtendedMantissa.ofMantissaAndAccuracy, hhalf]
    · have hmore : (m₂ : ℚ) < 2 * rest := by exact_mod_cast Nat.compare_eq_gt.mp hcompare
      have hhalf : 1 / 2 < (rest : ℚ) / m₂ := by
        rw [lt_div_iff₀ hpos]
        linarith
      have hnext : (rest : ℚ) / m₂ < 1 := (div_lt_one hpos).mpr hlt
      simp only [Shows, ExtendedMantissa.ofMantissaAndAccuracy, if_true]
      constructor <;> linarith

/-- A quotient has as many digits as its parts tell, up to one. -/
theorem log2_div (h₁ : 0 < m₁) (h₂ : 0 < m₂) (k : Nat) :
    m₁.log2 + k ≤ (m₁ * 2 ^ k / m₂).log2 + 1 + m₂.log2 := by
  by_cases hle : m₁.log2 + k ≤ m₂.log2
  · omega
  · have hfirst : 2 ^ (m₁.log2 + k - (m₂.log2 + 1)) ≤ m₁ * 2 ^ k / m₂ := by
      rw [Nat.le_div_iff_mul_le h₂]
      calc 2 ^ (m₁.log2 + k - (m₂.log2 + 1)) * m₂
          ≤ 2 ^ (m₁.log2 + k - (m₂.log2 + 1)) * 2 ^ (m₂.log2 + 1) :=
            Nat.mul_le_mul_left _ Nat.lt_log2_self.le
        _ = 2 ^ m₁.log2 * 2 ^ k := by
            rw [← Nat.pow_add, ← Nat.pow_add, Nat.sub_add_cancel (by omega)]
        _ ≤ m₁ * 2 ^ k := Nat.mul_le_mul_right _ (Nat.log2_self_le h₁.ne')
    have hsome : m₁ * 2 ^ k / m₂ ≠ 0 := (Nat.lt_of_lt_of_le (Nat.two_pow_pos _) hfirst).ne'
    have := (Nat.le_log2 hsome).mpr hfirst
    omega

/-- A quotient is rounded to the magnitude whose interval holds it. -/
theorem div_eq (hx : x.Proper) (hr : x.Holds (m₁ * 2 ^ e₁ / (m₂ * 2 ^ e₂))) :
    UnpackedFloat.div .binary64 (.finite .positive m₁ e₁ h₁) (.finite .positive m₂ e₂ h₂) =
      .finite .positive x.mantissa x.exponent hx.pos := by
  obtain ⟨t, ht⟩ : ∃ t : Int, t = min (e₁ - e₂) (Format.binary64.targetExponent
      (totalExponent m₁ e₁ - totalExponent m₂ e₂)) := ⟨_, rfl⟩
  obtain ⟨k, hk⟩ : ∃ k : Nat, e₁ - e₂ = t + k := ⟨(e₁ - e₂ - t).toNat, by omega⟩
  have hshift : (e₁ - e₂ - t).toNat = k := by omega
  have hdigits := log2_div h₁ h₂ k
  unfold UnpackedFloat.div divCore
  dsimp only
  rw [← ht, hshift, Nat.shiftLeft_eq]
  refine roundWithAccuracy_eq hx hr ?_ ?_ _
  · have hpos : (0 : ℚ) < m₂ := by exact_mod_cast h₂
    have hquotient : (m₁ * 2 ^ e₁ / (m₂ * 2 ^ e₂) : ℚ) / 2 ^ t = (m₁ * 2 ^ k : Nat) / m₂ := by
      have hpower : (2 : ℚ) ^ e₁ = 2 ^ k * 2 ^ t * 2 ^ e₂ := by
        rw [← zpow_natCast, ← zpow_add₀ two_ne_zero, ← zpow_add₀ two_ne_zero]
        congr 1
        omega
      rw [hpower]
      push_cast
      field_simp
    rw [hquotient]
    exact shows_div _ h₂
  · simp only [Format.targetExponent, totalExponent, Format.mantissaBits, Format.minExponent]
      at ht ⊢
    omega

end Operations

end Magnitudes

end ProcessDisplay.Decimal
