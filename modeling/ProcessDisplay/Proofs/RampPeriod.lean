import Mathlib.Data.Rat.Floor
import Mathlib.Tactic.Linarith
import Mathlib.Tactic.Ring
import ProcessDisplay.Generator.Basic

/-!
# The period of a ramp

A ramp goes on by its step as long as it stays within the range and returns
to its first end otherwise. Over exact numbers the values within one sweep are
those whose multiple of the step still fits in the width of the range, so the
ramp is periodic and each of its values is known in advance. A range narrower
than the step leaves one value, and a step of zero never moves.
-/

namespace ProcessDisplay.Generator

namespace Ramp

/-- The end of the range at which a ramp starts and to which it returns. -/
def firstEnd (low high step : ℚ) : ℚ := if 0 ≤ step then low else high

/-- The values of one sweep from end to end. -/
def period (low high step : ℚ) : ℕ := ⌊(high - low) / |step|⌋₊ + 1

/-- The value of a ramp of a number, counted from zero. -/
def sample (low high step : ℚ) (k : ℕ) : ℚ := ((start low high step).atIndex k).current

/-- A value lies in the range. -/
def InRange (low high x : ℚ) : Prop := low ≤ x ∧ x ≤ high

instance (low high x : ℚ) : Decidable (InRange low high x) :=
  inferInstanceAs (Decidable (low ≤ x ∧ x ≤ high))

variable {low high step : ℚ}

/-- The first end lies in the range. -/
theorem inRange_firstEnd (hle : low ≤ high) : InRange low high (firstEnd low high step) := by
  unfold firstEnd
  split
  · exact ⟨le_rfl, hle⟩
  · exact ⟨hle, le_rfl⟩

/-- The range and the step of a ramp stay. -/
theorem eq_of_atIndex (r : Ramp ℚ) (k : ℕ) :
    r.atIndex k = ⟨r.low, r.high, r.step, (r.atIndex k).current⟩ := by
  induction k with
  | zero => rfl
  | succ k ih => rw [atIndex, ih]; rfl

/-- A ramp within its range goes on while it stays there and otherwise returns
to its first end. -/
theorem following_of_inRange {x : ℚ} (hx : InRange low high x) :
    following ⟨low, high, step, x⟩ =
      if InRange low high (x + step) then x + step else firstEnd low high step := by
  obtain ⟨hlow, hhigh⟩ := hx
  unfold following firstEnd
  dsimp only
  by_cases habove : high < x + step
  · have hstep : 0 ≤ step := by linarith
    have hout : ¬InRange low high (x + step) := fun h => absurd h.2 (not_le.mpr habove)
    rw [if_pos habove, if_neg hout, if_pos hstep]
  · by_cases hbelow : x + step < low
    · have hstep : ¬0 ≤ step := by linarith
      have hout : ¬InRange low high (x + step) := fun h => absurd h.1 (not_le.mpr hbelow)
      rw [if_neg habove, if_pos hbelow, if_neg hout, if_neg hstep]
    · have hin : InRange low high (x + step) := ⟨not_lt.mp hbelow, not_lt.mp habove⟩
      rw [if_neg habove, if_neg hbelow, if_pos hin]

/-- The first value is the first end: the ramp starts one step before it. -/
theorem sample_zero (hle : low ≤ high) : sample low high step 0 = firstEnd low high step := by
  have hcurrent : (start low high step).current + step = firstEnd low high step := by
    unfold start firstEnd
    dsimp only
    split <;> ring
  obtain ⟨hlow, hhigh⟩ : InRange low high (firstEnd low high step) := inRange_firstEnd hle
  change following (start low high step) = _
  unfold following
  change (if high < (start low high step).current + step then low else
    if (start low high step).current + step < low then high else
      (start low high step).current + step) = _
  rw [hcurrent, if_neg (not_lt.mpr hhigh), if_neg (not_lt.mpr hlow)]

/-- One value leads to the next as long as the ramp stays in its range. -/
theorem sample_succ {k : ℕ} (hk : InRange low high (sample low high step k)) :
    sample low high step (k + 1) =
      if InRange low high (sample low high step k + step) then sample low high step k + step
      else firstEnd low high step := by
  have hnext : sample low high step (k + 1) =
      following ⟨low, high, step, sample low high step k⟩ := by
    change following ((start low high step).atIndex k) = _
    rw [eq_of_atIndex]
    rfl
  rw [hnext, following_of_inRange hk]

/-- The values of one sweep are those before the period ends. -/
theorem inRange_firstEnd_add (hle : low ≤ high) (hstep : step ≠ 0) (j : ℕ) :
    InRange low high (firstEnd low high step + j * step) ↔ j < period low high step := by
  have hpos : 0 < |step| := abs_pos.mpr hstep
  have hwidth : 0 ≤ (high - low) / |step| := div_nonneg (by linarith) hpos.le
  have hfits : j < period low high step ↔ j * |step| ≤ high - low := by
    rw [period, Nat.lt_add_one_iff, Nat.le_floor_iff hwidth, le_div_iff₀ hpos]
  rw [hfits]
  unfold firstEnd InRange
  rcases lt_or_gt_of_ne hstep with hneg | hpos
  · have hdown : (j : ℚ) * step ≤ 0 := mul_nonpos_of_nonneg_of_nonpos j.cast_nonneg hneg.le
    rw [if_neg (not_le.mpr hneg), abs_of_neg hneg]
    constructor
    · rintro ⟨hlow, -⟩
      linarith
    · intro hfit
      constructor <;> linarith
  · have hup : 0 ≤ (j : ℚ) * step := mul_nonneg j.cast_nonneg hpos.le
    rw [if_pos hpos.le, abs_of_pos hpos]
    constructor
    · rintro ⟨-, hhigh⟩
      linarith
    · intro hfit
      constructor <;> linarith

/-- A position of the next sweep follows the last one of a sweep. -/
theorem succ_mod_of_lt {k m : ℕ} (h : k % m + 1 < m) : (k + 1) % m = k % m + 1 := by
  rw [Nat.add_mod, Nat.mod_eq_of_lt (by omega : 1 < m), Nat.mod_eq_of_lt h]

/-- A sweep starts again after its last position. -/
theorem succ_mod_of_not_lt {k m : ℕ} (hm : 0 < m) (h : ¬k % m + 1 < m) : (k + 1) % m = 0 := by
  have hlt := Nat.mod_lt k hm
  have hlast : k % m + 1 = m := by omega
  rw [← Nat.mod_add_mod, hlast, Nat.mod_self]

/-- A value of a ramp that moves is its place in the sweep. -/
theorem sample_eq (hle : low ≤ high) (hstep : step ≠ 0) (k : ℕ) :
    sample low high step k =
      firstEnd low high step + (k % period low high step : ℕ) * step := by
  have hperiod : 0 < period low high step := Nat.succ_pos _
  induction k with
  | zero => rw [sample_zero hle, Nat.zero_mod, Nat.cast_zero, zero_mul, add_zero]
  | succ k ih =>
    have hk : InRange low high (sample low high step k) := by
      rw [ih]
      exact (inRange_firstEnd_add hle hstep _).mpr (Nat.mod_lt k hperiod)
    have hnext : sample low high step k + step =
        firstEnd low high step + (k % period low high step + 1 : ℕ) * step := by
      rw [ih]
      push_cast
      ring
    rw [sample_succ hk, hnext]
    by_cases hlt : k % period low high step + 1 < period low high step
    · rw [if_pos ((inRange_firstEnd_add hle hstep _).mpr hlt), succ_mod_of_lt hlt]
    · rw [if_neg (mt (inRange_firstEnd_add hle hstep _).mp hlt),
        succ_mod_of_not_lt hperiod hlt, Nat.cast_zero, zero_mul, add_zero]

/-- A ramp with a step of zero stays at the lower end. -/
theorem sample_of_step_zero (hle : low ≤ high) (k : ℕ) : sample low high 0 k = low := by
  have hfirst : firstEnd low high 0 = low := if_pos le_rfl
  induction k with
  | zero => rw [sample_zero hle, hfirst]
  | succ k ih =>
    have hk : InRange low high (sample low high 0 k) := by rw [ih]; exact ⟨le_rfl, hle⟩
    rw [sample_succ hk, add_zero, ih, hfirst, ite_self]

/-- Every value lies in the range. -/
theorem inRange_sample (hle : low ≤ high) (step : ℚ) (k : ℕ) :
    InRange low high (sample low high step k) := by
  rcases eq_or_ne step 0 with rfl | hstep
  · rw [sample_of_step_zero hle]
    exact ⟨le_rfl, hle⟩
  · rw [sample_eq hle hstep]
    exact (inRange_firstEnd_add hle hstep _).mpr (Nat.mod_lt k (Nat.succ_pos _))

/-- A ramp that has advanced has the values from the next one on. -/
theorem atIndex_advance (r : Ramp Float) (k : ℕ) : r.advance.atIndex k = r.atIndex (k + 1) := by
  induction k with
  | zero => rfl
  | succ k ih => rw [atIndex, ih]; rfl

end Ramp

namespace Source

/-- The samples of a source at some instants in turn. -/
def generateAll (source : Source) : List Time.Instant → Outcome (List (Option Sample))
  | [] => .done []
  | now :: rest => do
    let (sample, source) ← source.generate now
    let samples ← source.generateAll rest
    return sample :: samples

/-- The samples of a ramp are its values in turn. -/
theorem generateAll_ramp (r : Ramp Float) (instants : List Time.Instant) :
    (ramp r).generateAll instants = .done (instants.mapIdx fun k now =>
      some { value := .number (r.atIndex k).current, time := now }) := by
  induction instants generalizing r with
  | nil => rfl
  | cons now rest ih =>
    have hrest := ih r.advance
    rw [generateAll, generate, Outcome.done_bind]
    dsimp only
    rw [hrest, Outcome.done_bind, List.mapIdx_cons]
    simp only [Ramp.atIndex_advance]
    rfl

end Source

namespace Ramp

variable {low high : ℚ}

/-- Each value of a ramp is its place in a sweep of as many values as multiples
of the step fit in the range: upwards from the lower end, downwards from the
upper end, and the lower end for a step of zero. The first value is an end,
every value lies in the range, and the ramp returns to its first value exactly
where the next one would leave the range. The samples that a source generates
are the values of its ramp in turn. -/
theorem samples_of_range (hle : low ≤ high) (step : ℚ) (k : ℕ) :
    (0 < step → sample low high step k =
      low + (k % (⌊(high - low) / |step|⌋₊ + 1) : ℕ) * step) ∧
    (step < 0 → sample low high step k =
      high + (k % (⌊(high - low) / |step|⌋₊ + 1) : ℕ) * step) ∧
    (step = 0 → sample low high step k = low) ∧
    sample low high step 0 = (if 0 ≤ step then low else high) ∧
    (low ≤ sample low high step k ∧ sample low high step k ≤ high) ∧
    (low ≤ sample low high step k + step ∧ sample low high step k + step ≤ high →
      sample low high step (k + 1) = sample low high step k + step) ∧
    (sample low high step k + step < low ∨ high < sample low high step k + step →
      sample low high step (k + 1) = sample low high step 0) ∧
    ∀ (r : Ramp Float) (instants : List Time.Instant),
      (Source.ramp r).generateAll instants = .done (instants.mapIdx fun k now =>
        some { value := .number (r.atIndex k).current, time := now }) := by
  have hrange := inRange_sample hle step k
  have hsucc := sample_succ hrange
  refine ⟨fun hpos => ?_, fun hneg => ?_, fun hzero => ?_, sample_zero hle, hrange,
    fun hin => ?_, fun hout => ?_, Source.generateAll_ramp⟩
  · rw [sample_eq hle hpos.ne', firstEnd, if_pos hpos.le, period]
  · rw [sample_eq hle hneg.ne, firstEnd, if_neg (not_le.mpr hneg), period]
  · rw [hzero, sample_of_step_zero hle]
  · rw [hsucc]
    exact if_pos hin
  · have hleaves : ¬InRange low high (sample low high step k + step) := by
      rintro ⟨hlow, hhigh⟩
      rcases hout with hbelow | habove
      · exact absurd hlow (not_le.mpr hbelow)
      · exact absurd hhigh (not_le.mpr habove)
    rw [hsucc, if_neg hleaves, sample_zero hle]

/-- A step of three sweeps a range of ten in four values: the fifth one is the
lower end again. -/
theorem sample_four_of_ten_by_three :
    (0 : ℚ) ≤ 10 ∧ (0 : ℚ) < 3 ∧ sample 0 10 3 3 = 9 ∧ sample 0 10 3 4 = 0 := by
  have hfloor : ⌊(10 - 0 : ℚ) / |3|⌋₊ = 3 := by
    rw [abs_of_pos (by norm_num), Nat.floor_eq_iff (by norm_num)]
    norm_num
  have hthird := (samples_of_range (by norm_num : (0 : ℚ) ≤ 10) 3 3).1 (by norm_num)
  have hfourth := (samples_of_range (by norm_num : (0 : ℚ) ≤ 10) 3 4).1 (by norm_num)
  rw [hfloor] at hthird hfourth
  norm_num at hthird hfourth
  exact ⟨by norm_num, by norm_num, hthird, hfourth⟩

end Ramp

end ProcessDisplay.Generator
