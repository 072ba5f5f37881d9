import Mathlib
import ProcessDisplay.Engine.Registry

/-!
# Streams of random numbers

A random generator never joins another one: a draw maps different states to
different states, since a shift combined with its argument can be undone. The
seeds of the generators of an engine are the golden step apart, which is odd,
so they are different at different positions. Zero is the exception: it
stands for the golden step, which is the seed of the next position.
-/

namespace ProcessDisplay

namespace Generator

namespace Random

/-- A word that is its own left shift is zero. -/
theorem eq_zero_of_shiftLeft {n k : Nat} {d : BitVec n} (hk : 0 < k) (h : d = d <<< k) :
    d = 0#n := by
  have hbits : ∀ i, d.getLsbD i = false := by
    intro i
    induction i using Nat.strong_induction_on with
    | _ i ih =>
      rw [h, BitVec.getLsbD_shiftLeft]
      by_cases hik : i < k
      · simp [hik]
      · simp [ih (i - k) (by omega)]
  refine BitVec.eq_of_getLsbD_eq fun i _ => ?_
  rw [hbits, BitVec.getLsbD_zero]

/-- A word that is its own right shift is zero. -/
theorem eq_zero_of_ushiftRight {n k : Nat} {d : BitVec n} (hk : 0 < k) (h : d = d >>> k) :
    d = 0#n := by
  -- bits are looked for from the highest one down
  have hbits : ∀ m i, n ≤ i + m → d.getLsbD i = false := by
    intro m
    induction m with
    | zero => exact fun i hi => BitVec.getLsbD_of_ge d i hi
    | succ m ih =>
      intro i hi
      rw [h, BitVec.getLsbD_ushiftRight]
      exact ih (k + i) (by omega)
  refine BitVec.eq_of_getLsbD_eq fun i _ => ?_
  rw [hbits n i (by omega), BitVec.getLsbD_zero]

/-- Equal combinations of two words each, regrouped. -/
theorem xor_eq_xor_of_eq {n : Nat} {a b c d : BitVec n} (h : a ^^^ b = c ^^^ d) :
    a ^^^ c = b ^^^ d := by
  calc a ^^^ c = (a ^^^ b) ^^^ (b ^^^ c) := by
        rw [BitVec.xor_assoc, ← BitVec.xor_assoc b b c, BitVec.xor_self, BitVec.zero_xor]
    _ = (c ^^^ c) ^^^ (b ^^^ d) := by
        rw [h]
        ac_rfl
    _ = b ^^^ d := by rw [BitVec.xor_self, BitVec.zero_xor]

/-- A left shift combined with its argument can be undone. -/
theorem xor_shiftLeft_injective {n k : Nat} (hk : 0 < k) :
    Function.Injective fun s : BitVec n => s ^^^ s <<< k := by
  intro s t h
  have hdiff : s ^^^ t = (s ^^^ t) <<< k := by
    rw [BitVec.shiftLeft_xor_distrib]
    exact xor_eq_xor_of_eq h
  exact BitVec.xor_eq_zero_iff.mp (eq_zero_of_shiftLeft hk hdiff)

/-- A right shift combined with its argument can be undone. -/
theorem xor_ushiftRight_injective {n k : Nat} (hk : 0 < k) :
    Function.Injective fun s : BitVec n => s ^^^ s >>> k := by
  intro s t h
  have hdiff : s ^^^ t = (s ^^^ t) >>> k := by
    rw [BitVec.ushiftRight_xor_distrib]
    exact xor_eq_xor_of_eq h
  exact BitVec.xor_eq_zero_iff.mp (eq_zero_of_ushiftRight hk hdiff)

/-- Different states are followed by different states. -/
theorem following_injective : Function.Injective following := by
  intro s t h
  have hwords : (following s).toBitVec = (following t).toBitVec := congrArg UInt64.toBitVec h
  have hlast := xor_shiftLeft_injective (k := 17) (by decide) hwords
  have hmiddle := xor_ushiftRight_injective (k := 7) (by decide) hlast
  have hfirst := xor_shiftLeft_injective (k := 13) (by decide) hmiddle
  exact UInt64.toBitVec_inj.mp hfirst

/-- A draw keeps generators apart. -/
theorem advance_injective : Function.Injective advance := by
  intro r r' h
  have hstate : r.state = r'.state := following_injective (congrArg state h)
  cases r
  cases r'
  exact congrArg Random.mk hstate

/-- Generators draw the same at some place exactly if they are the same. -/
theorem iterate_advance_eq_iff {r r' : Random} (draws : Nat) :
    advance^[draws] r = advance^[draws] r' ↔ r = r' :=
  (advance_injective.iterate draws).eq_iff

/-- Only zero and its stand-in are seeds of one generator. -/
theorem ofSeed_eq_iff {a b : UInt64} : ofSeed a = ofSeed b ↔
    a = b ∨ (a = 0 ∧ b = goldenStep) ∨ (a = goldenStep ∧ b = 0) := by
  have hstep : goldenStep ≠ 0 := by decide
  unfold ofSeed
  rw [Random.mk.injEq]
  by_cases ha : a = 0 <;> by_cases hb : b = 0 <;> simp_all [eq_comm]

end Random

/-- The golden step is odd: multiples of it are different. -/
theorem mul_goldenStep_injective : Function.Injective (· * goldenStep) := by
  intro a b h
  have hinverse : goldenStep * 0xF1DE83E19937733D = 1 := by decide
  have hundone := congrArg (· * 0xF1DE83E19937733D) h
  simpa only [UInt64.mul_assoc, hinverse, UInt64.mul_one] using hundone

end Generator

namespace Engine

open Generator

/-- The random generator of the position of a new signal. -/
def slotStart (seed : UInt64) (position : Nat) : Random := Random.ofSeed (slotSeed seed position)

/-- Positions have different seeds, until they have counted 64 bits round. -/
theorem slotSeed_eq_iff (seed : UInt64) (i j : Nat) :
    slotSeed seed i = slotSeed seed j ↔ i % 2 ^ 64 = j % 2 ^ 64 := by
  rw [← UInt64.toNat_ofNat', ← UInt64.toNat_ofNat', UInt64.toNat_inj]
  constructor
  · intro h
    exact mul_goldenStep_injective ((UInt64.add_right_inj seed).mp h)
  · intro h
    unfold slotSeed
    rw [h]

/-- The golden step is the seed of the position behind one with the zero seed. -/
theorem slotSeed_eq_goldenStep_iff {seed : UInt64} {i : Nat} (j : Nat)
    (hzero : slotSeed seed i = 0) :
    slotSeed seed j = goldenStep ↔ j % 2 ^ 64 = (i + 1) % 2 ^ 64 := by
  have hnext : slotSeed seed (i + 1) = goldenStep := by
    have hsplit : slotSeed seed (i + 1) = slotSeed seed i + goldenStep := by
      unfold slotSeed
      rw [UInt64.ofNat_add, UInt64.add_mul, ← UInt64.add_assoc]
      rfl
    rw [hsplit, hzero, UInt64.zero_add]
  rw [← hnext, slotSeed_eq_iff]

/-- Two positions start with the same generator exactly if they are the same or
one of them has the zero seed and the other one comes next, where positions
count 64 bits round. -/
theorem slotStart_eq_iff (seed : UInt64) (i j : Nat) :
    slotStart seed i = slotStart seed j ↔ i % 2 ^ 64 = j % 2 ^ 64 ∨
      (slotSeed seed i = 0 ∧ j % 2 ^ 64 = (i + 1) % 2 ^ 64) ∨
      (slotSeed seed j = 0 ∧ i % 2 ^ 64 = (j + 1) % 2 ^ 64) := by
  have hfirst : (slotSeed seed i = 0 ∧ slotSeed seed j = goldenStep) ↔
      (slotSeed seed i = 0 ∧ j % 2 ^ 64 = (i + 1) % 2 ^ 64) :=
    and_congr_right fun hzero => slotSeed_eq_goldenStep_iff j hzero
  have hsecond : (slotSeed seed i = goldenStep ∧ slotSeed seed j = 0) ↔
      (slotSeed seed j = 0 ∧ i % 2 ^ 64 = (j + 1) % 2 ^ 64) :=
    and_comm.trans (and_congr_right fun hzero => slotSeed_eq_goldenStep_iff i hzero)
  unfold slotStart
  rw [Random.ofSeed_eq_iff, slotSeed_eq_iff, hfirst, hsecond]

end Engine

end ProcessDisplay
