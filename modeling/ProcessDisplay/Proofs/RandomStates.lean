import Mathlib.Tactic.Common
import ProcessDisplay.Proofs.NoiseStreams

/-!
# States of random generators

A random generator that begins with a seed never comes to rest. A draw leaves
zero as it is and keeps different states apart, so no draws lead from a seed to
zero. Nor do they lead to any other state that stays: such a state would be
grown from seven bits by the left shifts of a draw, and of the words that can be
grown so only zero has the bits that its right shift asks for.
-/

namespace ProcessDisplay

namespace Generator

namespace Random

section Rest

variable {n : Nat} {s t u : BitVec 64}

/-- What the last left shift of a draw and the first one of the next draw add to
the word before them. -/
def spread (t : BitVec 64) : BitVec 64 := t <<< 17 ^^^ (t ^^^ t <<< 17) <<< 13

/-- A word that comes back to itself: what the left shifts add to it, the right
shift takes away. -/
def Repeats (t : BitVec 64) : Prop := spread t = (t ^^^ spread t) >>> 7

instance (t : BitVec 64) : Decidable (Repeats t) :=
  inferInstanceAs (Decidable (spread t = (t ^^^ spread t) >>> 7))

/-- The word before the last shift of a draw comes back to itself if the state
stays. -/
theorem repeats_of_shifts (hfirst : u = s ^^^ s <<< 13) (hmiddle : t = u ^^^ u >>> 7)
    (hlast : s = t ^^^ t <<< 17) : Repeats t := by
  have hu : u = t ^^^ spread t := by
    rw [hfirst, hlast, BitVec.xor_assoc]
    rfl
  have hspread : spread t = u >>> 7 := by
    calc spread t = t ^^^ u := by rw [hu, ← BitVec.xor_assoc, BitVec.xor_self, BitVec.zero_xor]
      _ = u >>> 7 := by
        rw [hmiddle, BitVec.xor_comm, ← BitVec.xor_assoc, BitVec.xor_self, BitVec.zero_xor]
  rw [hu] at hspread
  exact hspread

/-- Words agree on a number of lowest bits. -/
def Agree (n : Nat) (s t : BitVec 64) : Prop := ∀ i < n, s.getLsbD i = t.getLsbD i

/-- Fewer bits agree as well. -/
theorem Agree.mono {m : Nat} (h : Agree n s t) (hle : m ≤ n) : Agree m s t :=
  fun i hi => h i (Nat.lt_of_lt_of_le hi hle)

/-- A left shift makes more bits agree. -/
theorem Agree.shiftLeft (h : Agree n s t) (k : Nat) : Agree (n + k) (s <<< k) (t <<< k) := by
  intro i hi
  rw [BitVec.getLsbD_shiftLeft, BitVec.getLsbD_shiftLeft]
  by_cases hik : i < k
  · simp only [hik, decide_true, Bool.not_true, Bool.and_false, Bool.false_and]
  · rw [h (i - k) (by omega)]

/-- Combinations agree where their parts do. -/
theorem Agree.xor {s' t' : BitVec 64} (h : Agree n s t) (h' : Agree n s' t') :
    Agree n (s ^^^ s') (t ^^^ t') := by
  intro i hi
  rw [BitVec.getLsbD_xor, BitVec.getLsbD_xor, h i hi, h' i hi]

/-- Given lowest bits with the bits above them that a word asks for to come back
to itself. -/
def extend (low t : BitVec 64) : BitVec 64 := low ^^^ spread t ^^^ spread t <<< 7

/-- Every extension makes thirteen more bits agree. -/
theorem Agree.extend (h : Agree n s t) (low : BitVec 64) :
    Agree (n + 13) (extend low s) (extend low t) := by
  have hlast : Agree (n + 13) (s <<< 17) (t <<< 17) := (h.shiftLeft 17).mono (by omega)
  have hinner : Agree n (s ^^^ s <<< 17) (t ^^^ t <<< 17) := h.xor (hlast.mono (by omega))
  have hspread : Agree (n + 13) (spread s) (spread t) := hlast.xor (hinner.shiftLeft 13)
  have hlow : Agree (n + 13) low low := fun _ _ => rfl
  exact (hlow.xor hspread).xor ((hspread.shiftLeft 7).mono (by omega))

/-- The lowest seven bits of a word. -/
def lowest (t : BitVec 64) : BitVec 7 := t.setWidth 7

/-- The word that is grown from lowest bits: each extension settles thirteen of
its bits. -/
def grown (low : BitVec 7) : BitVec 64 := (extend (low.setWidth 64))^[5] 0

/-- A word that comes back to itself extends its own lowest bits. -/
theorem extend_lowest (h : Repeats t) : extend ((lowest t).setWidth 64) t = t := by
  have hbits : ∀ i, (spread t).getLsbD i = (t ^^^ spread t).getLsbD (7 + i) := by
    intro i
    rw [← BitVec.getLsbD_ushiftRight, ← h]
  have hclear : ∀ i < 7, (spread t).getLsbD i = false := by
    intro i hi
    have hfirst : i < 13 := by omega
    have hlast : i < 17 := by omega
    simp [spread, hfirst, hlast]
  refine BitVec.eq_of_getLsbD_eq fun i hi => ?_
  simp only [extend, lowest, BitVec.getLsbD_xor, BitVec.getLsbD_setWidth, BitVec.getLsbD_shiftLeft]
  by_cases hlow : i < 7
  · rw [hclear i hlow]
    simp only [hlow, hi, decide_true, Bool.true_and, Bool.not_true, Bool.false_and, Bool.xor_false]
  · have hplace : 7 + (i - 7) = i := by omega
    rw [hbits (i - 7), BitVec.getLsbD_xor, hplace]
    simp only [hlow, hi, decide_false, decide_true, Bool.false_and, Bool.and_true, Bool.not_false,
      Bool.true_and, Bool.false_xor]
    rw [Bool.xor_comm, Bool.xor_assoc, Bool.xor_self, Bool.xor_false]

/-- A word that comes back to itself is grown from its lowest bits. -/
theorem eq_grown (h : Repeats t) : t = grown (lowest t) := by
  have hagree : ∀ k, Agree (13 * k) t ((extend ((lowest t).setWidth 64))^[k] 0) := by
    intro k
    induction k with
    | zero => exact fun i hi => absurd hi (Nat.not_lt_zero i)
    | succ k ih =>
      have hnext := ih.extend ((lowest t).setWidth 64)
      rw [extend_lowest h] at hnext
      rw [Function.iterate_succ_apply']
      exact hnext
  exact BitVec.eq_of_getLsbD_eq fun i hi => hagree 5 i (by omega)

/-- Of the words that are grown from seven bits only one comes back to itself. -/
theorem eq_zero_of_repeats_grown : ∀ low : BitVec 7, Repeats (grown low) → low = 0 := by
  decide +kernel

/-- Zero is the only word that comes back to itself. -/
theorem eq_zero_of_repeats (h : Repeats t) : t = 0 := by
  have hgrown : t = grown (lowest t) := eq_grown h
  have hlow : lowest t = 0 := eq_zero_of_repeats_grown (lowest t) (hgrown ▸ h)
  rw [hgrown, hlow]
  decide +kernel

end Rest

/-- Zero is the only state that a draw leaves as it is. -/
theorem following_eq_self_iff {s : UInt64} : following s = s ↔ s = 0 := by
  constructor
  · intro h
    obtain ⟨u, hfirst⟩ : ∃ u, u = s.toBitVec ^^^ s.toBitVec <<< 13 := ⟨_, rfl⟩
    obtain ⟨t, hmiddle⟩ : ∃ t, t = u ^^^ u >>> 7 := ⟨_, rfl⟩
    have hlast : s.toBitVec = t ^^^ t <<< 17 := by
      subst hmiddle hfirst
      exact (congrArg UInt64.toBitVec h).symm
    have hzero : t = 0 := eq_zero_of_repeats (repeats_of_shifts hfirst hmiddle hlast)
    rw [hzero] at hlast
    exact UInt64.toBitVec_inj.mp hlast
  · rintro rfl
    rfl

/-- A generator is told by its state. -/
theorem state_inj (r r' : Random) : r.state = r'.state ↔ r = r' := by
  cases r
  cases r'
  rw [mk.injEq]

/-- No draws lead from another state to zero. -/
theorem state_iterate_advance_eq_zero_iff {r : Random} (draws : Nat) :
    (advance^[draws] r).state = 0 ↔ r.state = 0 := by
  have hrest : advance^[draws] ⟨0⟩ = ⟨0⟩ := Function.iterate_fixed rfl draws
  calc (advance^[draws] r).state = 0 ↔ advance^[draws] r = advance^[draws] ⟨0⟩ := by
        rw [hrest]
        exact state_inj _ ⟨0⟩
    _ ↔ r = ⟨0⟩ := iterate_advance_eq_iff draws
    _ ↔ r.state = 0 := (state_inj r ⟨0⟩).symm

/-- The generator of a seed is not at zero. -/
theorem state_ofSeed_ne_zero (seed : UInt64) : (ofSeed seed).state ≠ 0 := by
  unfold ofSeed
  dsimp only
  split
  · decide
  · assumption

/-- A request for a number. -/
inductive Request where
  /-- A number of the unit interval. -/
  | unit
  /-- A number between two bounds. -/
  | between (low high : Float)

/-- The number that a request is given, and the generator after it. -/
def answer (r : Random) : Request → Float × Random
  | .unit => r.draw
  | .between low high => r.between low high

/-- The generator after requests in order. -/
def after (r : Random) (requests : List Request) : Random :=
  requests.foldl (fun r request => (r.answer request).2) r

/-- Every request is one draw. -/
theorem answer_advances (r : Random) (request : Request) : (r.answer request).2 = r.advance := by
  cases request <;> rfl

/-- Requests are as many draws. -/
theorem after_eq (r : Random) (requests : List Request) :
    r.after requests = advance^[requests.length] r := by
  induction requests generalizing r with
  | nil => rfl
  | cons request rest ih =>
    rw [List.length_cons, Function.iterate_succ_apply, ← answer_advances r request]
    exact ih (r.answer request).2

/-- A generator of a seed is not at zero after any requests. Each request leads
from a state to the one that follows it, which follows no other state, and zero
alone follows itself. So generators are in the same state after equally many
requests exactly if they were so before. -/
theorem never_stuck {requests requests' : List Request}
    (hlength : requests.length = requests'.length) :
    (∀ seed, ((ofSeed seed).after requests).state ≠ 0) ∧
    (∀ (r : Random) request, (r.answer request).2.state = following r.state) ∧
    Function.Injective following ∧
    (∀ s, following s = s ↔ s = 0) ∧
    ∀ r r' : Random,
      (r.after requests).state = (r'.after requests').state ↔ r.state = r'.state := by
  refine ⟨fun seed => ?_, fun r request => ?_, following_injective,
    fun s => following_eq_self_iff, fun r r' => ?_⟩
  · rw [after_eq, Ne, state_iterate_advance_eq_zero_iff]
    exact state_ofSeed_ne_zero seed
  · rw [answer_advances]
    rfl
  · rw [state_inj, state_inj, after_eq, after_eq, hlength]
    exact iterate_advance_eq_iff requests'.length

/-- Two draws each, by other requests, keep the generators of the seeds zero and
one apart and from zero. -/
theorem never_stuck_zero_seed :
    let mixed := [Request.unit, .between (-5.0) 5.0]
    let bounded := [Request.between 0.0 1.0, .between 0.0 2.0]
    mixed.length = bounded.length ∧ ((ofSeed 0).after mixed).state ≠ 0 ∧
      ((ofSeed 0).after mixed).state ≠ ((ofSeed 1).after bounded).state := by
  intro mixed bounded
  obtain ⟨hzero, -, -, -, hsame⟩ := never_stuck (show mixed.length = bounded.length from rfl)
  exact ⟨rfl, hzero 0, fun h => absurd ((hsame (ofSeed 0) (ofSeed 1)).mp h) (by decide)⟩

end Random

end Generator

namespace Engine

open Generator

variable {C : FormulaCompiler} {R : ScriptInterpreter}

/-- The noise of a display is never at zero, unless the generator is the
application's. -/
theorem state_ne_zero_of_run {settings : Settings} {epoch : Time.Instant} {panel : Panel}
    {operations : List Operation} {answers : List Answer} {s : Stage C R}
    (hrun : (Stage.mk (Engine.start C R settings epoch) panel).run operations =
      .done (answers, s))
    {i : Nat} {slot : GeneratorSlot} {r : Random}
    (hslot : s.engine.state.generators[i]? = some slot)
    (hforeign : slot.variableId ∉ (operations.zip answers).foldl registered [])
    (hr : slot.generator.source.random? = some r) : r.state ≠ 0 := by
  have hstart := Session.start (C := C) (R := R) settings epoch panel
  have hnone : (Engine.start C R settings epoch).state.Streams (seedOf settings epoch) [] :=
    fun i slot hslot => nomatch hslot
  obtain ⟨draws, rfl⟩ := run_streams hstart hrun hnone i slot hslot hforeign r hr
  rw [Ne, Random.state_iterate_advance_eq_zero_iff]
  exact Random.state_ofSeed_ne_zero _

end Engine

end ProcessDisplay
