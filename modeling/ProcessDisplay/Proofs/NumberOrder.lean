import Mathlib
import ProcessDisplay.Trace.Ring

/-!
# The order of numbers

A number is a sign and a magnitude, which are the bits of its pattern. The
numbers of one sign are ordered as their magnitudes are; so all numbers are
ordered as binary floating point has it, but for the two zeros, which come one
after the other. With NaN behind them this makes a total preorder of the bit
patterns, in which only the patterns of NaN are equivalent to others.
-/

namespace ProcessDisplay.Trace

open Float.Model Float.Model.UnpackedFloat

section Patterns

/-- The bits of a pattern below the sign. -/
def magnitude (bits : UInt64) : Nat := bits.toNat % 0x8000000000000000

/-- The sign of a pattern. -/
def signOf (bits : UInt64) : Sign :=
  if bits.toNat < 0x8000000000000000 then .positive else .negative

/-- The magnitude of the infinities, which only NaN exceeds. -/
def infinite : Nat := 0x7FF0000000000000

/-- Whether a pattern stands for NaN. -/
def isNaNPattern (bits : UInt64) : Bool := infinite < magnitude bits

/-- A pattern as an integer: the sign turns the order of the magnitudes round. -/
def patternKey (bits : UInt64) : Int :=
  if bits.toNat < 0x8000000000000000 then bits.toNat else 0x7FFFFFFFFFFFFFFF - (bits.toNat : Int)

/-- The order of patterns: numbers by their keys, and NaN behind them. -/
def comparePatterns (p q : UInt64) : Ordering :=
  match isNaNPattern p, isNaNPattern q with
  | false, false => compare (patternKey p) (patternKey q)
  | true, true => .eq
  | true, false => .gt
  | false, true => .lt

/-- The place of a pattern among all patterns; those of NaN share the last one. -/
def rank (bits : UInt64) : Int :=
  if isNaNPattern bits then 0x8000000000000000 else patternKey bits

/-- All numbers have their places before NaN. -/
theorem patternKey_lt (bits : UInt64) : patternKey bits < 0x8000000000000000 := by
  unfold patternKey
  split <;> omega

/-- Patterns are in the order of their places. -/
theorem comparePatterns_eq (p q : UInt64) : comparePatterns p q = compare (rank p) (rank q) := by
  have hp := patternKey_lt p
  have hq := patternKey_lt q
  unfold comparePatterns rank
  cases isNaNPattern p <;> cases isNaNPattern q
  · rfl
  · exact (Int.compare_eq_lt.mpr hp).symm
  · exact (Int.compare_eq_gt.mpr hq).symm
  · rfl

/-- The order of patterns is a total preorder. -/
instance : Std.TransCmp comparePatterns where
  eq_swap {p q} := by
    rw [comparePatterns_eq, comparePatterns_eq]
    exact Std.OrientedCmp.eq_swap
  isLE_trans {p q r} hpq hqr := by
    rw [comparePatterns_eq] at *
    exact Std.TransCmp.isLE_trans hpq hqr

end Patterns

section Unpacking

/-- The biased exponent of a magnitude; the least one counts as the next one. -/
def biased (a : Nat) : Nat := max (a / 0x10000000000000) 1

/-- The digits of a magnitude, with the leading one that is not stored. -/
def significand (a : Nat) : Nat := a - (biased a - 1) * 0x10000000000000

/-- Only zero has no digits. -/
theorem significand_pos {a : Nat} (h : a ≠ 0) : 0 < significand a := by
  unfold significand biased
  omega

/-- The number with a sign and a magnitude. -/
def numberOf (s : Sign) (a : Nat) : UnpackedFloat :=
  if infinite < a then .notANumber
  else if a = infinite then .infinity s
  else if h : a = 0 then .zero s
  else .finite s (significand a) (biased a - 1075) (significand_pos h)

/-- Bits behind others make up a whole number with them. -/
theorem toNat_append {n k : Nat} (x : BitVec n) (y : BitVec k) :
    (x ++ y).toNat = x.toNat * 2 ^ k + y.toNat := by
  rw [BitVec.toNat_append, ← Nat.shiftLeft_add_eq_or_of_lt y.isLt, Nat.shiftLeft_eq]

variable (bits : UInt64)

/-- A magnitude has 63 bits. -/
theorem magnitude_lt : magnitude bits < 0x8000000000000000 := Nat.mod_lt _ (by decide)

/-- The digits of a pattern. -/
theorem toNat_unpackMantissa :
    (@unpackMantissa .binary64 bits.toBitVec).toNat =
      magnitude bits % 0x10000000000000 := by
  simp [unpackMantissa, magnitude]

/-- The exponent of a pattern. -/
theorem toNat_unpackExponent :
    (@unpackExponent .binary64 bits.toBitVec).toNat =
      magnitude bits / 0x10000000000000 := by
  simp only [unpackExponent, magnitude, BitVec.toNat_cast, BitVec.extractLsb_toNat,
    Nat.shiftRight_eq_div_pow, UInt64.toNat_toBitVec]
  omega

/-- The sign of a pattern is its first bit. -/
theorem ofBitVec_unpackSign :
    Sign.ofBitVec (@unpackSign .binary64 bits.toBitVec) = signOf bits := by
  have hlt := bits.toNat_lt
  have hsign : (@unpackSign .binary64 bits.toBitVec).toNat =
      bits.toNat / 0x8000000000000000 % 2 := by
    simp [unpackSign, Nat.shiftRight_eq_div_pow]
  unfold Sign.ofBitVec signOf
  by_cases h : bits.toNat < 0x8000000000000000
  · rw [if_pos (BitVec.eq_of_toNat_eq (by rw [hsign, BitVec.toNat_ofNat]; omega)), if_pos h]
  · rw [if_neg (fun heq => ?_), if_neg h]
    rw [heq, BitVec.toNat_ofNat] at hsign
    omega

/-- The last exponent is that of the infinities and of NaN. -/
theorem unpackExponent_eq_last :
    @unpackExponent .binary64 bits.toBitVec = -1#11 ↔ infinite ≤ magnitude bits := by
  have hlt := magnitude_lt bits
  have hlast : (-1#11).toNat = 2047 := rfl
  rw [← BitVec.toNat_inj, toNat_unpackExponent, hlast, infinite]
  omega

/-- The first exponent is that of zero and of the numbers below the normal ones. -/
theorem unpackExponent_eq_zero :
    @unpackExponent .binary64 bits.toBitVec = 0#11 ↔
      magnitude bits < 0x10000000000000 := by
  rw [← BitVec.toNat_inj, toNat_unpackExponent, BitVec.toNat_zero]
  omega

/-- The digits that are stored may all be zero. -/
theorem unpackMantissa_eq_zero :
    @unpackMantissa .binary64 bits.toBitVec = 0#52 ↔
      magnitude bits % 0x10000000000000 = 0 := by
  rw [← BitVec.toNat_inj, toNat_unpackMantissa, BitVec.toNat_zero]

/-- A pattern is the number of its sign and its magnitude. -/
theorem unpack_eq :
    UnpackedFloat.unpack .binary64 bits.toBitVec = numberOf (signOf bits) (magnitude bits) := by
  have hinfinite : infinite = 0x7FF0000000000000 := rfl
  have hlt := magnitude_lt bits
  have hlast := unpackExponent_eq_last bits
  have hleast := unpackExponent_eq_zero bits
  have hnone := unpackMantissa_eq_zero bits
  unfold UnpackedFloat.unpack numberOf
  simp only [ofBitVec_unpackSign, hlast, hleast, hnone, toNat_unpackExponent,
    toNat_unpackMantissa, Format.exponentBias]
  split
  · split
    · rw [if_neg (by omega), if_pos (by omega)]
    · rw [if_pos (by omega)]
  · rw [if_neg (c := infinite < _) (by omega), if_neg (c := _ = infinite) (by omega)]
    split
    · split
      · rw [dif_pos (by omega)]
      · rw [dif_neg (by omega)]
        congr 1
        · unfold significand biased
          omega
        · unfold biased
          omega
    · rw [dif_neg (by omega)]
      congr 1
      · have hpower : 2 ^ Format.binary64.mantissaBitsWithoutImplicit = 0x10000000000000 := rfl
        refine (toNat_append 1#1 _).trans ?_
        rw [toNat_unpackMantissa, BitVec.toNat_ofNat, hpower]
        unfold significand biased
        omega
      · unfold biased
        omega

end Unpacking

section Comparison

/-- The magnitude of a number with its sign; the zeros are one. -/
def signed : Sign → Nat → Int
  | .positive, a => a
  | .negative, a => -a

/-- The kinds of numbers, NaN apart. -/
theorem numberOf_cases {a : Nat} (h : a ≤ infinite) (s : Sign) :
    (a = infinite ∧ numberOf s a = .infinity s) ∨ (a = 0 ∧ numberOf s a = .zero s) ∨
      ∃ hpos : a ≠ 0, a < infinite ∧
        numberOf s a = .finite s (significand a) (biased a - 1075) (significand_pos hpos) := by
  unfold numberOf
  rw [if_neg (Nat.not_lt.mpr h)]
  split
  · next heq => exact .inl ⟨heq, rfl⟩
  · next hne =>
    split
    · next hzero => exact .inr (.inl ⟨hzero, rfl⟩)
    · next hpos => exact .inr (.inr ⟨hpos, Nat.lt_of_le_of_ne h hne, rfl⟩)

/-- A magnitude is made up of its exponent and its digits. -/
theorem magnitude_parts (a : Nat) :
    a = (biased a - 1) * 0x10000000000000 + significand a := by
  unfold significand biased
  omega

/-- Exponents and then digits compare as the magnitudes do. -/
theorem compare_parts (a b : Nat) :
    (compare ((biased a : Int) - 1075) (biased b - 1075)).then
      (compare (significand a) (significand b)) = compare a b := by
  have ha := magnitude_parts a
  have hb := magnitude_parts b
  rcases Nat.lt_trichotomy (biased a) (biased b) with hlt | heq | hgt
  · have hless : a < b := by
      unfold biased at hlt
      omega
    rw [Int.compare_eq_lt.mpr (by omega), Nat.compare_eq_lt.mpr hless]
    rfl
  · rw [heq] at ha ⊢
    rw [Int.compare_eq_eq.mpr rfl, Ordering.then]
    rcases Nat.lt_trichotomy (significand a) (significand b) with hlt | hsame | hgt
    · rw [Nat.compare_eq_lt.mpr hlt, Nat.compare_eq_lt.mpr (by omega)]
    · rw [Nat.compare_eq_eq.mpr hsame, Nat.compare_eq_eq.mpr (by omega)]
    · rw [Nat.compare_eq_gt.mpr hgt, Nat.compare_eq_gt.mpr (by omega)]
  · have hgreater : b < a := by
      unfold biased at hgt
      omega
    rw [Int.compare_eq_gt.mpr (by omega), Nat.compare_eq_gt.mpr hgreater]
    rfl

/-- Signs compare as ones with these signs do. -/
theorem compare_sign (s t : Sign) : compare s t = compare (signed s 1) (signed t 1) := by
  cases s <;> cases t <;> rfl

/-- Numbers compare as their signed magnitudes do. -/
theorem compare_numberOf {a b : Nat} (ha : a ≤ infinite) (hb : b ≤ infinite) (s t : Sign) :
    (numberOf s a).compare (numberOf t b) = some (compare (signed s a) (signed t b)) := by
  have hinfinite : infinite = 0x7FF0000000000000 := rfl
  have hsame : ∀ o, (numberOf s a).compare (numberOf t b) = some o ↔
      compare (signed s a) (signed t b) = o := by
    intro o
    rcases numberOf_cases ha s with ⟨rfl, hx⟩ | ⟨rfl, hx⟩ | ⟨hapos, halt, hx⟩ <;>
      rcases numberOf_cases hb t with ⟨rfl, hy⟩ | ⟨rfl, hy⟩ | ⟨hbpos, hblt, hy⟩ <;>
        rw [hx, hy] <;> cases s <;> cases t <;> cases o <;>
          simp [UnpackedFloat.compare, signed, compare_parts, compare_sign, Nat.compare_eq_lt,
            Nat.compare_eq_gt, Int.compare_eq_lt, Int.compare_eq_gt] <;>
            omega
  exact (hsame _).mpr rfl

end Comparison

section Packing

/-- Packed components, read as a whole number. -/
theorem toNat_packComponents (s : Sign) (e : BitVec 11) (m : BitVec 52) :
    (packComponents .binary64 s e m).toNat =
      s.toBitVec.toNat * 0x8000000000000000 + e.toNat * 0x10000000000000 + m.toNat := by
  refine (toNat_append (s.toBitVec ++ e) m).trans ?_
  rw [toNat_append]
  omega

/-- A finite number is packed into its sign and its magnitude. -/
theorem toNat_pack_finite {a : Nat} (hpos : a ≠ 0) (hlt : a < infinite) (s : Sign) :
    (UnpackedFloat.pack .binary64
      (.finite s (significand a) (biased a - 1075) (significand_pos hpos))).toNat =
        s.toBitVec.toNat * 0x8000000000000000 + a := by
  have hinfinite : infinite = 0x7FF0000000000000 := rfl
  have hparts := magnitude_parts a
  have hbiased : biased a = max (a / 0x10000000000000) 1 := rfl
  have hexponent : ((biased a : Int) - 1075 + Format.binary64.exponentBias + (52 : Nat)).toNat =
      biased a := by
    simp only [Format.exponentBias]
    omega
  have hfits : ¬ 2 ^ Format.binary64.exponentBits ≤ biased a + 1 := by
    have hpower : 2 ^ Format.binary64.exponentBits = 2048 := rfl
    omega
  have hnormal : (significand a).log2 + 1 = Format.binary64.mantissaBits ↔
      0x10000000000000 ≤ a := by
    have hlog := Nat.log2_eq_iff (k := 52) (Nat.ne_of_gt (significand_pos hpos))
    simp only [Format.mantissaBits]
    omega
  have hstored : (BitVec.ofNat 11 (biased a)).toNat = biased a := by
    rw [BitVec.toNat_ofNat]
    exact Nat.mod_eq_of_lt (by omega)
  have hdigits : (BitVec.ofNat 52 (significand a)).toNat = significand a % 0x10000000000000 :=
    BitVec.toNat_ofNat _ _
  unfold UnpackedFloat.pack
  dsimp only
  rw [hexponent, if_neg hfits]
  by_cases hle : 0x10000000000000 ≤ a
  · rw [if_pos (hnormal.mpr hle), toNat_packComponents, hstored, hdigits]
    omega
  · rw [if_neg (mt hnormal.mp hle), toNat_packComponents, hdigits, BitVec.toNat_zero]
    omega

/-- A number is packed into its sign and its magnitude. -/
theorem toNat_pack_numberOf {a : Nat} (h : a ≤ infinite) (s : Sign) :
    (UnpackedFloat.pack .binary64 (numberOf s a)).toNat =
      s.toBitVec.toNat * 0x8000000000000000 + a := by
  rcases numberOf_cases h s with ⟨rfl, hx⟩ | ⟨rfl, hx⟩ | ⟨hpos, hlt, hx⟩
  · have hpacked : UnpackedFloat.pack .binary64 (.infinity s) =
        packComponents .binary64 s (-1#11) 0#52 := rfl
    have hlast : (-1#11).toNat = 2047 := rfl
    rw [hx, hpacked, toNat_packComponents, hlast, BitVec.toNat_zero, infinite]
  · have hpacked : UnpackedFloat.pack .binary64 (.zero s) =
        packComponents .binary64 s 0#11 0#52 := rfl
    rw [hx, hpacked, toNat_packComponents, BitVec.toNat_zero, BitVec.toNat_zero, Nat.zero_mul]
  · rw [hx, toNat_pack_finite hpos hlt]

end Packing

section Floats

variable {x y : Float}

/-- A float is not a number exactly if its pattern stands for NaN. -/
theorem isNaN_eq (x : Float) : x.isNaN = isNaNPattern x.toBits := by
  change (UnpackedFloat.unpack .binary64 x.toBits.toBitVec).isNaN = _
  rw [unpack_eq, isNaNPattern]
  by_cases h : infinite < magnitude x.toBits
  · rw [numberOf, if_pos h, decide_eq_true h]
    rfl
  · rw [decide_eq_false h]
    rcases numberOf_cases (Nat.le_of_not_lt h) (signOf x.toBits) with
      ⟨_, hx⟩ | ⟨_, hx⟩ | ⟨_, _, hx⟩ <;> rw [hx] <;> rfl

/-- The patterns of the two zeros. -/
theorem toBits_zeros : (0.0 : Float).toBits = 0 ∧ (-0.0 : Float).toBits = 0x8000000000000000 := by
  decide +kernel

/-- The zeros are numbers. -/
theorem isNaN_zeros : (0.0 : Float).isNaN = false ∧ (-0.0 : Float).isNaN = false := by
  rw [isNaN_eq, isNaN_eq, toBits_zeros.1, toBits_zeros.2]
  decide

/-- Floats with one pattern are one float. -/
theorem eq_of_toBits_eq (h : x.toBits = y.toBits) : x = y := by
  rcases x with ⟨⟨p, hp⟩⟩
  rcases y with ⟨⟨q, hq⟩⟩
  cases (show p = q from h)
  rfl

/-- There is one NaN. -/
theorem eq_of_isNaN (hx : x.isNaN = true) (hy : y.isNaN = true) : x = y := by
  have hpacked : ∀ z : Float, z.isNaN = true → z.toBits.toBitVec = packedNaN .binary64 := by
    intro z hz
    rw [isNaN_eq, isNaNPattern, decide_eq_true_iff] at hz
    have hinfinite : infinite = 0x7FF0000000000000 := rfl
    have hlt := magnitude_lt z.toBits
    refine z.toModel.valid.eq_packedNaN ?_ ?_
    · exact (unpackExponent_eq_last z.toBits).mpr (Nat.le_of_lt hz)
    · exact mt (unpackMantissa_eq_zero z.toBits).mp (by omega)
  exact eq_of_toBits_eq (UInt64.toBitVec_inj.mp ((hpacked x hx).trans (hpacked y hy).symm))

/-- Floats compare as their signed magnitudes do, and NaN does not compare. -/
theorem unpack_compare_iff (o : Ordering) :
    x.toModel.unpack.compare y.toModel.unpack = some o ↔
      x.isNaN = false ∧ y.isNaN = false ∧
        compare (signed (signOf x.toBits) (magnitude x.toBits))
          (signed (signOf y.toBits) (magnitude y.toBits)) = o := by
  change (UnpackedFloat.unpack .binary64 x.toBits.toBitVec).compare
    (UnpackedFloat.unpack .binary64 y.toBits.toBitVec) = some o ↔ _
  rw [unpack_eq, unpack_eq, isNaN_eq, isNaN_eq, isNaNPattern, isNaNPattern,
    decide_eq_false_iff_not, decide_eq_false_iff_not]
  by_cases hx : infinite < magnitude x.toBits
  · rw [numberOf, if_pos hx]
    exact iff_of_false (fun h => nomatch h) fun h => h.1 hx
  · by_cases hy : infinite < magnitude y.toBits
    · rw [numberOf.eq_1 (signOf y.toBits), if_pos hy]
      refine iff_of_false ?_ fun h => h.2.1 hy
      rcases numberOf_cases (Nat.le_of_not_lt hx) (signOf x.toBits) with
        ⟨_, hx⟩ | ⟨_, hx⟩ | ⟨_, _, hx⟩ <;> rw [hx] <;> exact fun h => nomatch h
    · rw [compare_numberOf (Nat.le_of_not_lt hx) (Nat.le_of_not_lt hy), Option.some_inj]
      exact ⟨fun h => ⟨hx, hy, h⟩, fun h => h.2.2⟩

/-- The order of floats is that of their signed magnitudes. -/
theorem float_lt_iff : x < y ↔
    x.isNaN = false ∧ y.isNaN = false ∧
      signed (signOf x.toBits) (magnitude x.toBits) <
        signed (signOf y.toBits) (magnitude y.toBits) := by
  have hlt : x < y ↔ x.toModel.unpack.compare y.toModel.unpack = some .lt := by
    refine Iff.trans ?_ beq_iff_eq
    refine Iff.trans ?_ decide_eq_true_iff
    rfl
  rw [hlt, unpack_compare_iff, Int.compare_eq_lt]

/-- A pattern that is no NaN is kept by its float. -/
theorem toBits_ofBits {bits : UInt64} (h : isNaNPattern bits = false) :
    (Float.ofBits bits).toBits = bits := by
  have hlt := bits.toNat_lt
  have hle : magnitude bits ≤ infinite := Nat.le_of_not_lt (of_decide_eq_false h)
  refine UInt64.toNat_inj.mp ?_
  change (UnpackedFloat.pack .binary64 (UnpackedFloat.unpack .binary64 bits.toBitVec)).toNat = _
  rw [unpack_eq, toNat_pack_numberOf hle]
  unfold signOf magnitude
  split
  · change 0 * _ + _ = _
    omega
  · change 1 * _ + _ = _
    omega

theorem isNaN_ofBits {bits : UInt64} : (Float.ofBits bits).isNaN = isNaNPattern bits := by
  rw [isNaN_eq]
  cases h : isNaNPattern bits with
  | false => rw [toBits_ofBits h, h]
  | true =>
    have hnan : UnpackedFloat.unpack .binary64 bits.toBitVec = .notANumber := by
      rw [unpack_eq, numberOf, if_pos (of_decide_eq_true h)]
    have hbits : (Float.ofBits bits).toBits = UInt64.ofBitVec (packedNaN .binary64) := by
      change UInt64.ofBitVec
        (UnpackedFloat.pack .binary64 (UnpackedFloat.unpack .binary64 bits.toBitVec)) = _
      rw [hnan]
      rfl
    rw [hbits]
    rfl

theorem rank_ofBits (bits : UInt64) : rank (Float.ofBits bits).toBits = rank bits := by
  unfold rank
  rw [← isNaN_eq, isNaN_ofBits]
  cases h : isNaNPattern bits with
  | false => rw [toBits_ofBits h]
  | true => rfl

theorem notAfter_iff_rank (x y : Float) : notAfter x y = true ↔ rank x.toBits ≤ rank y.toBits := by
  have hx := patternKey_lt x.toBits
  have hy := patternKey_lt y.toBits
  have hkey : ∀ z, orderKey z = patternKey z.toBits := fun z => rfl
  unfold notAfter rank
  rw [isNaN_eq, isNaN_eq]
  cases isNaNPattern x.toBits <;> cases isNaNPattern y.toBits <;> simp [hkey] <;> omega

/-- The keys of numbers are in order if the numbers are less or the same, or
if they are the two zeros. -/
theorem patternKey_le_iff (p q : UInt64) : patternKey p ≤ patternKey q ↔
    signed (signOf p) (magnitude p) < signed (signOf q) (magnitude q) ∨ p = q ∨
      p = 0x8000000000000000 ∧ q = 0 := by
  have hp := p.toNat_lt
  have hq := q.toNat_lt
  have hnegative : (0x8000000000000000 : UInt64).toNat = 0x8000000000000000 := rfl
  have hzero : (0 : UInt64).toNat = 0 := rfl
  rw [← UInt64.toNat_inj, ← UInt64.toNat_inj, ← UInt64.toNat_inj, hnegative, hzero]
  unfold patternKey signOf magnitude
  by_cases hps : p.toNat < 0x8000000000000000 <;> by_cases hqs : q.toNat < 0x8000000000000000 <;>
    simp only [hps, hqs, if_true, if_false, signed] <;> omega

/-- Numbers ascend, with a negative zero before zero, and NaN comes last. -/
inductive InOrder : Float → Float → Prop
  /-- The first number is less. -/
  | less {x y : Float} (h : x < y) : InOrder x y
  /-- The numbers are the same. -/
  | same (x : Float) : InOrder x x
  /-- The zeros. -/
  | zeros : InOrder (-0.0) 0.0
  /-- The second one is not a number. -/
  | last (x : Float) {y : Float} (h : y.isNaN = true) : InOrder x y

/-- One number does not come after another one if they are in order. -/
theorem notAfter_iff (x y : Float) : notAfter x y = true ↔ InOrder x y := by
  have hkey := patternKey_le_iff x.toBits y.toBits
  have hless := @float_lt_iff x y
  unfold notAfter
  by_cases hy : y.isNaN = true
  · rw [if_pos hy]
    exact iff_of_true rfl (.last x hy)
  · rw [if_neg hy]
    by_cases hx : x.isNaN = true
    · rw [if_pos hx]
      refine iff_of_false Bool.false_ne_true fun h => ?_
      cases h with
      | less h => exact Bool.false_ne_true ((hless.mp h).1.symm.trans hx)
      | same => exact hy hx
      | zeros => exact absurd hx (Bool.eq_false_iff.mp isNaN_zeros.2)
      | last _ h => exact hy h
    · rw [if_neg hx, decide_eq_true_iff]
      refine hkey.trans ⟨?_, fun h => ?_⟩
      · rintro (hlt | hsame | ⟨hnegative, hzero⟩)
        · exact .less (hless.mpr
            ⟨Bool.eq_false_of_not_eq_true hx, Bool.eq_false_of_not_eq_true hy, hlt⟩)
        · exact eq_of_toBits_eq hsame ▸ .same x
        · cases @eq_of_toBits_eq x (-0.0) (hnegative.trans toBits_zeros.2.symm)
          cases @eq_of_toBits_eq y 0.0 (hzero.trans toBits_zeros.1.symm)
          exact .zeros
      · cases h with
        | less h => exact .inl (hless.mp h).2.2
        | same => exact .inr (.inl rfl)
        | zeros => exact .inr (.inr ⟨toBits_zeros.2, toBits_zeros.1⟩)
        | last _ h => exact absurd h hy

/-- Floats that share a place are the same. -/
theorem eq_of_rank_eq (h : rank x.toBits = rank y.toBits) : x = y := by
  have hx := patternKey_lt x.toBits
  have hy := patternKey_lt y.toBits
  unfold rank at h
  rw [← isNaN_eq, ← isNaN_eq] at h
  cases hxnan : x.isNaN <;> cases hynan : y.isNaN <;> rw [hxnan, hynan] at h
  · refine eq_of_toBits_eq (UInt64.toNat_inj.mp ?_)
    simp only [patternKey, Bool.false_eq_true, if_false] at h
    split at h <;> split at h <;> omega
  · exact absurd h (Int.ne_of_lt hx)
  · exact absurd h.symm (Int.ne_of_lt hy)
  · exact eq_of_isNaN hxnan hynan

/-- All numbers are in order one way or the other. -/
theorem InOrder.total (x y : Float) : InOrder x y ∨ InOrder y x := by
  rw [← notAfter_iff, ← notAfter_iff, notAfter_iff_rank, notAfter_iff_rank]
  exact Int.le_total _ _

/-- What is in order with one in the middle is in order. -/
theorem InOrder.trans {z : Float} (hxy : InOrder x y) (hyz : InOrder y z) : InOrder x z := by
  rw [← notAfter_iff, notAfter_iff_rank] at *
  exact Int.le_trans hxy hyz

/-- Numbers that are in order both ways are the same. -/
theorem InOrder.antisymm (hxy : InOrder x y) (hyx : InOrder y x) : x = y := by
  rw [← notAfter_iff, notAfter_iff_rank] at hxy hyx
  exact eq_of_rank_eq (Int.le_antisymm hxy hyx)

/-- The comparison of floats is that of the patterns that they are made of. -/
theorem notAfter_ofBits (p q : UInt64) :
    notAfter (Float.ofBits p) (Float.ofBits q) = (comparePatterns p q).isLE := by
  rw [Bool.eq_iff_iff, notAfter_iff_rank, rank_ofBits, rank_ofBits, comparePatterns_eq,
    Int.isLE_compare]

/-- Whatever its sign, a pattern of NaN stands behind infinity, and beside the others. -/
example : comparePatterns 0xFFF0000000000001 0x7FF0000000000000 = .gt ∧
    comparePatterns 0xFFF0000000000001 0x7FF8000000000000 = .eq := by decide

end Floats

end ProcessDisplay.Trace
