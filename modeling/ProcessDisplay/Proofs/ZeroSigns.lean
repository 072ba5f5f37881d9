import Mathlib.Data.List.Forall2
import Mathlib.Tactic.Common
import ProcessDisplay.Proofs.NumberOrder
import ProcessDisplay.Script.Exchange

/-!
# The sign of zero

Values that compare equal are the same values, but for the signs of zeros. The
comparison passes over these signs, and so does the integer view; the texts of
values show them.
-/

namespace ProcessDisplay

open Trace

/-- The two numbers are the two zeros. -/
def OppositeZeros (x y : Float) : Prop := x = 0.0 ∧ y = -0.0 ∨ x = -0.0 ∧ y = 0.0

section Numbers

variable {x y : Float}

/-- The zeros are two numbers. -/
theorem OppositeZeros.ne (h : OppositeZeros x y) : x ≠ y := by
  have hpatterns : (0.0 : Float).toBits ≠ (-0.0 : Float).toBits := by
    rw [toBits_zeros.1, toBits_zeros.2]
    decide
  rcases h with ⟨rfl, rfl⟩ | ⟨rfl, rfl⟩
  · exact fun heq => hpatterns (congrArg Float.toBits heq)
  · exact fun heq => hpatterns (congrArg Float.toBits heq).symm

/-- How the two zeros look: their integer views, that they are finite, and how
their texts begin. -/
theorem views_zeros : Value.truncated 0.0 = Value.truncated (-0.0) ∧
    ((0.0 : Float).isInf = false ∧ (-0.0 : Float).isInf = false) ∧
    (Value.numberText none 0.0).toList.head? = some '0' ∧
    (Value.numberText none (-0.0)).toList.head? = some '-' := by
  decide +kernel

/-- The zeros have one integer view. -/
theorem OppositeZeros.truncated_eq (h : OppositeZeros x y) :
    Value.truncated x = Value.truncated y := by
  rcases h with ⟨rfl, rfl⟩ | ⟨rfl, rfl⟩
  · exact views_zeros.1
  · exact views_zeros.1.symm

/-- Numbers of one signed magnitude are the same number or the two zeros. -/
theorem signed_eq_iff (p q : UInt64) :
    signed (signOf p) (magnitude p) = signed (signOf q) (magnitude q) ↔
      p = q ∨ p = 0 ∧ q = 0x8000000000000000 ∨ p = 0x8000000000000000 ∧ q = 0 := by
  have hp := p.toNat_lt
  have hq := q.toNat_lt
  have hnegative : (0x8000000000000000 : UInt64).toNat = 0x8000000000000000 := rfl
  have hzero : (0 : UInt64).toNat = 0 := rfl
  simp only [← UInt64.toNat_inj, hnegative, hzero]
  unfold signOf magnitude
  by_cases hps : p.toNat < 0x8000000000000000 <;> by_cases hqs : q.toNat < 0x8000000000000000 <;>
    simp only [hps, hqs, if_true, if_false, signed] <;> omega

/-- Numbers compare equal if they are the same, NaN apart, or the two zeros. -/
theorem float_beq_iff_same :
    (x == y) = true ↔ x.isNaN = false ∧ x = y ∨ OppositeZeros x y := by
  have hbeq : (x == y) = (x.toModel.unpack.compare y.toModel.unpack == some .eq) := rfl
  have hbits : ∀ {z w : Float}, z.toBits = w.toBits ↔ z = w := fun {z w} =>
    ⟨eq_of_toBits_eq, congrArg Float.toBits⟩
  rw [hbeq, beq_iff_eq, unpack_compare_iff, Int.compare_eq_eq, signed_eq_iff, ← toBits_zeros.1,
    ← toBits_zeros.2, hbits, hbits, hbits, hbits, hbits]
  constructor
  · rintro ⟨hx, hy, hsame | hzeros⟩
    · exact .inl ⟨hx, hsame⟩
    · exact .inr hzeros
  · rintro (⟨hx, rfl⟩ | hzeros)
    · exact ⟨hx, hx, .inl rfl⟩
    · rcases hzeros with ⟨rfl, rfl⟩ | ⟨rfl, rfl⟩
      · exact ⟨isNaN_zeros.1, isNaN_zeros.2, .inr (.inl ⟨rfl, rfl⟩)⟩
      · exact ⟨isNaN_zeros.2, isNaN_zeros.1, .inr (.inr ⟨rfl, rfl⟩)⟩

end Numbers

section Texts

variable {x y : Float} {places : Option Nat}

/-- Nothing is nearest to no part at all but zero. -/
theorem nearest_perTen_zero (den : Nat) (power : Int) :
    ((Decimal.Quotient.mk 0 den).perTen power).nearest = 0 := by
  have hnum : ((Decimal.Quotient.mk 0 den).perTen power).num = 0 := by
    unfold Decimal.Quotient.perTen
    split
    · rfl
    · exact Nat.zero_mul _
  unfold Decimal.Quotient.nearest
  rw [hnum]
  simp

/-- Whatever its places are, the magnitude of zero begins with a digit. -/
theorem head?_places_zero (exponent : Int) (places : Nat) (narrow : Bool) :
    ((Decimal.Binary.mk 0 exponent narrow).places places).head? = some '0' := by
  have hdigits : ∀ den power,
      Decimal.naturalText ((Decimal.Quotient.mk 0 den).perTen power).nearest = ['0'] := by
    intro den power
    rw [nearest_perTen_zero]
    rfl
  have hnone : ∃ den, Decimal.Quotient.ofScaled 0 exponent = ⟨0, den⟩ := by
    unfold Decimal.Quotient.ofScaled
    split
    · exact ⟨1, by rw [Nat.zero_shiftLeft]⟩
    · exact ⟨_, rfl⟩
  obtain ⟨den, hden⟩ := hnone
  unfold Decimal.Binary.places
  dsimp only
  rw [hden, hdigits]
  by_cases hplaces : places = 0
  · rw [if_pos hplaces]
    rfl
  · rw [if_neg hplaces]
    obtain ⟨fewer, rfl⟩ := Nat.exists_eq_succ_of_ne_zero hplaces
    simp [Decimal.zeros, List.replicate_succ]

/-- Whatever its places are, the text of zero begins with a digit. -/
theorem head?_numberText_zero (places : Option Nat) :
    (Value.numberText places 0.0).toList.head? = some '0' := by
  cases places with
  | none => exact views_zeros.2.2.1
  | some places =>
    have hzero : Decimal.Binary.ofFloat 0.0 = ⟨0, -1074, false⟩ := by
      unfold Decimal.Binary.ofFloat
      rw [toBits_zeros.1]
      rfl
    have hsign : Decimal.signBit 0.0 = false := by
      unfold Decimal.signBit
      rw [toBits_zeros.1]
      rfl
    have hfinite : ((0.0 : Float).isNaN || (0.0 : Float).isInf) = false := by
      rw [isNaN_zeros.1, views_zeros.2.1.1]
      rfl
    unfold Value.numberText Decimal.fixedText
    dsimp only
    rw [hfinite, hsign, hzero, if_neg Bool.false_ne_true, if_neg Bool.false_ne_true,
      String.toList_ofList]
    exact head?_places_zero _ places _

/-- The text of a negative zero begins with its sign. -/
theorem head?_numberText_negative (places : Option Nat) :
    (Value.numberText places (-0.0)).toList.head? = some '-' := by
  cases places with
  | none => exact views_zeros.2.2.2
  | some places =>
    have hsign : Decimal.signBit (-0.0) = true := by
      unfold Decimal.signBit
      rw [toBits_zeros.2]
      rfl
    have hfinite : ((-0.0 : Float).isNaN || (-0.0 : Float).isInf) = false := by
      rw [isNaN_zeros.2, views_zeros.2.1.2]
      rfl
    unfold Value.numberText Decimal.fixedText
    dsimp only
    rw [hfinite, hsign, if_neg Bool.false_ne_true, if_pos rfl, String.toList_ofList]
    rfl

/-- The texts of the two zeros differ from their first character on. -/
theorem OppositeZeros.text_ne (h : OppositeZeros x y) (places : Option Nat) (rest rest' : String) :
    Value.numberText places x ++ rest ≠ Value.numberText places y ++ rest' := by
  have hhead : ∀ {text rest : String} {c : Char}, text.toList.head? = some c →
      (text ++ rest).toList.head? = some c := by
    intro text rest c h
    rw [String.toList_append, List.head?_append, h, Option.some_or]
  intro heq
  have hheads := congrArg (List.head? ∘ String.toList) heq
  rw [Function.comp_apply, Function.comp_apply] at hheads
  rcases h with ⟨rfl, rfl⟩ | ⟨rfl, rfl⟩
  · rw [hhead (head?_numberText_zero places), hhead (head?_numberText_negative places)] at hheads
    exact absurd hheads (by decide)
  · rw [hhead (head?_numberText_zero places), hhead (head?_numberText_negative places)] at hheads
    exact absurd hheads (by decide)

end Texts

section Arrays

variable {xs ys : List Float}

/-- Numbers of which the comparison sees no difference. -/
def Overlooked (x y : Float) : Prop := x = y ∨ OppositeZeros x y

/-- Arrays that compare equal have numbers of which the comparison sees no difference. -/
theorem overlooked_of_beq (h : (xs == ys) = true) : List.Forall₂ Overlooked xs ys := by
  induction xs generalizing ys with
  | nil =>
    cases ys with
    | nil => exact .nil
    | cons y ys => exact absurd h (by simp)
  | cons x xs ih =>
    cases ys with
    | nil => exact absurd h (by simp)
    | cons y ys =>
      simp only [List.cons_beq_cons, Bool.and_eq_true] at h
      exact .cons ((float_beq_iff_same.mp h.1).imp_left And.right) (ih h.2)

/-- Such arrays are the same if no zero has another sign. -/
theorem eq_iff_of_overlooked (h : List.Forall₂ Overlooked xs ys) :
    xs = ys ↔ ¬∃ pair ∈ xs.zip ys, OppositeZeros pair.1 pair.2 := by
  induction h with
  | nil => simp
  | @cons x y xs ys hxy _ ih =>
    rw [List.cons.injEq, ih, List.zip_cons_cons]
    simp only [List.mem_cons, exists_eq_or_imp, not_or]
    refine and_congr_left fun _ => ⟨fun heq hzeros => hzeros.ne heq, hxy.resolve_right⟩

/-- The texts of such arrays are the same only if the arrays are. -/
theorem eq_of_joined_eq (h : List.Forall₂ Overlooked xs ys) (places : Option Nat)
    (htext : Text.joined ", " (xs.map (Value.numberText places)) =
      Text.joined ", " (ys.map (Value.numberText places))) : xs = ys := by
  -- a text with more numbers begins with the text of its first number
  have hbegins : ∀ x xs, ∃ rest, Text.joined ", " ((x :: xs).map (Value.numberText places)) =
      Value.numberText places x ++ rest ∧ ∀ y ys, xs = y :: ys →
        rest = ", " ++ Text.joined ", " (xs.map (Value.numberText places)) := by
    intro x xs
    cases xs with
    | nil => exact ⟨"", by simp [Text.joined], fun _ _ h => nomatch h⟩
    | cons y ys =>
      refine ⟨_, ?_, fun _ _ _ => rfl⟩
      simp only [Text.joined, List.map_cons, String.intercalate_cons_cons, String.append_assoc]
  induction h with
  | nil => rfl
  | @cons x y xs ys hxy hrest ih =>
    obtain ⟨rest, hx, hmore⟩ := hbegins x xs
    obtain ⟨rest', hy, hmore'⟩ := hbegins y ys
    rw [hx, hy] at htext
    rcases hxy with rfl | hzeros
    · rw [String.append_right_inj] at htext
      cases hrest with
      | nil => rfl
      | cons hfirst hothers =>
        rw [hmore _ _ rfl, hmore' _ _ rfl, String.append_right_inj] at htext
        rw [ih htext]
    · exact absurd htext (hzeros.text_ne places rest rest')

end Arrays

namespace Value

/-- A zero somewhere in the first value has the other sign in the second one. -/
def FlipsZero : Value → Value → Prop
  | number x, number y => OppositeZeros x y
  | array xs, array ys => ∃ pair ∈ xs.zip ys, OppositeZeros pair.1 pair.2
  | _, _ => False

variable {v w : Value}

/-- Values that compare equal are the same if no zero has another sign. -/
theorem eq_iff_of_beq (h : (v == w) = true) : v = w ↔ ¬v.FlipsZero w := by
  cases v <;> cases w <;> try exact absurd h Bool.false_ne_true
  · exact iff_of_true (congrArg bool (beq_iff_eq.mp h)) id
  · next x y =>
    rw [number.injEq]
    rcases float_beq_iff_same.mp h with ⟨-, heq⟩ | hzeros
    · exact iff_of_true heq fun hzeros => hzeros.ne heq
    · exact iff_of_false hzeros.ne (not_not_intro hzeros)
  · exact iff_of_true (congrArg text (beq_iff_eq.mp h)) id
  · rw [array.injEq]
    exact eq_iff_of_overlooked (overlooked_of_beq h)

/-- The numeric views of values that compare equal are no different to the
comparison. -/
theorem overlooked_toNumber (h : (v == w) = true) : Overlooked v.toNumber w.toNumber := by
  cases v <;> cases w <;> try exact absurd h Bool.false_ne_true
  · exact .inl (congrArg (fun b => (bool b).toNumber) (beq_iff_eq.mp h))
  · exact (float_beq_iff_same.mp h).imp_left And.right
  · exact .inl (congrArg (fun s => (text s).toNumber) (beq_iff_eq.mp h))
  · cases overlooked_of_beq h with
    | nil => exact .inl rfl
    | cons hfirst _ => exact hfirst

/-- The integer views of values that compare equal are the same. -/
theorem toInteger_eq_of_beq (h : (v == w) = true) : v.toInteger = w.toInteger :=
  (overlooked_toNumber h).elim (congrArg truncated) OppositeZeros.truncated_eq

/-- The texts of values that compare equal are the same only if the values are. -/
theorem toText_eq_iff_of_beq (h : (v == w) = true) (places : Option Nat) :
    v.toText places = w.toText places ↔ v = w := by
  refine ⟨fun htext => ?_, congrArg _⟩
  cases v <;> cases w <;> try exact absurd h Bool.false_ne_true
  · exact congrArg bool (beq_iff_eq.mp h)
  · next x y =>
    rcases float_beq_iff_same.mp h with ⟨-, rfl⟩ | hzeros
    · rfl
    · exact absurd (congrArg (· ++ "") htext) (hzeros.text_ne places "" "")
  · exact congrArg text htext
  · next xs ys =>
    have hinside := String.append_left_inj _ |>.mp htext
    rw [String.append_right_inj] at hinside
    exact congrArg array (eq_of_joined_eq (overlooked_of_beq h) places hinside)

/-- The data of values are the same only if the values are. -/
theorem ofValue_inj : Script.Datum.ofValue v = Script.Datum.ofValue w ↔ v = w := by
  refine ⟨fun hdatum => ?_, congrArg _⟩
  have hfloat : Function.Injective Script.Datum.float := fun _ _ => Script.Datum.float.inj
  cases v <;> cases w <;> simp only [Script.Datum.ofValue] at hdatum <;> try cases hdatum
  · rfl
  · rfl
  · rfl
  · exact congrArg array (List.map_injective_iff.mpr hfloat (Script.Datum.array.inj hdatum))

end Value

end ProcessDisplay
