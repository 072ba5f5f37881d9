import Mathlib.Tactic.Common
import ProcessDisplay.Decimal.Reading

/-!
# Names with a number

The names of accessors and references are a stem and a number in decimal
digits. A stem contains no digit, so a name has one stem and one number.
-/

namespace ProcessDisplay.Decimal

/-- A number is written in decimal digits. -/
theorem isDigit_of_mem_toString {n : Nat} {c : Char} (h : c ∈ (toString n).toList) :
    c.isDigit = true := by
  rw [Nat.toString_eq_ofList_toDigits, String.toList_ofList] at h
  exact Nat.isDigit_of_mem_toDigits (by decide) (by decide) h

/-- A written number has the value of its digits. -/
theorem digitsValue_toString (n : Nat) : digitsValue (toString n).toList = n := by
  rw [Nat.toString_eq_ofList_toDigits, String.toList_ofList]
  exact Nat.ofDigitChars_ten_toDigits

/-- A written number has a first digit. -/
theorem exists_digits (n : Nat) :
    ∃ first more, (toString n).toList = first :: more ∧ first.isDigit = true := by
  have hsome : (toString n).toList ≠ [] := by
    rw [Nat.toString_eq_ofList_toDigits, String.toList_ofList]
    exact Nat.toDigits_ne_nil
  obtain ⟨first, more, hdigits⟩ := List.exists_cons_of_ne_nil hsome
  refine ⟨first, more, hdigits, isDigit_of_mem_toString (n := n) ?_⟩
  rw [hdigits]
  exact List.mem_cons_self

/-- The stem stands before the first digit. -/
theorem takeWhile_numbered {stem : String} (h : stem.toList.all (fun c => !c.isDigit) = true)
    (n : Nat) : (stem ++ toString n).toList.takeWhile (fun c => !c.isDigit) = stem.toList := by
  obtain ⟨first, more, hdigits, hfirst⟩ := exists_digits n
  rw [String.toList_append, hdigits, List.takeWhile_append_of_pos (List.all_eq_true.mp h)]
  simp [hfirst]

/-- A name has one stem and one number. -/
theorem numbered_inj {stem stem' : String} {n n' : Nat}
    (h : stem.toList.all (fun c => !c.isDigit) = true)
    (h' : stem'.toList.all (fun c => !c.isDigit) = true)
    (heq : stem ++ toString n = stem' ++ toString n') : stem = stem' ∧ n = n' := by
  have hstem : stem = stem' := by
    rw [← String.toList_inj, ← takeWhile_numbered h n, heq, takeWhile_numbered h']
  rw [hstem] at heq
  have hdigits : toString n = toString n' := (String.append_right_inj _).mp heq
  refine ⟨hstem, ?_⟩
  rw [← digitsValue_toString n, hdigits, digitsValue_toString]

end ProcessDisplay.Decimal
