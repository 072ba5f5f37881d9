import Mathlib.Tactic.Common
import ProcessDisplay.Script.Library

/-!
# Faults of operations

Operations and functions of the library see values, not variables. Whatever
fault they end with, it is not that of a variable that does not exist.
-/

namespace ProcessDisplay.Script

variable {α β : Type}

/-- A computation does not end with the fault of an unknown variable. -/
def MissesNone (result : Except Fault α) : Prop := ∀ s, result ≠ .error (.unknownVariable s)

/-- A value. -/
theorem missesNone_ok {a : α} : MissesNone (.ok a : Except Fault α) := by
  intro s h
  cases h

/-- A failure of arithmetic. -/
theorem missesNone_arithmetic {fault : ArithmeticFault} :
    MissesNone (.error (.arithmetic fault) : Except Fault α) := by
  intro s h
  cases h

/-- A function that does not exist. -/
theorem missesNone_unknownFunction {name : String} :
    MissesNone (.error (.unknownFunction name) : Except Fault α) := by
  intro s h
  cases h

/-- A computation with its value changed. -/
theorem MissesNone.map {result : Except Fault α} {f : α → β} (h : MissesNone result) :
    MissesNone (result.map f) := by
  intro s hs
  cases result with
  | error fault =>
    obtain rfl := Except.error.inj hs
    exact h s rfl
  | ok a => cases hs

/-- A result in 64 bits. -/
theorem missesNone_checked {fault : ArithmeticFault} {n : Int} :
    MissesNone (checked fault n) := by
  unfold checked
  split
  · exact missesNone_ok
  · exact missesNone_arithmetic

/-- A power. -/
theorem missesNone_integerPower {base exponent : Int} :
    MissesNone (integerPower base exponent) := by
  unfold integerPower
  repeat' split
  all_goals
    first | exact missesNone_ok | exact missesNone_arithmetic | exact missesNone_checked

/-- An operator on integers. -/
theorem missesNone_integerOperation {op : Operator} {a b : Int} {result : Except Fault Datum}
    (h : integerOperation op a b = some result) : MissesNone result := by
  cases op with
  | add | subtract | multiply =>
    obtain rfl := Option.some.inj h
    exact missesNone_checked
  | divide =>
    obtain rfl := Option.some.inj h
    split
    · exact missesNone_arithmetic
    · exact missesNone_checked
  | remainder =>
    obtain rfl := Option.some.inj h
    split
    · exact missesNone_arithmetic
    · exact missesNone_ok
  | power =>
    obtain rfl := Option.some.inj h
    exact missesNone_integerPower
  | equal | notEqual => cases h
  | _ =>
    obtain rfl := Option.some.inj h
    exact missesNone_ok

/-- What is left for operands without a rule of their own. -/
theorem missesNone_otherOperation {op : Operator} {a b : Datum} :
    MissesNone (otherOperation op a b) := by
  unfold otherOperation
  repeat' split
  all_goals first | exact missesNone_ok | exact missesNone_unknownFunction

/-- A rule of its own, or the remaining rules. -/
theorem missesNone_orOther {op : Operator} {a b : Datum} {found : Option Datum} :
    MissesNone (orOther op a b found) := by
  cases found with
  | none => exact missesNone_otherOperation
  | some d => exact missesNone_ok

/-- An operator on operands of one kind. -/
theorem missesNone_operateExactly {op : Operator} {a b : Datum} :
    MissesNone (operateExactly op a b) := by
  unfold operateExactly
  split
  · next m n =>
    cases hfound : integerOperation op m n with
    | none => exact missesNone_otherOperation
    | some result => exact missesNone_integerOperation hfound
  all_goals try split
  all_goals
    first | exact missesNone_orOther | exact missesNone_otherOperation | exact missesNone_ok

/-- An operator. -/
theorem missesNone_operate {op : Operator} {a b : Datum} : MissesNone (operate op a b) := by
  unfold operate
  split
  · exact missesNone_orOther
  · exact missesNone_orOther
  · exact missesNone_orOther
  · split
    · exact missesNone_ok
    · exact missesNone_ok
    · exact missesNone_operateExactly

/-- The operator of an assignment. -/
theorem missesNone_accumulate {op : Operator} {old new : Datum} :
    MissesNone (accumulate op old new) := by
  unfold accumulate
  split
  · exact missesNone_ok
  · exact missesNone_ok
  · exact missesNone_operate

/-- A sign or a negation. -/
theorem missesNone_signed {symbol : String} {d : Datum} : MissesNone (signed symbol d) := by
  unfold signed
  repeat' split
  all_goals
    first
    | exact missesNone_ok
    | exact missesNone_checked
    | exact missesNone_unknownFunction

/-- A question whether a datum is in a collection. -/
theorem missesNone_contains {collection item : Datum} :
    MissesNone (contains collection item) := by
  unfold contains
  split
  all_goals first | exact missesNone_ok | exact missesNone_unknownFunction

/-- A part at an index. -/
theorem missesNone_partAt {d index : Datum} : MissesNone (partAt d index) := by
  unfold partAt
  repeat' split
  all_goals
    intro s h
    cases h

/-- Another part at an index. -/
theorem missesNone_withPartAt {d index part : Datum} : MissesNone (withPartAt d index part) := by
  unfold withPartAt
  repeat' split
  all_goals
    intro s h
    cases h

/-- A named part. -/
theorem missesNone_propertyOf {d : Datum} {name : String} : MissesNone (propertyOf d name) := by
  unfold propertyOf
  split
  all_goals
    intro s h
    cases h

/-- Another named part. -/
theorem missesNone_withProperty {d : Datum} {name : String} {part : Datum} :
    MissesNone (withProperty d name part) := by
  unfold withProperty
  split
  all_goals
    intro s h
    cases h

/-- A datum that may be too large. -/
theorem missesNone_checkSize {limits : Limits} {d : Datum} : MissesNone (checkSize limits d) := by
  unfold checkSize
  extract_lets extent
  repeat' split
  all_goals
    intro s h
    cases h

namespace Library

/-- A function that always has a value. -/
theorem missesNone_of_map {found : Option Datum} {result : Except Fault Datum}
    (h : found.map Except.ok = some result) : MissesNone result := by
  obtain ⟨d, -, rfl⟩ := Option.map_eq_some_iff.mp h
  exact missesNone_ok

/-- A function of one datum. -/
theorem missesNone_ofOne {name : String} {d : Datum} {result : Except Fault Datum}
    (h : ofOne name d = some result) : MissesNone result := by
  unfold ofOne at h
  split at h
  · obtain rfl := Option.some.inj h
    exact missesNone_ok
  · split at h
    · exact missesNone_of_map h
    · unfold ofInteger at h
      split at h
      · obtain rfl := Option.some.inj h
        exact missesNone_checked
      · obtain rfl := Option.some.inj h
        exact missesNone_ok
      · cases h
    · exact missesNone_of_map h
    · exact missesNone_of_map h
    · exact missesNone_of_map h
    · cases h

/-- A function of two data. -/
theorem missesNone_ofTwo {name : String} {a b : Datum} {result : Except Fault Datum}
    (h : ofTwo name a b = some result) : MissesNone result := by
  unfold ofTwo at h
  split at h
  · split at h
    · obtain rfl := Option.some.inj h
      exact missesNone_ok
    · cases h
  · exact missesNone_of_map h
  · exact missesNone_of_map h
  · exact missesNone_of_map h
  · split at h
    · obtain rfl := Option.some.inj h
      exact missesNone_contains.map
    · cases h

/-- A function of the language. -/
theorem missesNone_call {name : String} {arguments : List Datum} {result : Except Fault Datum}
    (h : call name arguments = some result) : MissesNone result := by
  unfold call at h
  split at h
  · exact missesNone_of_map h
  · exact missesNone_ofOne h
  · exact missesNone_ofTwo h
  · cases h

end Library

end ProcessDisplay.Script
