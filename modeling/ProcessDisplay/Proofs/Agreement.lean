import Mathlib.Data.Option.Basic
import Mathlib.Tactic.Common
import ProcessDisplay.Engine.Evaluation

/-!
# Agreement of values

Two values agree when they are identical or equal as the engine compares
them. Comparison alone is no equivalence, since NaN differs from itself, and
identity alone separates the two zeros; together they hold of every value with
itself and are transitive, and a variable that reports no change keeps a value
that agrees.
-/

namespace ProcessDisplay

open Float.Model in
/-- What the comparison of numbers looks at: neither the sign of zero nor
anything of NaN. -/
def comparisonClass : UnpackedFloat → Option (Nat × Nat × Int)
  | .notANumber => none
  | .infinity .negative => some (0, 0, 0)
  | .infinity .positive => some (1, 0, 0)
  | .zero _ => some (2, 0, 0)
  | .finite .negative m e _ => some (3, m, e)
  | .finite .positive m e _ => some (4, m, e)

/-- A sign compares equal to itself. -/
theorem sign_compare_self (s : Float.Model.UnpackedFloat.Sign) : compare s s = .eq := by
  cases s <;> rfl

open Float.Model in
/-- Numbers compare equal exactly when they have one class. -/
theorem compare_eq_some_eq_iff (a b : UnpackedFloat) :
    a.compare b = some .eq ↔ ∃ c, comparisonClass a = some c ∧ comparisonClass b = some c := by
  rcases a with (_ | _) | _ | (_ | _) | ⟨_ | _, m, e, hm⟩ <;>
    rcases b with (_ | _) | _ | (_ | _) | ⟨_ | _, n, f, hn⟩ <;>
      dsimp only [UnpackedFloat.compare, comparisonClass] <;>
        simp [Ordering.then_eq_eq, sign_compare_self]
  -- only two finite numbers of one sign are left, with their parts compared in turn
  all_goals exact ⟨fun h => ⟨h.2.symm, h.1.symm⟩, fun h => ⟨h.2.symm, h.1.symm⟩⟩

/-- Comparison of numbers in terms of their classes. -/
theorem float_beq_iff (x y : Float) :
    (x == y) = true ↔ ∃ c, comparisonClass x.toModel.unpack = some c ∧
      comparisonClass y.toModel.unpack = some c := by
  have h : (x == y) = (x.toModel.unpack.compare y.toModel.unpack == some .eq) := rfl
  rw [h, beq_iff_eq, compare_eq_some_eq_iff]

/-- Comparison of numbers is transitive, although it is not reflexive. -/
theorem float_beq_trans {x y z : Float} (hxy : (x == y) = true) (hyz : (y == z) = true) :
    (x == z) = true := by
  obtain ⟨c, hx, hy⟩ := (float_beq_iff x y).mp hxy
  obtain ⟨d, hy', hz⟩ := (float_beq_iff y z).mp hyz
  have hcd : c = d := Option.some.inj (hy.symm.trans hy')
  exact (float_beq_iff x z).mpr ⟨c, hx, hcd ▸ hz⟩

/-- Comparison of arrays is transitive. -/
theorem floats_beq_trans {xs ys zs : List Float} (hxy : (xs == ys) = true)
    (hyz : (ys == zs) = true) : (xs == zs) = true := by
  induction xs generalizing ys zs with
  | nil =>
    cases ys with
    | nil => exact hyz
    | cons y ys => exact absurd hxy (by simp)
  | cons x xs ih =>
    cases ys with
    | nil => exact absurd hxy (by simp)
    | cons y ys =>
      cases zs with
      | nil => exact absurd hyz (by simp)
      | cons z zs =>
        simp only [List.cons_beq_cons, Bool.and_eq_true] at hxy hyz ⊢
        exact ⟨float_beq_trans hxy.1 hyz.1, ih hxy.2 hyz.2⟩

namespace Value

/-- Comparison of values, by their kinds. -/
theorem beq_def (v w : Value) : (v == w) = v.same w := rfl

/-- Comparison of values is transitive. -/
theorem beq_trans {u v w : Value} (huv : (u == v) = true) (hvw : (v == w) = true) :
    (u == w) = true := by
  rw [beq_def] at huv hvw ⊢
  cases u with
  | bool a => cases v <;> cases w <;> simp_all [same]
  | text s => cases v <;> cases w <;> simp_all [same]
  | number x =>
    cases v with
    | number y =>
      cases w with
      | number z => exact float_beq_trans huv hvw
      | _ => exact absurd hvw (by simp [same])
    | _ => exact absurd huv (by simp [same])
  | array xs =>
    cases v with
    | array ys =>
      cases w with
      | array zs => exact floats_beq_trans huv hvw
      | _ => exact absurd hvw (by simp [same])
    | _ => exact absurd huv (by simp [same])

/-- Values agree when they are identical or compare equal. -/
def Agrees (v w : Value) : Prop := v = w ∨ (v == w) = true

/-- Every value agrees with itself, NaN included. -/
@[refl] theorem Agrees.refl (v : Value) : v.Agrees v := Or.inl rfl

/-- Agreement is transitive. -/
theorem Agrees.trans {u v w : Value} (huv : u.Agrees v) (hvw : v.Agrees w) : u.Agrees w := by
  rcases huv with rfl | huv
  · exact hvw
  · rcases hvw with rfl | hvw
    · exact Or.inr huv
    · exact Or.inr (beq_trans huv hvw)

/-- Agreement where there may be no value. -/
def Agrees? : Option Value → Option Value → Prop
  | some v, some w => v.Agrees w
  | none, none => True
  | _, _ => False

/-- Every optional value agrees with itself. -/
@[refl] theorem Agrees?.refl (v : Option Value) : Agrees? v v := by
  cases v with
  | none => trivial
  | some v => exact Agrees.refl v

/-- Agreement of optional values is transitive. -/
theorem Agrees?.trans {u v w : Option Value} (huv : Agrees? u v) (hvw : Agrees? v w) :
    Agrees? u w := by
  cases u <;> cases v <;> cases w <;> simp_all only [Agrees?]
  exact Agrees.trans huv hvw

/-- Optional values that agree are both there or both missing. -/
theorem Agrees?.isSome_eq {v w : Option Value} (h : Agrees? v w) : v.isSome = w.isSome := by
  cases v <;> cases w <;> simp_all [Agrees?]

end Value

namespace Variable

/-- Variables agree when no unit could tell their values and severities apart. -/
structure Agrees (v w : Variable) : Prop where
  /-- The severities are the same. -/
  severity : v.severity = w.severity
  /-- The values agree. -/
  value : Value.Agrees? v.value w.value

/-- Every variable agrees with itself. -/
@[refl] theorem Agrees.refl (v : Variable) : v.Agrees v := ⟨rfl, Value.Agrees?.refl _⟩

/-- Agreement of variables is transitive. -/
theorem Agrees.trans {u v w : Variable} (huv : u.Agrees v) (hvw : v.Agrees w) : u.Agrees w :=
  ⟨huv.severity.trans hvw.severity, huv.value.trans hvw.value⟩

/-- A sample that is reported as no change leaves a variable that agrees. -/
theorem agrees_apply {v : Variable} {sample : Sample} (h : (v.apply sample).2 = false) :
    v.Agrees (v.apply sample).1 := by
  simp only [apply, Bool.or_eq_false_iff, Bool.not_eq_false', bne_eq_false_iff_eq] at h
  refine ⟨h.2, ?_⟩
  cases hv : v.value with
  | none => simp [holds, hv] at h
  | some present =>
    simp only [holds, hv] at h
    exact Or.inr h.1

/-- A first sample is always reported as a change. -/
theorem apply_changed_of_none {v : Variable} (h : v.value = none) (sample : Sample) :
    (v.apply sample).2 = true := by
  simp [apply, holds, h]

end Variable

namespace DataSource

/-- Data agree when they come from variables that agree. -/
structure Agrees (d e : DataSource) : Prop where
  /-- The severities are the same. -/
  severity : d.severity = e.severity
  /-- Both are connected or none is. -/
  isConnected : d.isConnected = e.isConnected
  /-- The values agree. -/
  value : Value.Agrees? d.value e.value

/-- All data agree with themselves. -/
@[refl] theorem Agrees.refl (d : DataSource) : d.Agrees d := ⟨rfl, rfl, Value.Agrees?.refl _⟩

/-- Variables that agree are supplied as data that agree. -/
theorem agrees_ofVariable {v w : Variable} (h : v.Agrees w) :
    (ofVariable v).Agrees (ofVariable w) := by
  have hv := h.value
  cases hvv : v.value <;> cases hww : w.value <;> rw [hvv, hww] at hv
  · simp only [ofVariable, hvv, hww]
    exact Agrees.refl _
  · exact hv.elim
  · exact hv.elim
  · simp only [ofVariable, hvv, hww]
    exact ⟨h.severity, rfl, hv⟩

/-- A variable can be computed with exactly when it has a value. -/
@[simp] theorem isReady_ofVariable (v : Variable) : (ofVariable v).isReady = v.value.isSome := by
  cases hv : v.value <;> simp [ofVariable, isReady, hv]

/-- The severity of a variable with a value is supplied with it. -/
theorem severity_ofVariable {v : Variable} (h : v.value.isSome = true) :
    (ofVariable v).severity = v.severity := by
  obtain ⟨value, hv⟩ := Option.isSome_iff_exists.mp h
  simp [ofVariable, hv]

end DataSource

end ProcessDisplay
