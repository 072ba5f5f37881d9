import Mathlib.Tactic.Common
import ProcessDisplay.Proofs.Courses
import ProcessDisplay.Script.Machine

/-!
# Runs that return

A run is steady if it does not end the program, calls only what is allowed,
and stays within the limit of operations unless it ends with the fault that
says so. Steady runs are put together from steady parts. A loop is steady
although its rounds are not counted: every round performs an operation, and
the operations are counted.
-/

namespace ProcessDisplay.Script.Run

variable {α β : Type} {allowed : String → List Datum → Prop} {limit least : Nat}
  {returns : α → Prop}

/-- An end of a run from a state within the limit: at least so many operations
were performed, they are within the limit unless the end says so, and the result
is as it should be. -/
structure Settles (limit least : Nat) (returns : α → Prop) (m : Machine)
    (ended : Except Signal α × Machine) : Prop where
  /-- At least so many operations were performed. -/
  performed : m.operations + least ≤ ended.2.operations
  /-- There are no more of them than the limit, or that is the fault. -/
  limited : ended.2.operations ≤ limit ∨ ended.1 = .error (.fault .tooManyOperations)
  /-- The value is one of those that are returned. -/
  returned : ∀ a, ended.1 = .ok a → returns a

/-- A run from within the limit does not end the program, makes allowed calls
only, and settles. -/
def Steady (allowed : String → List Datum → Prop) (limit least : Nat) (returns : α → Prop)
    (r : Run α) : Prop :=
  ∀ m, m.operations ≤ limit → (r m).Holds allowed False (Settles limit least returns m)

/-- A run performs more than needed and returns less than allowed. -/
theorem Steady.imp {more : Nat} {others : α → Prop} {r : Run α}
    (h : Steady allowed limit more others r) (hleast : least ≤ more)
    (hreturns : ∀ a, others a → returns a) : Steady allowed limit least returns r := by
  intro m hm
  refine (h m hm).weaken fun ended hended => ?_
  have hmore := hended.performed
  exact ⟨by omega, hended.limited, fun a ha => hreturns a (hended.returned a ha)⟩

/-- What counts is only that a run is steady. -/
theorem Steady.anyhow {r : Run α} (h : Steady allowed limit least returns r) :
    Steady allowed limit 0 (fun _ => True) r :=
  h.imp (Nat.zero_le _) fun _ _ => trivial

/-- A value is returned without an operation. -/
theorem steady_pure {a : α} (h : returns a) :
    Steady allowed limit 0 returns (pure a : Run α) := by
  intro m hm
  refine ⟨Nat.le_refl _, Or.inl hm, fun b hb => ?_⟩
  obtain rfl := Except.ok.inj hb
  exact h

/-- A signal. -/
theorem steady_throw {signal : Signal} :
    Steady allowed limit 0 returns (throw signal : Run α) :=
  fun _ hm => ⟨Nat.le_refl _, Or.inl hm, fun _ ha => by cases ha⟩

/-- A fault. -/
theorem steady_fail {fault : Fault} : Steady allowed limit 0 returns (fail fault : Run α) :=
  steady_throw

/-- A value or a fault. -/
theorem steady_lift {result : Except Fault α} (h : ∀ a, result = .ok a → returns a) :
    Steady allowed limit 0 returns (lift result : Run α) := by
  unfold lift
  split
  · next a => exact steady_pure (h a rfl)
  · exact steady_fail

/-- How a run goes on after its first part. -/
def continued (next : α → Run β) : Except Signal α × Machine → Course (Except Signal β × Machine)
  | (.ok a, m) => next a m
  | (.error signal, m) => .ends (.error signal, m)

/-- A sequence goes on with the state after its first part. -/
theorem bind_apply (first : Run α) (next : α → Run β) (m : Machine) :
    (first >>= next) m = first m >>= continued next := by
  have hcont : (first >>= next) m = first m >>= fun ended =>
      ExceptT.bindCont next ended.1 ended.2 := rfl
  rw [hcont]
  refine congrArg _ (funext fun ended => ?_)
  rcases ended with ⟨signal | a, m₁⟩
  · rfl
  · rfl

/-- What follows an end. -/
theorem Settles.continued {wanted : β → Prop} {next : α → Run β}
    {m : Machine} {ended : Except Signal α × Machine} (h : Settles limit least returns m ended)
    (hnext : ∀ a, returns a → Steady allowed limit 0 wanted (next a)) :
    (continued next ended).Holds allowed False (Settles limit least wanted m) := by
  obtain ⟨hleast, hlimit, hreturns⟩ := h
  rcases ended with ⟨signal | a, m₁⟩
  · refine ⟨hleast, hlimit.imp id fun hend => ?_, fun b hb => by cases hb⟩
    obtain rfl := Except.error.inj hend
    rfl
  · have hm₁ : m₁.operations ≤ limit := hlimit.resolve_right (by simp)
    refine (hnext a (hreturns a rfl) m₁ hm₁).weaken fun ended hended => ?_
    have hmore := hended.performed
    dsimp only at hleast
    exact ⟨by omega, hended.limited, hended.returned⟩

/-- Parts that are steady one after the other. -/
theorem Steady.bind {wanted : β → Prop} {first : Run α} {next : α → Run β}
    (hfirst : Steady allowed limit least returns first)
    (hnext : ∀ a, returns a → Steady allowed limit 0 wanted (next a)) :
    Steady allowed limit least wanted (first >>= next) := by
  intro m hm
  rw [bind_apply]
  exact (hfirst m hm).bind fun ended hended => hended.continued hnext

/-- Nothing follows a fault. -/
theorem steady_fail_bind {wanted : β → Prop} {fault : Fault} {next : α → Run β} :
    Steady allowed limit 0 wanted (fail fault >>= next) := by
  have hfail : Steady allowed limit 0 (fun _ => False) (fail fault : Run α) := steady_fail
  exact hfail.bind fun _ h => h.elim

/-- A run whose result is dropped. -/
theorem Steady.discard {r : Run α} (h : Steady allowed limit least returns r) :
    Steady allowed limit least (fun _ => True) (discard r) := by
  have hbind : Functor.discard r = r >>= fun _ => pure () := by
    rw [bind_pure_comp]
    rfl
  rw [hbind]
  exact h.bind fun _ _ => steady_pure trivial

/-- Looking at the state. -/
theorem steady_get : Steady allowed limit 0 (fun _ => True) (get : Run Machine) :=
  fun _ hm => ⟨Nat.le_refl _, Or.inl hm, fun _ _ => trivial⟩

/-- A change of the variables. -/
theorem steady_modify {change : List Slot → List Slot} :
    Steady allowed limit 0 (fun _ => True)
      (modify fun m => { m with scope := change m.scope } : Run PUnit) :=
  fun _ hm => ⟨Nat.le_refl _, Or.inl hm, fun _ _ => trivial⟩

/-- A new variable. -/
theorem steady_declare {name : String} {isConstant : Bool} {value : Datum} :
    Steady allowed limit 0 (fun _ => True) (declare name isConstant value : Run Unit) :=
  steady_modify

/-- A new value of a variable. -/
theorem steady_assign {name : String} {value : Datum} :
    Steady allowed limit 0 (fun _ => True) (assign name value : Run Unit) :=
  steady_modify

/-- The variable of a name. -/
theorem steady_slot {name : String} :
    Steady allowed limit 0 (fun _ => True) (slot name : Run Slot) := by
  refine steady_get.bind fun m _ => ?_
  split
  · exact steady_pure trivial
  · exact steady_fail

/-- A call of the host that is allowed. -/
theorem steady_ask {name : String} {arguments : List Datum} (h : allowed name arguments) :
    Steady allowed limit 0 (fun _ => True) (ask name arguments) := by
  intro m hm
  refine ⟨h, fun reply => ?_⟩
  rcases reply with _ | text | d
  · exact ⟨Nat.le_refl _, Or.inl hm, fun _ _ => trivial⟩
  · exact ⟨Nat.le_refl _, Or.inl hm, fun _ _ => trivial⟩
  · exact ⟨Nat.le_refl _, Or.inl hm, fun _ _ => trivial⟩

/-- An operation is counted, also if it is one too many. -/
theorem charge_apply (limits : Limits) (m : Machine) :
    charge limits m =
      .ends (if exceeds (m.operations + 1) limits.operations then
          .error (.fault .tooManyOperations)
        else .ok (), { m with operations := m.operations + 1 }) := by
  have hrun : charge limits m =
      (if exceeds (m.operations + 1) limits.operations then fail .tooManyOperations
        else pure () : Run Unit) { m with operations := m.operations + 1 } := rfl
  rw [hrun]
  split
  · rfl
  · rfl

/-- An operation. -/
theorem steady_charge {limits : Limits} (h : limits.operations ≠ 0) :
    Steady allowed limits.operations 1 (fun _ => True) (charge limits) := by
  intro m hm
  rw [charge_apply]
  cases hexceeds : exceeds (m.operations + 1) limits.operations with
  | true => exact ⟨Nat.le_refl _, Or.inr rfl, fun _ _ => trivial⟩
  | false =>
    have hlimit : m.operations + 1 ≤ limits.operations := by
      simpa [exceeds, h] using hexceeds
    exact ⟨Nat.le_refl _, Or.inl hlimit, fun _ _ => trivial⟩

/-- Variables that are dropped in the end. -/
theorem Steady.enclosed {r : Run α} (h : Steady allowed limit least returns r) :
    Steady allowed limit least returns (enclosed r) :=
  fun m hm => (h m hm).bind fun _ hended => ⟨hended.performed, hended.limited, hended.returned⟩

/-- Variables of its own. -/
theorem Steady.isolated {scope : List Slot} {r : Run α}
    (h : Steady allowed limit least returns r) :
    Steady allowed limit least returns (isolated scope r) :=
  fun m hm => (h { m with scope } hm).bind fun _ hended =>
    ⟨hended.performed, hended.limited, hended.returned⟩

/-- How a run goes on where its signals are handled. -/
def handled (handler : Signal → Run α) :
    Except Signal α × Machine → Course (Except Signal α × Machine)
  | (.ok a, m) => .ends (.ok a, m)
  | (.error signal, m) => handler signal m

/-- A handler goes on with the state at the signal. -/
theorem tryCatch_apply (r : Run α) (handler : Signal → Run α) (m : Machine) :
    (tryCatch r handler : Run α) m = r m >>= handled handler := by
  have hcont : (tryCatch r handler : Run α) = ExceptT.tryCatch r handler := rfl
  rw [hcont]
  simp only [ExceptT.tryCatch, ExceptT.mk, bind, StateT.bind]
  refine congrArg _ (funext fun ended => ?_)
  rcases ended with ⟨signal | a, m₁⟩
  · rfl
  · rfl

/-- Signals are handled, except for the end of the operations. -/
theorem Steady.tryCatch {r : Run α} {handler : Signal → Run α}
    (h : Steady allowed limit least returns r)
    (hlast : handler (.fault .tooManyOperations) = throw (.fault .tooManyOperations))
    (hhandler : ∀ signal, Steady allowed limit 0 returns (handler signal)) :
    Steady allowed limit least returns (tryCatch r handler) := by
  intro m hm
  rw [tryCatch_apply]
  refine (h m hm).bind fun ended hended => ?_
  rcases ended with ⟨signal | a, m₁⟩
  · have hleast := hended.performed
    dsimp only at hleast
    rcases hended.limited with hm₁ | hend
    · refine (hhandler signal m₁ hm₁).weaken fun last hsettled => ?_
      have hmore := hsettled.performed
      exact ⟨by omega, hsettled.limited, hsettled.returned⟩
    · obtain rfl := Except.error.inj hend
      change (handler _ m₁).Holds _ _ _
      rw [hlast]
      exact ⟨hleast, Or.inr rfl, fun a ha => by cases ha⟩
  · exact hended

/-- Whether every round that asks for another one performs an operation. -/
def Spends (limit : Nat) (round : Run Bool) : Prop :=
  ∀ m, m.operations ≤ limit → (round m).Ensures fun ended =>
    ended.1 = .ok true → m.operations < ended.2.operations

/-- A round that asks for another one only if it costs an operation. -/
theorem spends_of_steady {round : Run Bool}
    (h : Steady allowed limit least (fun _ => least = 1) round) : Spends limit round := by
  intro m hm
  refine (h m hm).ensures.weaken fun ended hended hagain => ?_
  have hmore := hended.performed
  have hone := hended.returned true hagain
  omega

/-- A round performs an operation if its last part does. -/
theorem Spends.bind {first : Run α} {next : α → Run Bool}
    (hfirst : Steady allowed limit 0 returns first) (hnext : ∀ a, Spends limit (next a)) :
    Spends limit (first >>= next) := by
  intro m hm
  rw [bind_apply]
  refine (hfirst m hm).ensures.bind fun ended hended => ?_
  obtain ⟨hmore, hlimit, -⟩ := hended
  rcases ended with ⟨signal | a, m₁⟩
  · intro hagain
    cases hagain
  · have hm₁ : m₁.operations ≤ limit := hlimit.resolve_right (by simp)
    refine (hnext a m₁ hm₁).weaken fun last hspent hagain => ?_
    have hone := hspent hagain
    dsimp only at hmore
    omega

/-- A loop has as many rounds as there are operations left, and one more. -/
theorem steady_repeatWhile {round : Run Bool} (h : Steady allowed limit 0 (fun _ => True) round)
    (hspends : Spends limit round) {fuel : Nat} {m : Machine} (hm : m.operations ≤ limit)
    (hfuel : limit < m.operations + fuel) :
    (repeatWhile round fuel m).Holds allowed False (Settles limit 0 (fun _ => True) m) := by
  induction fuel generalizing m with
  | zero => omega
  | succ fuel ih =>
    rw [repeatWhile, bind_apply]
    have hboth := ((h m hm).and (hspends m hm)).imp (fun _ _ hcall => hcall.1) And.left
      fun _ => id
    refine hboth.bind fun ended hended => ?_
    obtain ⟨⟨hmore, hlimit, -⟩, hspent⟩ := hended
    rcases ended with ⟨signal | again, m₁⟩
    · refine ⟨hmore, hlimit.imp id fun hend => ?_, fun _ _ => trivial⟩
      obtain rfl := Except.error.inj hend
      rfl
    · have hm₁ : m₁.operations ≤ limit := hlimit.resolve_right (by simp)
      cases again with
      | false => exact ⟨hmore, Or.inl hm₁, fun _ _ => trivial⟩
      | true =>
        have hone : m.operations < m₁.operations := hspent rfl
        refine (ih hm₁ (by omega)).weaken fun last hlast => ?_
        have hrest := hlast.performed
        exact ⟨by omega, hlast.limited, hlast.returned⟩

/-- A loop over elements. -/
theorem steady_forItems {round : Nat → Datum → Run Bool}
    (h : ∀ count item, Steady allowed limit 0 (fun _ => True) (round count item)) (count : Nat)
    (items : List Datum) :
    Steady allowed limit 0 (fun _ => True) (forItems round count items) := by
  induction items generalizing count with
  | nil => exact steady_pure trivial
  | cons item rest ih =>
    refine (h count item).bind fun again _ => ?_
    split
    · exact ih (count + 1)
    · exact steady_pure trivial

/-- A loop over integers. -/
theorem steady_forIntegers {round : Nat → Datum → Run Bool}
    (h : ∀ count item, Steady allowed limit 0 (fun _ => True) (round count item))
    (count left : Nat) (n : Int) :
    Steady allowed limit 0 (fun _ => True) (forIntegers round count left n) := by
  induction left generalizing count n with
  | zero => exact steady_pure trivial
  | succ left ih =>
    refine (h count (.integer n)).bind fun again _ => ?_
    split
    · exact ih (count + 1) (n + 1)
    · exact steady_pure trivial

end ProcessDisplay.Script.Run
