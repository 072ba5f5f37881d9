import ProcessDisplay.Proofs.HostActions
import ProcessDisplay.Proofs.TermNesting

/-!
# The calls in a term

A term calls functions by the names in it, with values of the terms in it. So
the calls of an evaluation are known before it begins, as far as the values
of literals are. In particular a call of `clamp` returns if its bounds are
written in the source in order.
-/

namespace ProcessDisplay.Script

/-- A function may be called with whatever values arguments have after the
first one. -/
def Callable (allowed : String → List Datum → Prop) (name : String) (arguments : List Term) :
    Prop :=
  allowed name [] ∧
    ∀ d found, List.Forall₂ Term.Returns arguments found → allowed name (d :: found)

/-- The function of an access may be called. -/
def Access.IsSafe (allowed : String → List Datum → Prop) (step : Access Term) : Prop :=
  ∀ c ∈ step.call?, Callable allowed c.1 c.2

namespace Term

variable {allowed : String → List Datum → Prop}

/-- The functions that a term itself calls may be called. -/
def CallsSafely (allowed : String → List Datum → Prop) (t : Term) : Prop :=
  ∀ c ∈ t.calls, Callable allowed c.1 c.2

/-- All functions that are called anywhere in a term may be called. -/
def IsSafe (allowed : String → List Datum → Prop) (t : Term) : Prop :=
  ∀ u, t.Contains u → u.CallsSafely allowed

/-- What stands in a safe term is safe. -/
theorem IsSafe.child {t u : Term} (h : t.IsSafe allowed) (hu : u ∈ t.children) :
    u.IsSafe allowed :=
  fun v hv => h v (Relation.ReflTransGen.head hu hv)

/-- A safe term calls safely. -/
theorem IsSafe.callsSafely {t : Term} (h : t.IsSafe allowed) : t.CallsSafely allowed :=
  h t Relation.ReflTransGen.refl

/-- The accesses of a safe chain are safe. -/
theorem CallsSafely.steps {root : Term} {steps : List (Access Term)}
    (h : (chain root steps).CallsSafely allowed) : ∀ step ∈ steps, step.IsSafe allowed :=
  fun step hstep c hc => h c (List.mem_filterMap.mpr ⟨step, hstep, hc⟩)

/-- Where every call is allowed, every term is safe. -/
theorem isSafe_of_forall (h : ∀ name arguments, allowed name arguments) (t : Term) :
    t.IsSafe allowed :=
  fun _ _ c _ => ⟨h c.1 [], fun d found _ => h c.1 (d :: found)⟩

/-- Whether bounds of a number are written in order. Literals that are no
numbers bound nothing. -/
def inOrder : List Term → Bool
  | [literal (.float low), literal (.float high)] => low ≤ high
  | [literal _, literal _] => true
  | [_, _] => false
  | _ => true

/-- Between bounds in order nothing is crossed. -/
theorem callable_of_inOrder {name : String} {bounds : List Term}
    (h : name = "clamp" → inOrder bounds = true) :
    Callable (fun name arguments => ¬Crossed name arguments) name bounds := by
  refine ⟨fun hcrossed => ?_, fun d found hfound hcrossed => ?_⟩
  · obtain ⟨-, x, low, high, hnone, -⟩ := hcrossed
    cases hnone
  · obtain ⟨hname, x, low, high, harguments, hcrossed⟩ := hcrossed
    obtain ⟨-, rfl⟩ := List.cons.inj harguments
    have hordered := h hname
    cases hfound with
    | cons hlow hrest =>
      cases hrest with
      | cons hhigh hnone =>
        cases hnone
        unfold inOrder at hordered
        split at hordered
        · next first second heq =>
          obtain ⟨rfl, rfl⟩ : _ = literal (.float first) ∧ _ = literal (.float second) := by
            simpa using heq
          obtain rfl := Datum.float.inj hlow
          obtain rfl := Datum.float.inj hhigh
          exact hcrossed (of_decide_eq_true hordered)
        · next first second hfloats heq =>
          obtain ⟨rfl, rfl⟩ : _ = literal first ∧ _ = literal second := by
            simpa using heq
          obtain rfl : Datum.float low = first := hlow
          obtain rfl : Datum.float high = second := hhigh
          exact hfloats low high rfl rfl
        · cases hordered
        · next hpair => exact hpair _ _ rfl

/-- Whether every call of `clamp` that a term itself makes has its bounds
written in order. -/
def ordersBounds (t : Term) : Bool :=
  t.calls.all fun c => c.1 != "clamp" || inOrder c.2

/-- Whether every call of `clamp` anywhere in a term has its bounds written in
order, and the term is nested at most so deep. -/
def ordersWithin : Nat → Term → Bool
  | 0, _ => false
  | depth + 1, t => t.ordersBounds && t.children.all (ordersWithin depth)

/-- A term that was found to order its bounds crosses none. -/
theorem isSafe_of_ordersWithin {depth : Nat} {t : Term} (h : t.ordersWithin depth = true) :
    t.IsSafe fun name arguments => ¬Crossed name arguments := by
  induction depth generalizing t with
  | zero => cases h
  | succ depth ih =>
    rw [ordersWithin, Bool.and_eq_true, List.all_eq_true] at h
    intro u hu
    rcases Relation.ReflTransGen.cases_head hu with rfl | ⟨child, hchild, hrest⟩
    · intro c hc
      refine callable_of_inOrder fun hname => ?_
      have hordered := List.all_eq_true.mp h.1 c hc
      rw [hname] at hordered
      exact hordered
    · exact ih (h.2 child hchild) u hrest

end Term

end ProcessDisplay.Script
