import Mathlib.Tactic.Common
import ProcessDisplay.Proofs.SteadyRuns
import ProcessDisplay.Proofs.TermCalls
import ProcessDisplay.Script.Eval

/-!
# Steps of an evaluation

What a term does is steady if the evaluations of the terms inside it are.
Every term but the empty block performs an operation, so every round of a
loop does. The host is called only as the terms call functions, with values
of the terms in them.
-/

namespace ProcessDisplay.Script

/-- An access to a datum whose function may be called. -/
def Access.Applies (allowed : String → List Datum → Prop) : Access Datum → Prop
  | .method name arguments => ∀ d, allowed name (d :: arguments)
  | _ => True

open Run

/-- The evaluation of a term returns, and what is known of its value holds. -/
structure Evaluator.Evaluates (allowed : String → List Datum → Prop) (inner : Evaluator)
    (env : Environment) (t : Term) : Prop where
  /-- The evaluation is steady. -/
  steady : Steady allowed env.limits.operations t.cost t.Returns (inner env t)
  /-- The empty block has no other value. -/
  idle : t.cost = 0 → ∀ m, (inner env t m).Ensures fun ended => ended.1 = .ok .unit

variable {allowed : String → List Datum → Prop} {self : Evaluator} {env : Environment}

/-- A datum that the limits may refuse. -/
theorem steady_sizedDatum {result : Except Fault Datum} :
    Steady allowed env.limits.operations 0 (fun _ => True) (sizedDatum env result) :=
  (steady_lift fun _ _ => trivial).bind fun _ _ => steady_lift fun _ _ => trivial

/-- Only terms that cost an operation have other values than the missing one. -/
theorem cost_of_returns {t : Term} {d : Datum} (h : t.Returns d) (hd : d ≠ .unit) :
    t.cost = 1 := by
  unfold Term.Returns at h
  split at h
  · exact absurd h hd
  · rfl
  · next hblock _ =>
    unfold Term.cost
    split
    · exact (hblock rfl).elim
    · rfl

/-- A condition. -/
theorem steady_condition {t : Term} (h : self.Evaluates allowed env t) :
    Steady allowed env.limits.operations t.cost (fun _ => t.cost = 1) (condition self env t) := by
  refine h.steady.bind fun d hd => ?_
  split
  · exact steady_pure (cost_of_returns hd (by simp))
  · exact steady_fail

/-- The values of terms. -/
theorem steady_values {ts : List Term} (h : ∀ t ∈ ts, self.Evaluates allowed env t) :
    Steady allowed env.limits.operations 0 (List.Forall₂ Term.Returns ts)
      (values self env ts) := by
  induction ts with
  | nil => exact steady_pure .nil
  | cons first rest ih =>
    have hfirst := (h first List.mem_cons_self).steady
    refine (hfirst.imp (Nat.zero_le _) fun _ hd => hd).bind fun d hd => ?_
    refine (ih fun t ht => h t (List.mem_cons_of_mem _ ht)).bind fun found hfound => ?_
    exact steady_pure (.cons hd hfound)

/-- The joined texts of terms. -/
theorem steady_joinedTexts {ts : List Term} (h : ∀ t ∈ ts, self.Evaluates allowed env t)
    (found : String) :
    Steady allowed env.limits.operations 0 (fun _ => True) (joinedTexts self env found ts) := by
  induction ts generalizing found with
  | nil => exact steady_pure trivial
  | cons first rest ih =>
    refine (h first List.mem_cons_self).steady.anyhow.bind fun d _ => ?_
    refine steady_sizedDatum.bind fun joined _ => ?_
    split
    · exact ih (fun t ht => h t (List.mem_cons_of_mem _ ht)) _
    · exact steady_pure trivial

/-- The entries of a map. -/
theorem steady_entryValues {entries : List (String × Term)}
    (h : ∀ entry ∈ entries, self.Evaluates allowed env entry.2)
    (found : List (String × Datum)) :
    Steady allowed env.limits.operations 0 (fun _ => True)
      (entryValues self env found entries) := by
  induction entries generalizing found with
  | nil => exact steady_pure trivial
  | cons entry rest ih =>
    refine (h entry List.mem_cons_self).steady.anyhow.bind fun d _ => ?_
    exact ih (fun entry hentry => h entry (List.mem_cons_of_mem _ hentry)) _

/-- The values of statements. -/
theorem steady_sequence {ts : List Term} (h : ∀ t ∈ ts, self.Evaluates allowed env t) :
    Steady allowed env.limits.operations 0 (fun _ => True) (sequence self env ts) := by
  induction ts with
  | nil => exact steady_pure trivial
  | cons first rest ih =>
    have hfirst := (h first List.mem_cons_self).steady
    cases rest with
    | nil => exact hfirst.anyhow
    | cons second rest =>
      refine hfirst.anyhow.discard.bind fun _ _ => ?_
      exact ih fun t ht => h t (List.mem_cons_of_mem _ ht)

/-- The first statement of a block costs an operation. -/
theorem steady_block {statements : List Term}
    (h : ∀ t ∈ statements, self.Evaluates allowed env t)
    (hstatements : ∀ t ∈ statements, t.isStatement = true) :
    Steady allowed env.limits.operations (Term.block statements).cost
      (Term.block statements).Returns (enclosed (sequence self env statements)) := by
  refine Steady.enclosed ?_
  cases statements with
  | nil => exact steady_pure rfl
  | cons first rest =>
    have hone : first.cost = 1 := Term.cost_of_isStatement (hstatements first List.mem_cons_self)
    have hfirst := (h first List.mem_cons_self).steady
    rw [hone] at hfirst
    cases rest with
    | nil => exact hfirst.imp (Nat.le_refl _) fun _ _ => trivial
    | cons second rest =>
      refine Steady.bind hfirst.discard fun _ _ => ?_
      exact steady_sequence fun t ht => h t (List.mem_cons_of_mem _ ht)

/-- The body of a function may be evaluated one call deeper. -/
def Environment.Callable (allowed : String → List Datum → Prop) (self : Evaluator)
    (env : Environment) : Prop :=
  env.level < env.limits.callLevels → ∀ f ∈ env.functions,
    self.Evaluates allowed { env with level := env.level + 1 } f.body

section Calls

variable (hlimit : env.limits.operations ≠ 0) (hcalls : env.Callable allowed self)

include hlimit

/-- A call of a function of the host or the language. -/
theorem steady_callNative {name : String} {arguments : List Datum}
    (h : allowed name arguments) :
    Steady allowed env.limits.operations 0 (fun _ => True) (callNative env name arguments) := by
  refine (steady_charge hlimit).anyhow.bind fun _ _ => ?_
  refine (steady_ask h).bind fun answered _ => ?_
  split
  · exact steady_pure trivial
  · split
    · exact steady_lift fun _ _ => trivial
    · exact steady_fail

include hcalls

/-- A call of a function of the script. -/
theorem steady_callScript {f : Function} (hf : f ∈ env.functions) (arguments : List Datum) :
    Steady allowed env.limits.operations 0 (fun _ => True) (callScript self env f arguments) := by
  refine (steady_charge hlimit).anyhow.bind fun _ _ => ?_
  extract_lets body join
  split
  · exact steady_fail_bind
  · next hlevel =>
    have hbody := (hcalls (by omega) f hf).steady
    refine Steady.tryCatch hbody.anyhow.isolated rfl fun signal => ?_
    split
    · exact steady_pure trivial
    · exact steady_throw

/-- A call of a function by its name. -/
theorem steady_callNamed {name : String} {arguments : List Datum}
    (h : allowed name arguments) :
    Steady allowed env.limits.operations 0 (fun _ => True) (callNamed self env name arguments) := by
  unfold callNamed
  split
  · next f hfound => exact steady_callScript hlimit hcalls (List.mem_of_find?_eq_some hfound) _
  · exact steady_callNative hlimit h

/-- A function applied to a datum. -/
theorem steady_applyMethod {name : String} {d : Datum} {arguments : List Datum}
    (h : allowed name (d :: arguments)) :
    Steady allowed env.limits.operations 0 (fun _ => True)
      (applyMethod self env d name arguments) := by
  unfold applyMethod
  split
  · refine (steady_charge hlimit).anyhow.bind fun _ _ => ?_
    refine steady_sizedDatum.bind fun changed _ => ?_
    exact steady_pure trivial
  · refine (steady_callNamed hlimit hcalls h).bind fun result _ => ?_
    exact steady_pure trivial

/-- The part that accesses lead to. -/
theorem steady_follow {steps : List (Access Datum)} (h : ∀ step ∈ steps, step.Applies allowed)
    (d : Datum) :
    Steady allowed env.limits.operations 0 (fun _ => True) (follow self env d steps) := by
  induction steps generalizing d with
  | nil => exact steady_pure trivial
  | cons step rest ih =>
    have hstep := h step List.mem_cons_self
    have hrest : ∀ step ∈ rest, step.Applies allowed := fun step hstep =>
      h step (List.mem_cons_of_mem _ hstep)
    cases step with
    | index position =>
      refine Steady.bind (steady_lift fun _ _ => trivial) fun part _ => ?_
      refine (ih hrest part).bind fun found _ => ?_
      split
      split
      · refine Steady.bind (steady_lift fun _ _ => trivial) fun changed _ => ?_
        exact steady_pure trivial
      · exact steady_pure trivial
    | property name =>
      refine Steady.bind (steady_lift fun _ _ => trivial) fun part _ => ?_
      refine (ih hrest part).bind fun found _ => ?_
      split
      split
      · refine Steady.bind (steady_lift fun _ _ => trivial) fun changed _ => ?_
        exact steady_pure trivial
      · exact steady_pure trivial
    | method name arguments =>
      refine (steady_applyMethod hlimit hcalls (hstep d)).bind fun found _ => ?_
      split
      refine (ih hrest _).bind fun result _ => ?_
      exact steady_pure trivial

/-- A datum with a part replaced. -/
theorem steady_replacePart {new : Datum → Run Datum}
    (hnew : ∀ d, Steady allowed env.limits.operations 0 (fun _ => True) (new d))
    {steps : List (Access Datum)} (h : ∀ step ∈ steps, step.Applies allowed) (d : Datum) :
    Steady allowed env.limits.operations 0 (fun _ => True) (replacePart self env new d steps) := by
  induction steps generalizing d with
  | nil => exact hnew d
  | cons step rest ih =>
    have hstep := h step List.mem_cons_self
    have hrest : ∀ step ∈ rest, step.Applies allowed := fun step hstep =>
      h step (List.mem_cons_of_mem _ hstep)
    cases step with
    | index position =>
      refine Steady.bind (steady_lift fun _ _ => trivial) fun part _ => ?_
      refine (ih hrest part).bind fun replaced _ => ?_
      exact steady_lift fun _ _ => trivial
    | property name =>
      refine Steady.bind (steady_lift fun _ _ => trivial) fun part _ => ?_
      refine (ih hrest part).bind fun replaced _ => ?_
      exact steady_lift fun _ _ => trivial
    | method name arguments =>
      refine (steady_applyMethod hlimit hcalls (hstep d)).bind fun found _ => ?_
      split
      refine (ih hrest _).discard.bind fun _ _ => ?_
      exact steady_pure trivial

end Calls

/-- The terms inside an access evaluated. -/
theorem steady_accessValue {step : Access Term} (hsafe : step.IsSafe allowed)
    (h : ∀ t ∈ step.terms, self.Evaluates allowed env t) :
    Steady allowed env.limits.operations 0 (Access.Applies allowed)
      (accessValue self env step) := by
  cases step with
  | index position =>
    refine (h position List.mem_cons_self).steady.anyhow.bind fun d _ => ?_
    exact steady_pure trivial
  | property name => exact steady_pure trivial
  | method name arguments =>
    refine (steady_values h).bind fun found hfound => ?_
    exact steady_pure fun d => (hsafe _ rfl).2 d found hfound

/-- The terms inside accesses evaluated. -/
theorem steady_accessValues {steps : List (Access Term)}
    (hsafe : ∀ step ∈ steps, step.IsSafe allowed)
    (h : ∀ step ∈ steps, ∀ t ∈ step.terms, self.Evaluates allowed env t) :
    Steady allowed env.limits.operations 0 (fun found => ∀ step ∈ found, step.Applies allowed)
      (accessValues self env steps) := by
  induction steps with
  | nil => exact steady_pure fun step hstep => absurd hstep List.not_mem_nil
  | cons first rest ih =>
    have hfirst := steady_accessValue (hsafe first List.mem_cons_self) (h first List.mem_cons_self)
    refine hfirst.bind fun found hfound => ?_
    refine (ih (fun step hstep => hsafe step (List.mem_cons_of_mem _ hstep))
      fun step hstep => h step (List.mem_cons_of_mem _ hstep)).bind fun more hmore => ?_
    refine steady_pure fun step hstep => ?_
    rcases List.mem_cons.mp hstep with rfl | hrest
    · exact hfound
    · exact hmore step hrest

/-- A new value for a variable. -/
theorem steady_store {limit : Nat} {name : String} {value : Datum} :
    Steady allowed limit 0 (fun _ => True) (store name value : Run Unit) := by
  refine steady_slot.bind fun s _ => ?_
  extract_lets join
  split
  · exact steady_fail_bind
  · exact steady_assign

/-- The new value of an assignment. -/
theorem steady_newValue {op : Option Operator} {value old : Datum} :
    Steady allowed env.limits.operations 0 (fun _ => True) (newValue env op value old) := by
  unfold newValue
  split
  · exact steady_pure trivial
  · exact steady_sizedDatum

section Values

variable (hlimit : env.limits.operations ≠ 0) (hcalls : env.Callable allowed self)

include hlimit hcalls

/-- The value of a chain. -/
theorem steady_chainValue {root : Term} {steps : List (Access Term)}
    (hroot : self.Evaluates allowed env root) (hsafe : ∀ step ∈ steps, step.IsSafe allowed)
    (h : ∀ step ∈ steps, ∀ t ∈ step.terms, self.Evaluates allowed env t) :
    Steady allowed env.limits.operations 0 (fun _ => True) (chainValue self env root steps) := by
  refine (steady_accessValues hsafe h).bind fun found hfound => ?_
  split
  · refine (steady_charge hlimit).anyhow.bind fun _ _ => ?_
    refine steady_slot.bind fun s _ => ?_
    refine (steady_follow hlimit hcalls hfound s.value).bind fun result _ => ?_
    split
    extract_lets join
    split
    · refine steady_store.bind fun _ _ => ?_
      exact steady_pure trivial
    · exact steady_pure trivial
  · refine hroot.steady.anyhow.bind fun d _ => ?_
    refine (steady_follow hlimit hcalls hfound d).bind fun result _ => ?_
    exact steady_pure trivial

/-- An assignment. -/
theorem steady_assignTo {target value : Term} {op : Option Operator}
    (hvalue : self.Evaluates allowed env value) (hsafe : target.IsSafe allowed)
    (h : ∀ t ∈ target.children, self.Evaluates allowed env t) :
    Steady allowed env.limits.operations 0 (fun _ => True) (assignTo self env target op value) := by
  refine hvalue.steady.anyhow.bind fun new _ => ?_
  extract_lets join
  have hjoin : ∀ u, Steady allowed env.limits.operations 0 (fun _ => True) (join u) :=
    fun _ => steady_pure trivial
  split
  · refine steady_slot.bind fun s _ => ?_
    refine steady_newValue.bind fun replaced _ => ?_
    exact steady_store.bind fun u _ => hjoin u
  · next root steps =>
    have hsteps : ∀ step ∈ steps, ∀ t ∈ step.terms, self.Evaluates allowed env t :=
      fun step hstep t ht => h t (List.mem_cons_of_mem _ (List.mem_flatMap.mpr ⟨step, hstep, ht⟩))
    refine (steady_accessValues hsafe.callsSafely.steps hsteps).bind fun found hfound => ?_
    have hnew : ∀ old,
        Steady allowed env.limits.operations 0 (fun _ => True) (newValue env op new old) :=
      fun _ => steady_newValue
    have hreplaced := fun d => steady_replacePart hlimit hcalls hnew hfound d
    split
    · refine steady_slot.bind fun s _ => ?_
      refine (hreplaced s.value).bind fun changed _ => ?_
      refine steady_sizedDatum.bind fun stored _ => ?_
      exact steady_store.bind fun u _ => hjoin u
    · refine (h _ List.mem_cons_self).steady.anyhow.bind fun d _ => ?_
      exact (hreplaced d).discard.bind fun u _ => hjoin u
  · exact hjoin ()

/-- A call by name. -/
theorem steady_callValue {name : String} {arguments : List Term}
    (hsafe : Callable allowed name arguments.tail)
    (h : ∀ t ∈ arguments, self.Evaluates allowed env t) :
    Steady allowed env.limits.operations 0 (fun _ => True) (callValue self env name arguments) := by
  unfold callValue
  split
  · next v rest =>
    refine (steady_values fun t ht => h t (List.mem_cons_of_mem _ ht)).bind fun found hfound => ?_
    refine steady_slot.bind fun s _ => ?_
    refine (steady_applyMethod hlimit hcalls (hsafe.2 _ _ hfound)).bind fun result _ => ?_
    split
    extract_lets join
    split
    · refine steady_store.bind fun _ _ => ?_
      exact steady_pure trivial
    · exact steady_pure trivial
  · refine (steady_values h).bind fun found hfound => ?_
    refine steady_callNamed hlimit hcalls ?_
    cases hfound with
    | nil => exact hsafe.1
    | cons hfirst hrest => exact hsafe.2 _ _ hrest

end Values

end ProcessDisplay.Script
