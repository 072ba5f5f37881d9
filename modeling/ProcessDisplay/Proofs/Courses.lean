import Mathlib.Tactic.Common
import ProcessDisplay.Script.Course

/-!
# What holds of courses

A course is the same whatever host answers it. What holds of it with any
replies is put together from its parts, and it can be said of a language
without knowing the language. What a host keeps and what it overlooks, every
course keeps and overlooks, since it reaches the state of its host through
calls only.
-/

namespace ProcessDisplay.Script

namespace Course

variable {σ τ α β : Type}

/-- A course after two others. -/
theorem bind_assoc {γ : Type} (c : Course α) (next : α → Course β) (last : β → Course γ) :
    c >>= next >>= last = c >>= fun a => next a >>= last := by
  induction c with
  | ends a => rfl
  | crashes => rfl
  | calls name arguments rest ih => exact congrArg (calls name arguments) (funext ih)

instance : LawfulMonad Course :=
  LawfulMonad.mk' _
    (fun c => by
      induction c with
      | ends a => rfl
      | crashes => rfl
      | calls name arguments next ih => exact congrArg (calls name arguments) (funext ih))
    (fun _ _ => rfl) bind_assoc

/-- What holds of a course whatever the replies of its host are: the calls that
it makes are allowed, it ends the program only where that is allowed, and its
results are as wanted. -/
def Holds (allowed : String → List Datum → Prop) (crash : Prop) (wanted : α → Prop) :
    Course α → Prop
  | ends a => wanted a
  | crashes => crash
  | calls name arguments next =>
    allowed name arguments ∧ ∀ reply, (next reply).Holds allowed crash wanted

/-- A course neither ends the program nor goes on for ever, unless its host
does. -/
def Returns (c : Course α) : Prop := c.Holds (fun _ _ => True) False fun _ => True

/-- A course never makes one of some calls. -/
def Avoids (refused : String → List Datum → Prop) (c : Course α) : Prop :=
  c.Holds (fun name arguments => ¬refused name arguments) True fun _ => True

/-- A course has no other results than some. -/
def Ensures (wanted : α → Prop) (c : Course α) : Prop := c.Holds (fun _ _ => True) True wanted

section Holds

variable {allowed allowed' : String → List Datum → Prop} {crash crash' : Prop}
  {wanted wanted' : α → Prop} {c : Course α}

/-- Less may be asked of a course. -/
theorem Holds.imp (h : c.Holds allowed crash wanted)
    (hallowed : ∀ name arguments, allowed name arguments → allowed' name arguments)
    (hcrash : crash → crash') (hwanted : ∀ a, wanted a → wanted' a) :
    c.Holds allowed' crash' wanted' := by
  induction c with
  | ends a => exact hwanted a h
  | crashes => exact hcrash h
  | calls name arguments next ih =>
    exact ⟨hallowed name arguments h.1, fun reply => ih reply (h.2 reply)⟩

/-- Other results may be wanted of a course if they follow from its results. -/
theorem Holds.weaken (h : c.Holds allowed crash wanted) (hwanted : ∀ a, wanted a → wanted' a) :
    c.Holds allowed crash wanted' :=
  h.imp (fun _ _ => id) id hwanted

/-- What holds of a course says what its results are. -/
theorem Holds.ensures (h : c.Holds allowed crash wanted) : c.Ensures wanted :=
  h.imp (fun _ _ _ => trivial) (fun _ => trivial) fun _ => id

/-- Two things hold of a course together. -/
theorem Holds.and (h : c.Holds allowed crash wanted) (h' : c.Holds allowed' crash' wanted') :
    c.Holds (fun name arguments => allowed name arguments ∧ allowed' name arguments)
      (crash ∧ crash') fun a => wanted a ∧ wanted' a := by
  induction c with
  | ends a => exact ⟨h, h'⟩
  | crashes => exact ⟨h, h'⟩
  | calls name arguments next ih =>
    exact ⟨⟨h.1, h'.1⟩, fun reply => ih reply (h.2 reply) (h'.2 reply)⟩

/-- A course that returns and avoids some calls. -/
theorem Returns.avoiding {refused : String → List Datum → Prop} (h : c.Returns)
    (havoids : c.Avoids refused) :
    c.Holds (fun name arguments => ¬refused name arguments) False fun _ => True :=
  (h.and havoids).imp (fun _ _ => And.right) And.left fun _ _ => trivial

/-- A course and what follows it. -/
theorem Holds.bind {goal : β → Prop} {next : α → Course β} (h : c.Holds allowed crash wanted)
    (hnext : ∀ a, wanted a → (next a).Holds allowed crash goal) :
    (c >>= next).Holds allowed crash goal := by
  induction c with
  | ends a => exact hnext a h
  | crashes => exact h
  | calls name arguments rest ih => exact ⟨h.1, fun reply => ih reply (h.2 reply)⟩

variable {host : Host σ}

/-- A course has the results in a host that it has at all. -/
theorem Holds.result (h : c.Holds allowed crash wanted) {state : σ} {ended : α × σ}
    (hrun : c.run host state = .done ended) : wanted ended.1 := by
  induction c generalizing state with
  | ends a =>
    obtain rfl := Outcome.done.inj hrun
    exact h
  | crashes => cases hrun
  | calls name arguments next ih =>
    unfold run at hrun
    split at hrun
    · exact ih none (h.2 none) hrun
    · obtain ⟨⟨reply, after⟩, -, hrun⟩ := Outcome.bind_eq_done_iff.mp hrun
      exact ih (some reply) (h.2 (some reply)) hrun

/-- A course returns in a host that answers the calls that it makes. -/
theorem Holds.exists_run (h : c.Holds allowed False wanted)
    (hhost : ∀ name arguments action, host name arguments = some action →
      allowed name arguments → ∀ state, ∃ answered, action state = .done answered) (state : σ) :
    ∃ ended, c.run host state = .done ended := by
  induction c generalizing state with
  | ends a => exact ⟨_, rfl⟩
  | crashes => exact h.elim
  | calls name arguments next ih =>
    unfold run
    split
    · exact ih none (h.2 none) state
    · next action haction =>
      obtain ⟨⟨reply, after⟩, hanswered⟩ := hhost name arguments action haction h.1 state
      rw [hanswered]
      exact ih (some reply) (h.2 (some reply)) after

end Holds

end Course

section Hosts

variable {σ α : Type} {host : Host σ}

/-- All actions of a host keep a property. -/
def Host.Keeps (host : Host σ) (good : σ → Prop) : Prop :=
  ∀ name arguments action, host name arguments = some action →
    ∀ state answered, good state → action state = .done answered → good answered.2

/-- A course keeps what its host keeps. -/
theorem Course.run_keeps {good : σ → Prop} (hhost : host.Keeps good) {c : Course α} {state : σ}
    {ended : α × σ} (h : good state) (hrun : c.run host state = .done ended) : good ended.2 := by
  induction c generalizing state with
  | ends a =>
    obtain rfl := Outcome.done.inj hrun
    exact h
  | crashes => cases hrun
  | calls name arguments next ih =>
    unfold run at hrun
    split at hrun
    · exact ih none h hrun
    · next action haction =>
      obtain ⟨answered, hanswered, hrun⟩ := Outcome.bind_eq_done_iff.mp hrun
      exact ih (some answered.1) (hhost name arguments action haction state answered h hanswered)
        hrun

/-- All actions of a host do the same in states of one view, and leave states
of one view. -/
def Host.Overlooks {τ : Type} (host : Host σ) (view : σ → τ) : Prop :=
  ∀ name arguments action, host name arguments = some action →
    ∀ state state', view state' = view state →
      Prod.map id view <$> action state' = Prod.map id view <$> action state

/-- A course does the same in states that its host does not tell apart. -/
theorem Course.run_overlooks {τ : Type} {view : σ → τ} (hhost : host.Overlooks view)
    (c : Course α) {state state' : σ} (h : view state' = view state) :
    Prod.map id view <$> c.run host state' = Prod.map id view <$> c.run host state := by
  induction c generalizing state state' with
  | ends a => exact congrArg (fun seen => Outcome.done (a, seen)) h
  | crashes => rfl
  | calls name arguments next ih =>
    unfold run
    split
    · exact ih none h
    · next action haction =>
      have hsame := hhost name arguments action haction state state' h
      cases hafter : action state with
      | crash =>
        cases hafter' : action state' with
        | crash => rfl
        | done answered => rw [hafter, hafter'] at hsame; cases hsame
      | done answered =>
        cases hafter' : action state' with
        | crash => rw [hafter, hafter'] at hsame; cases hsame
        | done answered' =>
          rw [hafter, hafter'] at hsame
          obtain ⟨hreply, hview⟩ := Prod.mk.inj (Outcome.done.inj hsame)
          change Prod.map id view <$> (next (some answered'.1)).run host answered'.2 =
            Prod.map id view <$> (next (some answered.1)).run host answered.2
          rw [show answered'.1 = answered.1 from hreply]
          exact ih (some answered.1) hview

/-- A call of a function of the host: its name and its arguments. -/
abbrev HostCall := String × List Datum

/-- The calls that a course makes in a host, in order. -/
def Course.callsIn (host : Host σ) : Course α → σ → List HostCall
  | ends _, _ => []
  | crashes, _ => []
  | calls name arguments next, state =>
    (name, arguments) ::
      match host name arguments with
      | none => (next none).callsIn host state
      | some action =>
        match action state with
        | .crash => []
        | .done (reply, state) => (next (some reply)).callsIn host state

/-- The state that calls lead to, as far as they return. -/
def Host.after (host : Host σ) (state : σ) (calls : List HostCall) : Outcome σ :=
  calls.foldlM (fun state call =>
    match host call.1 call.2 with
    | none => .done state
    | some action => Prod.snd <$> action state) state

/-- The state that a course leaves is the one that its calls lead to. -/
theorem Course.after_callsIn {c : Course α} {state : σ} {ended : α × σ}
    (hrun : c.run host state = .done ended) :
    host.after state (c.callsIn host state) = .done ended.2 := by
  induction c generalizing state with
  | ends a =>
    obtain rfl := Outcome.done.inj hrun
    rfl
  | crashes => cases hrun
  | calls name arguments next ih =>
    unfold run at hrun
    unfold callsIn Host.after
    rw [List.foldlM_cons]
    split at hrun
    · next hnone =>
      simp only [hnone]
      exact ih none hrun
    · next action haction =>
      obtain ⟨⟨reply, after⟩, hanswered, hrun⟩ := Outcome.bind_eq_done_iff.mp hrun
      simp only [haction, hanswered]
      exact ih (some reply) hrun

end Hosts

end ProcessDisplay.Script
