import Mathlib.Tactic.Common
import ProcessDisplay.Proofs.EvaluationSteps
import ProcessDisplay.Proofs.GrammarNesting

/-!
# Evaluations return

Loops have no more rounds than the operations allow, and the bound on the
nesting of evaluations is never met: a program is nested as deep as its
source allows, and so again in every nested call. So the course of a program
returns, whatever its variables hold and whatever the host replies, and one
whose calls of `clamp` have their bounds written in order crosses no bounds.
-/

namespace ProcessDisplay.Script

open Run

variable {allowed : String → List Datum → Prop} {self : Evaluator} {env : Environment}

/-- The result of the first case whose further condition holds. -/
theorem steady_firstCase {cases : List (Case Term)}
    (h : ∀ c ∈ cases, ∀ t ∈ c.terms, self.Evaluates allowed env t) :
    Steady allowed env.limits.operations 0 (fun _ => True) (firstCase self env cases) := by
  induction cases with
  | nil => exact steady_pure trivial
  | cons c rest ih =>
    have hresult : self.Evaluates allowed env c.result :=
      h c List.mem_cons_self _ (List.mem_append_right _ List.mem_cons_self)
    have hrest := ih fun c hc => h c (List.mem_cons_of_mem _ hc)
    unfold firstCase
    extract_lets join
    have hjoin : ∀ holds,
        Steady allowed env.limits.operations 0 (fun _ => True) (join holds) := by
      intro holds
      change Steady _ _ _ _ (if holds = true then _ else _)
      split
      · exact hresult.steady.anyhow
      · exact hrest
    split
    · rw [pure_bind]
      exact hjoin true
    · next t hguard =>
      have hguarded : self.Evaluates allowed env t :=
        h c List.mem_cons_self t (List.mem_append_left _ (by rw [hguard]; exact List.mem_cons_self))
      exact (steady_condition hguarded).anyhow.bind fun holds _ => hjoin holds

/-- The candidates are cases of the selection. -/
theorem mem_candidates {d : Datum} {cases : List (Case Term)} {c : Case Term}
    (h : c ∈ candidates d cases) : c ∈ cases := by
  rcases List.mem_append.mp h with hsome | hall
  · split at hsome
    · exact (List.mem_filter.mp hsome).1
    · exact (List.mem_filter.mp hsome).1
  · exact (List.mem_filter.mp hall).1

/-- A round that ends with the next one. -/
theorem steady_loopRound {least : Nat} {returns : Bool → Prop} {body : Run Bool}
    (h : Steady allowed env.limits.operations least returns body) (htrue : returns true) :
    Steady allowed env.limits.operations least returns (loopRound body) := by
  refine h.tryCatch rfl fun signal => ?_
  split
  · exact steady_pure htrue
  · exact steady_throw

/-- A round that performs an operation however it ends. -/
theorem spends_loopRound {returns : Bool → Prop} {body : Run Bool} {limit : Nat}
    (h : Steady allowed limit 1 returns body) : Spends limit (loopRound body) := by
  intro m hm
  unfold loopRound
  rw [tryCatch_apply]
  refine (h m hm).ensures.bind fun ended hended => ?_
  have hone := hended.performed
  rcases ended with ⟨signal | again, m₁⟩
  · cases signal with
    | nextRound => exact fun _ => hone
    | fault _ | thrown _ | leaveLoop _ | giveBack _ =>
      intro hagain
      cases hagain
  · exact fun _ => hone

/-- A loop with the value of its end. -/
theorem steady_loopValue {loop : Run Unit} {limit : Nat}
    (h : Steady allowed limit 0 (fun _ => True) loop) :
    Steady allowed limit 0 (fun _ => True) (loopValue loop) := by
  refine Steady.tryCatch (h.bind fun _ _ => steady_pure trivial) rfl fun signal => ?_
  split
  · exact steady_pure trivial
  · exact steady_throw

/-- There are as many rounds as operations, and one more. -/
theorem steady_rounds (hlimit : env.limits.operations ≠ 0) {round : Run Bool}
    (h : Steady allowed env.limits.operations 0 (fun _ => True) round)
    (hspends : Spends env.limits.operations round) :
    Steady allowed env.limits.operations 0 (fun _ => True)
      (repeatWhile round (mostRounds env.limits)) := by
  have hmost : mostRounds env.limits = env.limits.operations + 1 := if_neg hlimit
  intro m hm
  have hfuel : env.limits.operations < m.operations + mostRounds env.limits := by omega
  exact steady_repeatWhile h hspends hm hfuel

/-- A body that is not idle costs an operation. -/
theorem cost_of_isIdle {body : Term} (h : body.isIdle = false) : body.cost = 1 := by
  unfold Term.cost
  split
  · cases h
  · rfl

/-- A round of a loop without a condition: its body performs an operation, or
the loop does. -/
theorem steady_endlessRound (hlimit : env.limits.operations ≠ 0) {body : Term}
    (hbody : self.Evaluates allowed env body) :
    Steady allowed env.limits.operations 0 (fun _ => True)
        (whileRound self env (.literal (.bool true)) body) ∧
      Spends env.limits.operations (whileRound self env (.literal (.bool true)) body) := by
  have hround : ∃ round : Run Bool,
      whileRound self env (.literal (.bool true)) body = loopRound round ∧
        Steady allowed env.limits.operations 1 (fun _ => True) round := by
    refine ⟨_, rfl, ?_⟩
    dsimp only
    cases hidle : body.isIdle with
    | true =>
      refine (steady_charge hlimit).bind fun _ _ => ?_
      rw [pure_bind]
      exact steady_pure trivial
    | false =>
      have hone := hbody.steady
      rw [cost_of_isIdle hidle] at hone
      exact hone.discard.bind fun _ _ => steady_pure trivial
  obtain ⟨round, hround, hsteady⟩ := hround
  rw [hround]
  exact ⟨(steady_loopRound hsteady trivial).anyhow, spends_loopRound hsteady⟩

/-- A term that costs nothing is no condition. -/
theorem ensures_condition {t : Term} (h : self.Evaluates allowed env t) (hzero : t.cost = 0)
    (m : Machine) :
    (condition self env t m).Ensures fun ended => ended.1 = .error (.fault .wrongType) := by
  unfold condition
  rw [bind_apply]
  refine (h.idle hzero m).bind fun ended hunit => ?_
  rcases ended with ⟨signal | d, m₁⟩
  · cases hunit
  · obtain rfl := Except.ok.inj hunit
    rfl

/-- A round of a loop while a condition holds: the condition performs an
operation, or it is no condition at all. -/
theorem steady_whileRound {test body : Term} (hne : test ≠ .literal (.bool true))
    (htest : self.Evaluates allowed env test) (hbody : self.Evaluates allowed env body) :
    Steady allowed env.limits.operations 0 (fun _ => True) (whileRound self env test body) ∧
      Spends env.limits.operations (whileRound self env test body) := by
  have hround : ∃ rest : Bool → Run Bool,
      whileRound self env test body = loopRound (condition self env test >>= rest) ∧
        ∀ goesOn, Steady allowed env.limits.operations 0 (fun _ => True) (rest goesOn) := by
    unfold whileRound
    split
    · exact absurd rfl hne
    · refine ⟨_, rfl, fun goesOn => ?_⟩
      dsimp only
      split
      · exact hbody.steady.discard.anyhow.bind fun _ _ => steady_pure trivial
      · exact steady_pure trivial
  obtain ⟨rest, hround, hrest⟩ := hround
  have hsteady := (steady_condition htest).bind fun goesOn _ => hrest goesOn
  rw [hround]
  refine ⟨(steady_loopRound hsteady trivial).anyhow, ?_⟩
  rcases test.cost_eq with hzero | hone
  · intro m _
    have hfails : ((condition self env test >>= rest) m).Ensures fun ended =>
        ended.1 = .error (.fault .wrongType) := by
      rw [bind_apply]
      refine (ensures_condition htest hzero m).bind fun ended hended => ?_
      rcases ended with ⟨signal | goesOn, m₁⟩
      · obtain rfl := Except.error.inj hended
        rfl
      · cases hended
    unfold loopRound
    rw [tryCatch_apply]
    refine hfails.bind fun ended hended => ?_
    rcases ended with ⟨signal | again, m₁⟩
    · obtain rfl := Except.error.inj hended
      intro hagain
      cases hagain
    · cases hended
  · rw [hone] at hsteady
    exact spends_loopRound hsteady

/-- A loop while a condition holds. -/
theorem steady_whileValue (hlimit : env.limits.operations ≠ 0) {test body : Term}
    (htest : self.Evaluates allowed env test) (hbody : self.Evaluates allowed env body) :
    Steady allowed env.limits.operations 0 (fun _ => True) (whileValue self env test body) := by
  have hround :
      Steady allowed env.limits.operations 0 (fun _ => True) (whileRound self env test body) ∧
      Spends env.limits.operations (whileRound self env test body) := by
    by_cases htrue : test = .literal (.bool true)
    · subst htrue
      exact steady_endlessRound hlimit hbody
    · exact steady_whileRound htrue htest hbody
  exact steady_loopValue (steady_rounds hlimit hround.1 hround.2)

/-- A loop whose condition follows its body. -/
theorem steady_doValue (hlimit : env.limits.operations ≠ 0) {test body : Term} {whileTrue : Bool}
    (htest : self.Evaluates allowed env test) (hbody : self.Evaluates allowed env body) :
    Steady allowed env.limits.operations 0 (fun _ => True)
      (doValue self env body whileTrue test) := by
  have hfirst : Steady allowed env.limits.operations 0 (fun _ => True) (discard (loopRound do
      discard (self env body)
      return true)) := by
    have hround : Steady allowed env.limits.operations 0 (fun _ => True) (do
        discard (self env body)
        return true) :=
      hbody.steady.discard.anyhow.bind fun _ _ => steady_pure trivial
    exact (steady_loopRound hround trivial).discard
  have hlast : Steady allowed env.limits.operations test.cost (fun _ => test.cost = 1)
      (do return (← condition self env test) == whileTrue) :=
    (steady_condition htest).bind fun _ hone => steady_pure hone
  refine steady_loopValue (steady_rounds hlimit ?_ ?_)
  · exact hfirst.bind fun _ _ => hlast.anyhow
  · exact Spends.bind hfirst fun _ => spends_of_steady hlast

/-- A loop over elements. -/
theorem steady_forValue {name : String} {counter : Option String} {source body : Term}
    (hsource : self.Evaluates allowed env source) (hbody : self.Evaluates allowed env body) :
    Steady allowed env.limits.operations 0 (fun _ => True)
      (forValue self env name counter source body) := by
  refine hsource.steady.anyhow.bind fun d _ => ?_
  extract_lets round
  have hround : ∀ count item,
      Steady allowed env.limits.operations 0 (fun _ => True) (round count item) := by
    intro count item
    refine steady_loopRound (Steady.enclosed ?_) trivial
    have hitem : Steady allowed env.limits.operations 0 (fun _ => True) (do
        declare name false item
        discard (self env body)
        return true) := by
      refine steady_declare.bind fun _ _ => ?_
      exact hbody.steady.discard.anyhow.bind fun _ _ => steady_pure trivial
    split
    · exact steady_declare.bind fun _ _ => hitem
    · exact hitem
  split
  · refine steady_loopValue ?_
    split
    · exact steady_pure trivial
    · exact steady_forItems hround 0 _
  · refine steady_loopValue ?_
    split
    · exact steady_pure trivial
    · exact steady_forIntegers hround 0 _ _
  · exact steady_fail

/-- A term whose faults are caught. -/
theorem steady_guardedValue {body handler : Term} {name : Option String}
    (hbody : self.Evaluates allowed env body) (hhandler : self.Evaluates allowed env handler) :
    Steady allowed env.limits.operations 0 (fun _ => True)
      (guardedValue self env body name handler) := by
  unfold guardedValue
  extract_lets join handle
  have hhandle : ∀ caught d,
      Steady allowed env.limits.operations 0 (fun _ => True) (handle caught d) := by
    intro caught d
    refine Steady.tryCatch (Steady.enclosed ?_) rfl fun signal => ?_
    · split
      · exact steady_declare.bind fun _ _ => hhandler.steady.anyhow
      · exact hhandler.steady.anyhow
    · split
      · exact steady_throw
      · exact steady_throw
  refine hbody.steady.anyhow.tryCatch rfl fun signal => ?_
  split
  · exact hhandle _ _
  · split
    · exact hhandle _ _
    · exact steady_throw
  · exact steady_throw

/-- What follows the operation of a term. -/
theorem steady_counted (hlimit : env.limits.operations ≠ 0) {returns : Datum → Prop}
    {r : Run Datum} (h : Steady allowed env.limits.operations 0 returns r) :
    Steady allowed env.limits.operations 1 returns (charge env.limits >>= fun _ => r) :=
  (steady_charge hlimit).bind fun _ _ => h

/-- What a term does is steady if the evaluations inside it are. -/
theorem steady_evaluateWith (hlimit : env.limits.operations ≠ 0)
    (hcalls : env.Callable allowed self)
    {depth : Nat} {t : Term} (hfits : t.Fits (depth + 1)) (hsafe : t.IsSafe allowed)
    (hself : ∀ u, u.Fits depth → u.IsSafe allowed → self.Evaluates allowed env u) :
    Steady allowed env.limits.operations t.cost t.Returns (evaluateWith self env t) := by
  have hinside : ∀ u ∈ t.children, self.Evaluates allowed env u := fun u hu =>
    hself u (hfits.2 u hu) (hsafe.child hu)
  cases t with
  | literal d => exact steady_counted hlimit (steady_pure rfl)
  | name name =>
    refine steady_counted hlimit ?_
    exact steady_slot.bind fun s _ => steady_pure trivial
  | template parts =>
    refine steady_counted hlimit ?_
    exact (steady_joinedTexts hinside "").bind fun joined _ => steady_pure trivial
  | array items =>
    refine steady_counted hlimit ?_
    exact (steady_values hinside).bind fun found _ => steady_sizedDatum
  | map entries =>
    have hentries : ∀ entry ∈ entries, self.Evaluates allowed env entry.2 := fun entry hentry =>
      hinside entry.2 (List.mem_map_of_mem hentry)
    refine steady_counted hlimit ?_
    exact (steady_entryValues hentries []).bind fun found _ => steady_sizedDatum
  | binary op left right =>
    have hleft := (hinside left (by simp [Term.children])).steady.anyhow
    have hright := (hinside right (by simp [Term.children])).steady.anyhow
    refine steady_counted hlimit ?_
    exact hleft.bind fun a _ => hright.bind fun b _ => steady_sizedDatum
  | member negated item collection =>
    have hitem := (hinside item (by simp [Term.children])).steady.anyhow
    have hcollection := (hinside collection (by simp [Term.children])).steady.anyhow
    refine steady_counted hlimit ?_
    refine hitem.bind fun a _ => hcollection.bind fun b _ => ?_
    exact Steady.bind (steady_lift fun _ _ => trivial) fun _ _ => steady_pure trivial
  | both left right =>
    have hleft := (steady_condition (hinside left (by simp [Term.children]))).anyhow
    have hright := (steady_condition (hinside right (by simp [Term.children]))).anyhow
    refine steady_counted hlimit (hleft.bind fun holds _ => ?_)
    split
    · exact hright.bind fun _ _ => steady_pure trivial
    · exact steady_pure trivial
  | either left right =>
    have hleft := (steady_condition (hinside left (by simp [Term.children]))).anyhow
    have hright := (steady_condition (hinside right (by simp [Term.children]))).anyhow
    refine steady_counted hlimit (hleft.bind fun holds _ => ?_)
    split
    · exact steady_pure trivial
    · exact hright.bind fun _ _ => steady_pure trivial
  | orElse left right =>
    have hleft := (hinside left (by simp [Term.children])).steady.anyhow
    have hright := (hinside right (by simp [Term.children])).steady.anyhow
    refine steady_counted hlimit (hleft.bind fun d _ => ?_)
    split
    · exact hright
    · exact steady_pure trivial
  | unary symbol operand =>
    have hoperand := (hinside operand (by simp [Term.children])).steady.anyhow
    exact steady_counted hlimit (hoperand.bind fun d _ => steady_lift fun _ _ => trivial)
  | call name arguments =>
    have hcallable := hsafe.callsSafely _ List.mem_cons_self
    exact steady_counted hlimit (steady_callValue hlimit hcalls hcallable hinside)
  | chain root steps =>
    have hsteps : ∀ step ∈ steps, ∀ u ∈ step.terms, self.Evaluates allowed env u :=
      fun step hstep u hu =>
        hinside u (List.mem_cons_of_mem _ (List.mem_flatMap.mpr ⟨step, hstep, hu⟩))
    refine steady_counted hlimit ?_
    have hroot := hinside root List.mem_cons_self
    exact steady_chainValue hlimit hcalls hroot hsafe.callsSafely.steps hsteps
  | statement body =>
    have hbody := (hinside body (by simp [Term.children])).steady
    cases hcounts : counts (.statement body) with
    | true =>
      have hcharged : evaluateWith self env (.statement body) =
          (charge env.limits >>= fun _ => self env body) := if_pos hcounts
      rw [hcharged]
      exact steady_counted hlimit hbody.anyhow
    | false =>
      have hdirect : evaluateWith self env (.statement body) = self env body :=
        if_neg (by rw [hcounts]; exact Bool.false_ne_true)
      have hone : body.cost = 1 := by
        cases body with
        | block statements => cases hcounts
        | _ => rfl
      rw [hdirect]
      rw [hone] at hbody
      exact hbody.imp (Nat.le_refl _) fun _ _ => trivial
  | block statements => exact steady_block hinside hfits.1
  | conditional test yes no =>
    have htest := (steady_condition (hinside test (by simp [Term.children]))).anyhow
    have hyes := (hinside yes (by simp [Term.children])).steady.anyhow
    have hno := (hinside no (by simp [Term.children])).steady.anyhow
    refine steady_counted hlimit (htest.bind fun holds _ => ?_)
    split
    · exact hyes
    · exact hno
  | select subject cases =>
    have hsubject := (hinside subject List.mem_cons_self).steady.anyhow
    refine steady_counted hlimit (hsubject.bind fun d _ => steady_firstCase fun c hc u hu => ?_)
    exact hinside u (List.mem_cons_of_mem _ (List.mem_flatMap.mpr ⟨c, mem_candidates hc, hu⟩))
  | declare name isConstant value =>
    have hvalue := (hinside value (by simp [Term.children])).steady.anyhow
    refine steady_counted hlimit (hvalue.bind fun d _ => ?_)
    exact steady_declare.bind fun _ _ => steady_pure trivial
  | assign target op value =>
    have htarget : ∀ u ∈ target.children, self.Evaluates allowed env u := by
      intro u hu
      have hfitsTarget := hfits.2 target (by simp [Term.children])
      obtain ⟨inner, rfl⟩ : ∃ inner, depth = inner + 1 :=
        ⟨depth - 1, by have := hfitsTarget.pos; omega⟩
      exact hself u ((hfitsTarget.2 u hu).mono (by omega))
        ((hsafe.child (by simp [Term.children])).child hu)
    have hvalue := hinside value (by simp [Term.children])
    refine steady_counted hlimit ?_
    exact steady_assignTo hlimit hcalls hvalue (hsafe.child (by simp [Term.children])) htarget
  | whileLoop test body =>
    have htest := hinside test (by simp [Term.children])
    have hbody := hinside body (by simp [Term.children])
    exact steady_counted hlimit (steady_whileValue hlimit htest hbody)
  | doLoop body whileTrue test =>
    have htest := hinside test (by simp [Term.children])
    have hbody := hinside body (by simp [Term.children])
    exact steady_counted hlimit (steady_doValue hlimit htest hbody)
  | forLoop name counter source body =>
    have hsource := hinside source (by simp [Term.children])
    have hbody := hinside body (by simp [Term.children])
    exact steady_counted hlimit (steady_forValue hsource hbody)
  | leaveLoop value =>
    have hvalue := (hinside value (by simp [Term.children])).steady.anyhow
    exact steady_counted hlimit (hvalue.bind fun d _ => steady_throw)
  | nextRound => exact steady_counted hlimit steady_throw
  | giveBack value =>
    have hvalue := (hinside value (by simp [Term.children])).steady.anyhow
    exact steady_counted hlimit (hvalue.bind fun d _ => steady_throw)
  | throw value =>
    have hvalue := (hinside value (by simp [Term.children])).steady.anyhow
    exact steady_counted hlimit (hvalue.bind fun d _ => steady_throw)
  | guarded body name handler =>
    have hbody := hinside body (by simp [Term.children])
    have hhandler := hinside handler (by simp [Term.children])
    exact steady_counted hlimit (steady_guardedValue hbody hhandler)

/-- The functions of an environment are bounded and safe. -/
structure Environment.Sound (allowed : String → List Datum → Prop) (env : Environment)
    (depth : Nat) : Prop where
  /-- The operations are limited. -/
  limited : env.limits.operations ≠ 0
  /-- The bodies are nested at most so deep. -/
  fits : ∀ f ∈ env.functions, f.body.Fits depth
  /-- The bodies call safely. -/
  safe : ∀ f ∈ env.functions, f.body.IsSafe allowed

/-- The evaluation of terms returns, given fuel for the nesting of the term and
for that of a function in every call that may still be nested. -/
theorem evaluates_of_fuel {fuel depth bodies : Nat} {t : Term} (hsound : env.Sound allowed bodies)
    (hfits : t.Fits depth) (hsafe : t.IsSafe allowed)
    (hfuel : depth + (env.limits.callLevels - env.level) * bodies ≤ fuel) :
    (evaluate fuel : Evaluator).Evaluates allowed env t := by
  induction fuel generalizing env depth t with
  | zero =>
    have hpos := hfits.pos
    omega
  | succ fuel ih =>
    obtain ⟨depth, rfl⟩ : ∃ inner, depth = inner + 1 := ⟨depth - 1, by have := hfits.pos; omega⟩
    have hinside : ∀ u, u.Fits depth → u.IsSafe allowed →
        (evaluate fuel : Evaluator).Evaluates allowed env u := fun u hu hsafe =>
      ih hsound hu hsafe (by omega)
    have hcalls : env.Callable allowed (evaluate fuel) := by
      intro hlevel f hf
      have hdeeper : env.limits.callLevels - env.level =
          (env.limits.callLevels - (env.level + 1)) + 1 := by omega
      rw [hdeeper, Nat.add_mul, Nat.one_mul] at hfuel
      have hdeep : Environment.Sound allowed { env with level := env.level + 1 } bodies :=
        ⟨hsound.limited, hsound.fits, hsound.safe⟩
      exact ih hdeep (hsound.fits f hf) (hsound.safe f hf) (by dsimp only; omega)
    refine ⟨steady_evaluateWith hsound.limited hcalls hfits hsafe hinside, fun hzero m => ?_⟩
    obtain rfl := Term.eq_of_cost_eq_zero hzero
    rfl

/-- All functions that are called anywhere in a program may be called. -/
structure Program.IsSafe (allowed : String → List Datum → Prop) (program : Program) : Prop where
  /-- Those that the statements call. -/
  statements : ∀ t ∈ program.statements, t.IsSafe allowed
  /-- Those that the functions call. -/
  functions : ∀ f ∈ program.functions, f.body.IsSafe allowed

/-- The course of a safe program returns and makes allowed calls only. -/
theorem Program.course_holds {program : Program} {limits : Limits}
    (hlimit : limits.operations ≠ 0) (hbounded : program.Bounded)
    (hsafe : program.IsSafe allowed) (scope : List Slot) :
    (program.course limits scope).Holds allowed False fun _ => True := by
  let bodies := 4 * (program.size + 4)
  let env : Environment := { limits, functions := program.functions }
  have hsound : env.Sound allowed bodies := ⟨hlimit, hbounded.functions, hsafe.functions⟩
  have hfuel : bodies + (limits.callLevels - 0) * bodies ≤
      evaluationDepth limits program.size := by
    have hcommute : (limits.callLevels - 0) * bodies = bodies * limits.callLevels := by
      rw [Nat.sub_zero, Nat.mul_comm]
    have hdepth : evaluationDepth limits program.size =
        bodies * limits.callLevels + bodies * 2 := Nat.mul_add _ _ _
    omega
  have hstatements : ∀ t ∈ program.statements,
      (evaluate (evaluationDepth limits program.size) : Evaluator).Evaluates allowed env t :=
    fun t ht => evaluates_of_fuel hsound (hbounded.statements t ht) (hsafe.statements t ht) hfuel
  have hsteady := steady_sequence hstatements { scope } (Nat.zero_le _)
  exact hsteady.bind fun _ _ => trivial

/-- The course of a program returns, whatever its host replies. -/
theorem Program.course_returns {program : Program} {limits : Limits}
    (hlimit : limits.operations ≠ 0) (hbounded : program.Bounded) (scope : List Slot) :
    (program.course limits scope).Returns :=
  course_holds hlimit hbounded
    ⟨fun t _ => Term.isSafe_of_forall (fun _ _ => trivial) t,
      fun f _ => Term.isSafe_of_forall (fun _ _ => trivial) f.body⟩ scope

/-- Whether every call of `clamp` anywhere in a program has its bounds written
in order. -/
def Program.ordersBounds (program : Program) : Bool :=
  program.statements.all (Term.ordersWithin (4 * (program.size + 4))) &&
    program.functions.all fun f => f.body.ordersWithin (4 * (program.size + 4))

/-- The course of a program with bounds in order crosses none. -/
theorem Program.course_avoids {program : Program} {limits : Limits}
    (hlimit : limits.operations ≠ 0) (hbounded : program.Bounded)
    (h : program.ordersBounds = true) (scope : List Slot) :
    (program.course limits scope).Avoids Crossed := by
  obtain ⟨hstatements, hfunctions⟩ := Bool.and_eq_true_iff.mp h
  have hsafe : program.IsSafe fun name arguments => ¬Crossed name arguments :=
    ⟨fun t ht => Term.isSafe_of_ordersWithin (List.all_eq_true.mp hstatements t ht),
      fun f hf => Term.isSafe_of_ordersWithin (List.all_eq_true.mp hfunctions f hf)⟩
  exact (course_holds hlimit hbounded hsafe scope).imp (fun _ _ => id) False.elim fun _ => id

end ProcessDisplay.Script
