import ProcessDisplay.Proofs.EvaluationSafety
import ProcessDisplay.Proofs.OperationFaults
import ProcessDisplay.Proofs.SteadyRuns
import ProcessDisplay.Proofs.TermNames

/-!
# The variables that an expression looks up

An expression declares no variables, so the names in scope stay the same
while it is evaluated. It looks up the variables that its term names and no
others: a variable that is missed is named in the term and not in scope.
-/

namespace ProcessDisplay.Script

variable {α β : Type} {names : String → Prop}

/-- The names of the variables in scope. -/
def Machine.namesInScope (m : Machine) : List String := m.scope.map Slot.name

namespace Run

/-- An end of a run that keeps the names in scope; a variable that is missed is one
of some names and not in scope. -/
def Found (names : String → Prop) (m : Machine) (ended : Except Signal α × Machine) : Prop :=
  ended.2.namesInScope = m.namesInScope ∧
    ∀ s, ended.1 = .error (.fault (.unknownVariable s)) → names s ∧ s ∉ m.namesInScope

/-- A run keeps the names in scope, and a variable that it misses is one of some
names and not in scope. -/
def Searches (names : String → Prop) (r : Run α) : Prop :=
  ∀ m, (r m).Ensures (Found names m)

/-- A value. -/
theorem searches_pure {a : α} : Searches names (pure a : Run α) :=
  fun _ => ⟨rfl, fun _ h => by cases h⟩

/-- A fault other than that of an unknown variable. -/
theorem searches_fail {fault : Fault} (h : ∀ s, fault ≠ .unknownVariable s) :
    Searches names (fail fault : Run α) :=
  fun _ => ⟨rfl, fun s hs => absurd (Signal.fault.inj (Except.error.inj hs)) (h s)⟩

/-- A result that misses no variable. -/
theorem searches_lift {result : Except Fault α} (h : MissesNone result) :
    Searches names (lift result : Run α) := by
  cases result with
  | ok a => exact searches_pure
  | error fault => exact searches_fail fun s hs => h s (congrArg Except.error hs)

/-- A part and what follows it. -/
theorem Searches.bind {first : Run α} {next : α → Run β} (hfirst : Searches names first)
    (hnext : ∀ a, Searches names (next a)) : Searches names (first >>= next) := by
  intro m
  rw [bind_apply]
  refine (hfirst m).bind fun ended hended => ?_
  obtain ⟨hnames, hmisses⟩ := hended
  rcases ended with ⟨signal | a, m₁⟩
  · exact ⟨hnames, fun s hs => hmisses s (congrArg Except.error (Except.error.inj hs))⟩
  · refine (hnext a m₁).weaken fun last hlast => ⟨hlast.1.trans hnames, fun s hs => ?_⟩
    rw [← hnames]
    exact hlast.2 s hs

/-- A run whose result is dropped. -/
theorem Searches.discard {r : Run α} (h : Searches names r) : Searches names (discard r) := by
  have hbind : Functor.discard r = r >>= fun _ => pure () := by
    rw [bind_pure_comp]
    rfl
  rw [hbind]
  exact h.bind fun _ => searches_pure

/-- Variables that are dropped in the end, where none are added. -/
theorem Searches.enclosed {r : Run α} (h : Searches names r) : Searches names (enclosed r) := by
  intro m
  refine (h m).bind fun ended hended => ?_
  obtain ⟨hnames, hmisses⟩ := hended
  have hlength : ended.2.scope.length = m.scope.length := by
    simpa only [Machine.namesInScope, List.length_map] using congrArg List.length hnames
  refine ⟨?_, hmisses⟩
  change (ended.2.scope.drop (ended.2.scope.length - m.scope.length)).map Slot.name = _
  rw [hlength, Nat.sub_self, List.drop_zero]
  exact hnames

/-- An operation. -/
theorem searches_charge {limits : Limits} : Searches names (charge limits : Run Unit) := by
  intro m
  rw [charge_apply]
  refine ⟨rfl, fun s hs => ?_⟩
  split at hs
  · cases hs
  · cases hs

/-- The variable of one of the names. -/
theorem searches_slot {name : String} (h : names name) :
    Searches names (slot name : Run Slot) := by
  intro m
  have hget : (get : Run Machine) m = .ends (.ok m, m) := rfl
  rw [slot, bind_apply, hget, Course.ends_bind]
  dsimp only [continued]
  cases hfound : m.scope.find? fun s => s.name = name with
  | some s => exact ⟨rfl, fun _ hs => by cases hs⟩
  | none =>
    refine ⟨rfl, fun s hs => ?_⟩
    obtain rfl := Fault.unknownVariable.inj (Signal.fault.inj (Except.error.inj hs))
    refine ⟨h, fun hmem => ?_⟩
    obtain ⟨slot, hslot, hname⟩ := List.mem_map.mp hmem
    simpa [hname] using List.find?_eq_none.mp hfound slot hslot

/-- A new value for a variable keeps its name. -/
theorem map_name_assigned (name : String) (value : Datum) (scope : List Slot) :
    (assigned name value scope).map Slot.name = scope.map Slot.name := by
  induction scope with
  | nil => rfl
  | cons s rest ih =>
    rw [assigned]
    split
    · rfl
    · rw [List.map_cons, ih, List.map_cons]

/-- A new value for a variable of one of the names. -/
theorem searches_store {name : String} {value : Datum} (h : names name) :
    Searches names (store name value : Run Unit) := by
  refine (searches_slot h).bind fun s => ?_
  extract_lets assigned
  have hassigned : ∀ u, Searches names (assigned u) :=
    fun _ m => ⟨map_name_assigned name value m.scope, fun _ hs => by cases hs⟩
  split
  · exact (searches_fail (by simp)).bind hassigned
  · exact hassigned ()

/-- A call of the host. -/
theorem searches_ask {name : String} {arguments : List Datum} :
    Searches names (ask name arguments) := by
  intro m
  refine ⟨trivial, fun reply => ?_⟩
  rcases reply with _ | text | d
  · exact ⟨rfl, fun _ hs => by cases hs⟩
  · exact ⟨rfl, fun _ hs => by cases hs⟩
  · exact ⟨rfl, fun _ hs => by cases hs⟩

end Run

open Run

/-- The evaluations of terms over some names search only for them, where there
are no functions of a script. -/
def Evaluator.Searches (self : Evaluator) (names : String → Prop) : Prop :=
  ∀ env t, env.functions = [] → t.Over names → Run.Searches names (self env t)

variable {self : Evaluator} {env : Environment}

/-- A datum that the limits may refuse. -/
theorem searches_sizedDatum {result : Except Fault Datum} (h : MissesNone result) :
    Run.Searches names (sizedDatum env result) :=
  (searches_lift h).bind fun _ => searches_lift missesNone_checkSize

/-- A call of a function of the host or the language. -/
theorem searches_callNative {name : String} {arguments : List Datum} :
    Run.Searches names (callNative env name arguments) := by
  refine searches_charge.bind fun _ => searches_ask.bind fun answered => ?_
  split
  · exact searches_pure
  · split
    · next result hcall => exact searches_lift (Library.missesNone_call hcall)
    · exact searches_fail (by simp)

/-- A call of a function by its name. -/
theorem searches_callNamed (hfunctions : env.functions = []) {name : String}
    {arguments : List Datum} : Run.Searches names (callNamed self env name arguments) := by
  rw [callNamed, hfunctions]
  exact searches_callNative

/-- A function applied to a datum. -/
theorem searches_applyMethod (hfunctions : env.functions = []) {d : Datum} {name : String}
    {arguments : List Datum} : Run.Searches names (applyMethod self env d name arguments) := by
  unfold applyMethod
  split
  · exact searches_charge.bind fun _ => (searches_sizedDatum missesNone_ok).bind fun _ =>
      searches_pure
  · exact (searches_callNamed hfunctions).bind fun _ => searches_pure

/-- The part that accesses lead to. -/
theorem searches_follow (hfunctions : env.functions = []) (d : Datum)
    (steps : List (Access Datum)) : Run.Searches names (follow self env d steps) := by
  induction steps generalizing d with
  | nil => exact searches_pure
  | cons step rest ih =>
    cases step with
    | index position =>
      refine (searches_lift missesNone_partAt).bind fun part => (ih part).bind fun found => ?_
      split
      split
      · exact (searches_lift missesNone_withPartAt).bind fun _ => searches_pure
      · exact searches_pure
    | property name =>
      refine (searches_lift missesNone_propertyOf).bind fun part => (ih part).bind fun found => ?_
      split
      split
      · exact (searches_lift missesNone_withProperty).bind fun _ => searches_pure
      · exact searches_pure
    | method name arguments =>
      refine (searches_applyMethod hfunctions).bind fun found => ?_
      split
      exact (ih _).bind fun _ => searches_pure

/-- A datum with a part replaced. -/
theorem searches_replacePart (hfunctions : env.functions = []) {new : Datum → Run Datum}
    (hnew : ∀ d, Run.Searches names (new d)) (d : Datum) (steps : List (Access Datum)) :
    Run.Searches names (replacePart self env new d steps) := by
  induction steps generalizing d with
  | nil => exact hnew d
  | cons step rest ih =>
    cases step with
    | index position =>
      exact (searches_lift missesNone_partAt).bind fun part => (ih part).bind fun _ =>
        searches_lift missesNone_withPartAt
    | property name =>
      exact (searches_lift missesNone_propertyOf).bind fun part => (ih part).bind fun _ =>
        searches_lift missesNone_withProperty
    | method name arguments =>
      refine (searches_applyMethod hfunctions).bind fun found => ?_
      split
      exact (ih _).discard.bind fun _ => searches_pure

/-- The new value of an assignment. -/
theorem searches_newValue {op : Option Operator} {value old : Datum} :
    Run.Searches names (newValue env op value old) := by
  unfold newValue
  split
  · exact searches_pure
  · exact searches_sizedDatum missesNone_accumulate

section Terms

variable (hself : self.Searches names) (hfunctions : env.functions = [])

include hself hfunctions

/-- A condition. -/
theorem searches_condition {t : Term} (ht : t.Over names) :
    Run.Searches names (condition self env t) := by
  refine (hself env t hfunctions ht).bind fun d => ?_
  split
  · exact searches_pure
  · exact searches_fail (by simp)

/-- The values of terms. -/
theorem searches_values (ts : List Term) (hts : ∀ t ∈ ts, t.Over names) :
    Run.Searches names (values self env ts) := by
  induction ts with
  | nil => exact searches_pure
  | cons first rest ih =>
    obtain ⟨hfirst, hrest⟩ := List.forall_mem_cons.mp hts
    exact (hself env first hfunctions hfirst).bind fun _ => (ih hrest).bind fun _ => searches_pure

/-- The joined texts of terms. -/
theorem searches_joinedTexts (found : String) (ts : List Term) (hts : ∀ t ∈ ts, t.Over names) :
    Run.Searches names (joinedTexts self env found ts) := by
  induction ts generalizing found with
  | nil => exact searches_pure
  | cons first rest ih =>
    obtain ⟨hfirst, hrest⟩ := List.forall_mem_cons.mp hts
    refine (hself env first hfunctions hfirst).bind fun d => ?_
    refine (searches_sizedDatum missesNone_ok).bind fun joined => ?_
    split
    · exact ih _ hrest
    · exact searches_pure

/-- The entries of a map. -/
theorem searches_entryValues (found : List (String × Datum)) (entries : List (String × Term))
    (h : ∀ t ∈ entries.map Prod.snd, t.Over names) :
    Run.Searches names (entryValues self env found entries) := by
  induction entries generalizing found with
  | nil => exact searches_pure
  | cons entry rest ih =>
    obtain ⟨hfirst, hrest⟩ := List.forall_mem_cons.mp h
    exact (hself env entry.2 hfunctions hfirst).bind fun _ => ih _ hrest

/-- The values of statements. -/
theorem searches_sequence (ts : List Term) (hts : ∀ t ∈ ts, t.Over names) :
    Run.Searches names (sequence self env ts) := by
  induction ts with
  | nil => exact searches_pure
  | cons first rest ih =>
    obtain ⟨hfirst, hrest⟩ := List.forall_mem_cons.mp hts
    cases rest with
    | nil => exact hself env first hfunctions hfirst
    | cons second rest =>
      exact (hself env first hfunctions hfirst).discard.bind fun _ => ih hrest

/-- The terms inside an access. -/
theorem searches_accessValue (step : Access Term) (h : ∀ t ∈ step.terms, t.Over names) :
    Run.Searches names (accessValue self env step) := by
  cases step with
  | index position =>
    exact (hself env position hfunctions (h position List.mem_cons_self)).bind fun _ =>
      searches_pure
  | property name => exact searches_pure
  | method name arguments =>
    exact (searches_values hself hfunctions arguments h).bind fun _ => searches_pure

/-- The terms inside accesses. -/
theorem searches_accessValues (steps : List (Access Term))
    (h : ∀ t ∈ steps.flatMap Access.terms, t.Over names) :
    Run.Searches names (accessValues self env steps) := by
  induction steps with
  | nil => exact searches_pure
  | cons first rest ih =>
    rw [List.flatMap_cons] at h
    obtain ⟨hfirst, hrest⟩ := List.forall_mem_append.mp h
    exact (searches_accessValue hself hfunctions first hfirst).bind fun _ =>
      (ih hrest).bind fun _ => searches_pure

/-- The value of a chain. -/
theorem searches_chainValue {root : Term} {steps : List (Access Term)}
    (h : (Term.chain root steps).Over names) :
    Run.Searches names (chainValue self env root steps) := by
  obtain ⟨hroot, hsteps⟩ := List.forall_mem_cons.mp fun u hu => h.child hu
  refine (searches_accessValues hself hfunctions steps hsteps).bind fun found => ?_
  split
  · have hname := hroot.isPlain
    refine searches_charge.bind fun _ => (searches_slot hname).bind fun s => ?_
    refine (searches_follow hfunctions s.value found).bind fun result => ?_
    split
    extract_lets last
    split
    · exact (searches_store hname).bind fun _ => searches_pure
    · exact searches_pure
  · refine (hself env root hfunctions hroot).bind fun d => ?_
    exact (searches_follow hfunctions d found).bind fun _ => searches_pure

/-- An assignment. -/
theorem searches_assignTo {target value : Term} {op : Option Operator}
    (htarget : target.Over names) (hvalue : value.Over names) :
    Run.Searches names (assignTo self env target op value) := by
  refine (hself env value hfunctions hvalue).bind fun new => ?_
  extract_lets last
  have hlast : ∀ u, Run.Searches names (last u) := fun _ => searches_pure
  have hreplaced : ∀ d steps,
      Run.Searches names (replacePart self env (newValue env op new) d steps) :=
    searches_replacePart hfunctions fun _ => searches_newValue
  split
  · have hname := htarget.isPlain
    refine (searches_slot hname).bind fun s => searches_newValue.bind fun _ => ?_
    exact (searches_store hname).bind hlast
  · next root steps =>
    obtain ⟨hroot, hsteps⟩ := List.forall_mem_cons.mp fun u hu => htarget.child hu
    refine (searches_accessValues hself hfunctions steps hsteps).bind fun found => ?_
    split
    · have hname := hroot.isPlain
      refine (searches_slot hname).bind fun s => (hreplaced s.value found).bind fun _ => ?_
      exact (searches_sizedDatum missesNone_ok).bind fun _ => (searches_store hname).bind hlast
    · refine (hself env _ hfunctions hroot).bind fun d => ?_
      exact (hreplaced d found).discard.bind hlast
  · exact hlast ()

/-- A call by name. -/
theorem searches_callValue {name : String} {arguments : List Term}
    (h : ∀ t ∈ arguments, t.Over names) :
    Run.Searches names (callValue self env name arguments) := by
  unfold callValue
  split
  · next v rest =>
    obtain ⟨hfirst, hrest⟩ := List.forall_mem_cons.mp h
    have hname := hfirst.isPlain
    refine (searches_values hself hfunctions rest hrest).bind fun found => ?_
    refine (searches_slot hname).bind fun s => ?_
    refine (searches_applyMethod hfunctions).bind fun result => ?_
    split
    extract_lets last
    split
    · exact (searches_store hname).bind fun _ => searches_pure
    · exact searches_pure
  · exact (searches_values hself hfunctions _ h).bind fun _ => searches_callNamed hfunctions

/-- The result of the first case whose further condition holds. -/
theorem searches_firstCase (cases : List (Case Term))
    (h : ∀ c ∈ cases, ∀ t ∈ c.terms, t.Over names) :
    Run.Searches names (firstCase self env cases) := by
  induction cases with
  | nil => exact searches_pure
  | cons c rest ih =>
    obtain ⟨hfirst, hrest⟩ := List.forall_mem_cons.mp h
    obtain ⟨hguard, hresult⟩ := List.forall_mem_append.mp hfirst
    unfold firstCase
    extract_lets chosen
    have hchosen : ∀ holds, Run.Searches names (chosen holds) := by
      intro holds
      change Run.Searches names (if holds = true then _ else _)
      split
      · exact hself env c.result hfunctions (hresult c.result List.mem_cons_self)
      · exact ih hrest
    split
    · exact searches_pure.bind hchosen
    · next t ht =>
      refine (searches_condition hself hfunctions (hguard t ?_)).bind hchosen
      rw [ht]
      exact List.mem_cons_self

/-- What a term does, given what the terms inside it do. -/
theorem searches_evaluateWith {t : Term} (ht : t.Over names) :
    Run.Searches names (evaluateWith self env t) := by
  have hinside : ∀ u ∈ t.children, Run.Searches names (self env u) :=
    fun u hu => hself env u hfunctions (ht.child hu)
  have hcondition : ∀ u ∈ t.children, Run.Searches names (condition self env u) :=
    fun u hu => searches_condition hself hfunctions (ht.child hu)
  have hover : ∀ u ∈ t.children, u.Over names := fun u hu => ht.child hu
  have hfirst : ∀ {u : Term} {rest : List Term}, u ∈ u :: rest := List.mem_cons_self
  have hsecond : ∀ {u v : Term} {rest : List Term}, v ∈ u :: v :: rest :=
    List.mem_cons_of_mem _ List.mem_cons_self
  unfold evaluateWith
  extract_lets act
  have hact : ∀ u, Run.Searches names (act u) := by
    intro u
    cases t with
    | literal d => exact searches_pure
    | name name => exact (searches_slot ht.isPlain).bind fun _ => searches_pure
    | template parts =>
      exact (searches_joinedTexts hself hfunctions "" parts hover).bind fun _ => searches_pure
    | array items =>
      exact (searches_values hself hfunctions items hover).bind fun _ =>
        searches_sizedDatum missesNone_ok
    | map found =>
      exact (searches_entryValues hself hfunctions [] found hover).bind fun _ =>
        searches_sizedDatum missesNone_ok
    | binary op left right =>
      exact (hinside left hfirst).bind fun _ => (hinside right hsecond).bind fun _ =>
        searches_sizedDatum missesNone_operate
    | member negated item collection =>
      refine (hinside item hfirst).bind fun _ => (hinside collection hsecond).bind fun _ => ?_
      exact (searches_lift missesNone_contains).bind fun _ => searches_pure
    | both left right =>
      refine (hcondition left hfirst).bind fun holds => ?_
      split
      · exact (hcondition right hsecond).bind fun _ => searches_pure
      · exact searches_pure
    | either left right =>
      refine (hcondition left hfirst).bind fun holds => ?_
      split
      · exact searches_pure
      · exact (hcondition right hsecond).bind fun _ => searches_pure
    | orElse left right =>
      refine (hinside left hfirst).bind fun d => ?_
      split
      · exact hinside right hsecond
      · exact searches_pure
    | unary symbol inner =>
      exact (hinside inner hfirst).bind fun _ => searches_lift missesNone_signed
    | call name arguments => exact searches_callValue hself hfunctions hover
    | chain root steps => exact searches_chainValue hself hfunctions ht
    | statement body => exact hinside body hfirst
    | block statements => exact (searches_sequence hself hfunctions statements hover).enclosed
    | conditional test yes no =>
      refine (hcondition test hfirst).bind fun holds => ?_
      split
      · exact hinside yes hsecond
      · exact hinside no (List.mem_cons_of_mem _ hsecond)
    | select subject cases =>
      refine (hinside subject hfirst).bind fun d => ?_
      refine searches_firstCase hself hfunctions _ fun c hc t ht => ?_
      exact hover t (List.mem_cons_of_mem _ (List.mem_flatMap.mpr ⟨c, mem_candidates hc, ht⟩))
    | assign target op value =>
      exact searches_assignTo hself hfunctions (hover target hfirst) (hover value hsecond)
    | declare _ _ _ | whileLoop _ _ | doLoop _ _ _ | forLoop _ _ _ _ | leaveLoop _ | nextRound
    | giveBack _ | throw _ | guarded _ _ _ => exact ht.isPlain.elim
  split
  · exact searches_charge.bind hact
  · exact hact ()

end Terms

/-- The evaluations up to any bound of the nesting search for what they name. -/
theorem searches_evaluate (fuel : Nat) : (evaluate fuel : Evaluator).Searches names := by
  induction fuel with
  | zero => exact fun _ _ _ _ _ => trivial
  | succ fuel ih => exact fun env t hfunctions ht => searches_evaluateWith ih hfunctions ht

/-- An unknown variable is reported as it was missed. -/
theorem eq_of_outcome_unknownVariable {result : Except Signal Datum} {s : String}
    (h : outcome result = .error (.unknownVariable s)) :
    result = .error (.fault (.unknownVariable s)) := by
  rcases result with signal | d
  · cases signal with
    | fault f =>
      obtain rfl := Except.error.inj h
      rfl
    | _ => cases h
  · cases h

/-- In the evaluation of an expression over some names, the names in scope stay,
and an unknown variable is one of the names and not in scope. -/
theorem Program.course_searches {t : Term} {size : Nat} (ht : t.Over names) (limits : Limits)
    (scope : List Slot) :
    (Program.course ⟨[t], [], size⟩ limits scope).Ensures fun ended =>
      ended.2.map Slot.name = scope.map Slot.name ∧
        ∀ s, ended.1 = .error (.unknownVariable s) → names s ∧ s ∉ scope.map Slot.name := by
  have hself : (evaluate (evaluationDepth limits size)).Searches names := searches_evaluate _
  have hstatements : ∀ u ∈ [t], u.Over names := by
    intro u hu
    obtain rfl := List.mem_singleton.mp hu
    exact ht
  have hrun : Run.Searches names
      (sequence (evaluate (evaluationDepth limits size)) { limits, functions := [] } [t]) :=
    searches_sequence hself rfl [t] hstatements
  refine (hrun { scope }).bind fun ended hended => ⟨hended.1, fun s hs => ?_⟩
  exact hended.2 s (eq_of_outcome_unknownVariable hs)

end ProcessDisplay.Script
