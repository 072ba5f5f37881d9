import Mathlib.Data.List.Nodup
import Mathlib.Tactic.Common
import ProcessDisplay.Proofs.NameIdentity
import ProcessDisplay.Proofs.RedrawFlag

/-!
# The ledger of triggers

Every unit is entered into a ledger when it is registered, with the names
that it declares as triggers and the variables that they stand for then. A
refused operation enters nothing, and a display that starts again begins a
new ledger. The trigger graph is read off the ledger: who depends on a
variable are the units that name it as a trigger, in the order of their
registration.
-/

namespace ProcessDisplay

/-- The expression of a formula. -/
def VariableName.expression? : VariableName → Option String
  | formula expression => some expression
  | _ => none

/-- The key of a formula spells the formula. -/
theorem VariableName.parse_formula_key {source : String} (h : IsKey ("=" ++ source)) :
    parse ("=" ++ source) = .ok (.formula source) := by
  obtain ⟨raw, name, hparse, hkey⟩ := h
  obtain rfl := eq_formula_of_key hkey
  rw [← trim_eq_key_of_formula hparse, parse_eq_ok_iff, Text.toList_trim, Text.trimmed_trimmed]
  exact parse_eq_ok_iff.mp hparse

/-- The names of the parameters of the formula that a name spells. -/
def FormulaCompiler.parametersOf (C : FormulaCompiler) (name : String) : List String :=
  (((VariableName.parse name).toOption.bind VariableName.expression?).bind
    fun source => (C.compile source).toOption).elim [] C.parameters

/-- The key of a formula that is compiled has the parameters of the formula. -/
theorem FormulaCompiler.parametersOf_key {C : FormulaCompiler} {source : String}
    {formula : C.Formula} (hkey : VariableName.IsKey ("=" ++ source))
    (hcompiled : C.compile source = .ok formula) :
    C.parametersOf ("=" ++ source) = C.parameters formula := by
  have hcompile : (C.compile source).toOption = some formula := by
    rw [hcompiled]
    rfl
  simp only [parametersOf, VariableName.parse_formula_key hkey, Except.toOption, Option.bind_some,
    VariableName.expression?]
  simp only [Except.toOption] at hcompile
  simp only [hcompile, Option.elim_some]

namespace Engine

variable {C : FormulaCompiler} {R : ScriptInterpreter}

/-- A unit as it was registered. -/
structure Enrolment where
  /-- The unit. -/
  unit : UnitRef
  /-- The names of its triggers, each with the variable that it stood for. -/
  triggers : List (String × Option VariableId)
  deriving DecidableEq, Repr

/-- Whether a variable is one of the triggers of a unit. -/
def Enrolment.isTriggeredBy (r : Enrolment) (p : VariableId) : Bool :=
  r.triggers.any fun trigger => decide (trigger.2 = some p)

theorem Enrolment.isTriggeredBy_iff {r : Enrolment} {p : VariableId} :
    r.isTriggeredBy p = true ↔ ∃ name, (name, some p) ∈ r.triggers := by
  rw [isTriggeredBy, List.any_eq_true]
  constructor
  · rintro ⟨⟨name, found⟩, htrigger, hp⟩
    obtain rfl : found = some p := of_decide_eq_true hp
    exact ⟨name, htrigger⟩
  · rintro ⟨name, htrigger⟩
    exact ⟨_, htrigger, decide_eq_true rfl⟩

/-- The names of the inputs that are triggers. -/
def triggerNames (inputs : List Input) : List String :=
  (inputs.filter Input.isTrigger).map Input.name

/-- The triggers among located inputs are located. -/
theorem located_triggers {s : State C} {inputs : List Input} {ids : List VariableId}
    (h : List.Forall₂ (fun name id => s.located name = some id) (inputs.map Input.name) ids) :
    List.Forall₂ (fun name id => s.located name = some id) (triggerNames inputs)
      (triggersOf inputs ids) := by
  induction inputs generalizing ids with
  | nil => exact .nil
  | cons input rest ih =>
    cases h with
    | @cons _ id _ others hfirst hrest =>
      have htail := ih hrest
      unfold triggerNames triggersOf at htail ⊢
      rw [List.zip_cons_cons]
      cases htrigger : input.isTrigger with
      | true =>
        rw [List.filter_cons_of_pos htrigger,
          List.filterMap_cons_some (b := id) (by simp [htrigger]), List.map_cons]
        exact .cons hfirst htail
      | false =>
        rw [List.filter_cons_of_neg (by simp [htrigger]),
          List.filterMap_cons_none (by simp [htrigger])]
        exact htail

namespace State

/-- A unit whose triggers have some names, with the variables that the names
stand for. -/
def enrol (s : State C) (unit : UnitRef) (names : List String) : Enrolment :=
  ⟨unit, names.map fun name => (name, s.located name)⟩

/-- The name of the variable of a formula. -/
def formulaName? (s : State C) (id : Nat) : Option String :=
  (s.formulas[id]?.bind fun unit => s.vars[unit.variableId]?).map Variable.name

/-- The name of the variable that a formula computes. -/
theorem formulaName?_of_some {s : State C} {id : Nat} {unit : FormulaUnit C} {v : Variable}
    (hunit : s.formulas[id]? = some unit) (hv : s.vars[unit.variableId]? = some v) :
    s.formulaName? id = some v.name := by
  simp [formulaName?, hunit, hv]

/-- A formula, all of whose parameters are triggers. -/
def enrolFormula (s : State C) (id : Nat) : Enrolment :=
  s.enrol (.formula id) ((s.formulaName? id).elim [] C.parametersOf)

/-- The formulas that were created since there were so many. -/
def enrolSince (s : State C) (n : Nat) : List Enrolment :=
  (List.range' n (s.formulas.length - n)).map s.enrolFormula

/-- No formula is new if there are as many as before. -/
theorem enrolSince_eq_nil {s : State C} {n : Nat} (h : s.formulas.length = n) :
    s.enrolSince n = [] := by
  rw [enrolSince, h, Nat.sub_self]
  rfl

/-- Names that are located make their variables triggers, and no others. -/
theorem isTriggeredBy_enrol {s : State C} {names : List String} {ids : List VariableId}
    (h : List.Forall₂ (fun name id => s.located name = some id) names ids) (unit : UnitRef)
    (p : VariableId) : (s.enrol unit names).isTriggeredBy p = true ↔ p ∈ ids := by
  unfold Enrolment.isTriggeredBy enrol
  induction h with
  | nil => simp
  | @cons name id _ _ hfirst _ ih =>
    rw [List.map_cons, List.any_cons, Bool.or_eq_true, ih, List.mem_cons, decide_eq_true_iff,
      hfirst, Option.some.injEq]
    exact or_congr_left eq_comm

/-- Names that are located stand for variables. -/
theorem located_enrol {s : State C} {names : List String} {ids : List VariableId}
    (h : List.Forall₂ (fun name id => s.located name = some id) names ids) (unit : UnitRef) :
    ∀ trigger ∈ (s.enrol unit names).triggers, trigger.2.isSome = true := by
  unfold enrol
  induction h with
  | nil => simp
  | cons hfirst _ ih =>
    rw [List.map_cons, List.forall_mem_cons]
    exact ⟨by rw [hfirst]; rfl, ih⟩

/-- The units and the edges are those that were there. -/
structure SameUnits (s s' : State C) : Prop where
  /-- The edges stay. -/
  triggers : s'.triggers = s.triggers
  /-- There are as many formulas. -/
  formulas : s'.formulas.length = s.formulas.length
  /-- There are as many rules. -/
  rules : s'.rules.length = s.rules.length
  /-- There are as many scripts. -/
  scripts : s'.scripts.length = s.scripts.length

/-- A change of contents leaves the units alone. -/
theorem SameShape.sameUnits {s s' : State C} (h : SameShape s s') : SameUnits s s' :=
  ⟨h.triggers, h.formulas_length, congrArg List.length h.rules, congrArg List.length h.scripts⟩

/-- The same units are registered. -/
theorem SameUnits.has {s s' : State C} (h : SameUnits s s') (u : UnitRef) :
    s'.Has u ↔ s.Has u := by
  cases u with
  | formula id => simp only [Has, h.formulas]
  | rule id => simp only [Has, h.rules]
  | script id => simp only [Has, h.scripts]

end State

/-- A ledger lists the registered units once each and explains all edges. -/
structure Keeps (ledger : List Enrolment) (s : State C) : Prop where
  /-- The units of the ledger are those that are registered. -/
  registered : ∀ u, s.Has u ↔ u ∈ ledger.map Enrolment.unit
  /-- No unit is entered twice. -/
  nodup : (ledger.map Enrolment.unit).Nodup
  /-- Every trigger stands for a variable. -/
  located : ∀ r ∈ ledger, ∀ trigger ∈ r.triggers, trigger.2.isSome = true
  /-- Who depends on a variable are the units that it triggers, in order. -/
  dependents : ∀ p, s.triggers.dependents p =
    (ledger.filter (·.isTriggeredBy p)).map Enrolment.unit

namespace Keeps

variable {ledger : List Enrolment} {s s' : State C}

/-- An empty ledger is that of a display that has just started. -/
theorem start (C : FormulaCompiler) (epoch : Time.Instant) : Keeps [] (State.start C epoch) := by
  refine ⟨?_, .nil, by simp, fun _ => rfl⟩
  intro u
  cases u <;> simp [State.Has, State.start]

/-- The ledger stays when the units stay. -/
theorem sameUnits (h : Keeps ledger s) (hsame : s.SameUnits s') : Keeps ledger s' := by
  refine ⟨?_, h.nodup, h.located, ?_⟩
  · intro u
    rw [hsame.has, h.registered]
  · intro p
    rw [hsame.triggers, h.dependents]

/-- One more unit, connected to the variables of its triggers. -/
theorem add (h : Keeps ledger s) {r : Enrolment} {sources : List VariableId}
    (hnew : ¬s.Has r.unit) (hhas : ∀ u, s'.Has u ↔ s.Has u ∨ u = r.unit)
    (hconnected : s'.triggers = State.connect s.triggers sources r.unit)
    (htriggers : ∀ p, r.isTriggeredBy p = true ↔ p ∈ sources)
    (hlocated : ∀ trigger ∈ r.triggers, trigger.2.isSome = true) : Keeps (ledger ++ [r]) s' := by
  have hunit : r.unit ∉ ledger.map Enrolment.unit := fun hin => hnew ((h.registered _).mpr hin)
  refine ⟨?_, ?_, ?_, ?_⟩
  · intro u
    rw [hhas, h.registered, List.map_append, List.mem_append, List.map_singleton,
      List.mem_singleton]
  · rw [List.map_append, List.map_singleton, ← List.concat_eq_append]
    exact h.nodup.concat hunit
  · intro entry hentry
    rcases List.mem_append.mp hentry with hold | hlast
    · exact h.located entry hold
    · rw [List.mem_singleton.mp hlast]
      exact hlocated
  · intro p
    have hnone : (p, r.unit) ∉ s.triggers.edges := by
      intro hedge
      rw [← TriggerGraph.mem_dependents, h.dependents] at hedge
      obtain ⟨entry, hentry, he⟩ := List.mem_map.mp hedge
      exact hunit (he ▸ List.mem_map_of_mem (List.mem_filter.mp hentry).1)
    rw [hconnected, State.dependents_connect, h.dependents, List.filter_append, List.map_append]
    congr 1
    by_cases hp : p ∈ sources
    · simp [hp, hnone, (htriggers p).mpr hp]
    · have hnot : r.isTriggeredBy p = false :=
        Bool.eq_false_iff.mpr fun hin => hp ((htriggers p).mp hin)
      simp [hp, hnot]

end Keeps

/-- What a small construction does to units and edges: nothing, or it adds one
formula with the edges from its parameters. -/
theorem ConstructionStep.units_cases {e e' : Engine C R} (h : ConstructionStep e e') :
    e.state.SameUnits e'.state ∨
    ∃ source formula parameters, VariableName.IsKey ("=" ++ source) ∧
      C.compile source = .ok formula ∧
      List.Forall₂ (fun name id => e.state.located name = some id) (C.parameters formula)
        parameters ∧
      e'.state.formulaName? e.state.formulas.length = some ("=" ++ source) ∧
      e'.state.formulas.length = e.state.formulas.length + 1 ∧
      e'.state.triggers =
        State.connect e.state.triggers parameters (.formula e.state.formulas.length) ∧
      ∀ u, e'.state.Has u ↔ e.state.Has u ∨ u = .formula e.state.formulas.length := by
  cases h with
  | @createLocal key hkey hfree initializer =>
    refine Or.inl ?_
    rw [withState, State.createLocal_eq]
    cases initializer <;> exact ⟨rfl, rfl, rfl, rfl⟩
  | redeclare hfound initializer =>
    exact Or.inl (e.state.sameShape_redeclare _ initializer).sameUnits
  | attach hkey hfree generator => exact Or.inl ⟨rfl, rfl, rfl, rfl⟩
  | @createFormula e₁ source formula parameters changed hkey hfree hcompiled hlocated heval =>
    obtain ⟨f, w, errors, hdone, rfl⟩ := evaluateFormula_inserted heval
    have hname : w.name = "=" ++ source := hdone.becomes.name
    refine Or.inr ⟨source, formula, parameters, hkey, hcompiled, hlocated, ?_⟩
    have hlast : ((e.state.insertVariable w).addFormula
        { variableId := e.state.nextId, parameters, formula := f }).formulaName?
          e.state.formulas.length = some ("=" ++ source) := by
      simp [State.formulaName?, State.addFormula, State.insertVariable, State.nextId, hname]
    have hhas : ∀ u, ((e.state.insertVariable w).addFormula
        { variableId := e.state.nextId, parameters, formula := f }).Has u ↔
          e.state.Has u ∨ u = .formula e.state.formulas.length := by
      intro u
      rw [State.has_addFormula, State.has_insertVariable]
      exact Iff.rfl
    -- whether the variable becomes pending touches neither units nor edges
    cases changed <;> exact ⟨hlast, List.length_append, rfl, hhas⟩

/-- A construction leaves the formulas that were there with their names. -/
theorem Construction.formulaName?_eq {e e' : Engine C R} (h : Construction e e')
    (hs : e.state.WellFormed) {id : Nat} (hid : id < e.state.formulas.length) :
    e'.state.formulaName? id = e.state.formulaName? id := by
  obtain ⟨declared, -, hextends⟩ := h.extends hs
  have hshape := e.state.sameShape_redeclareAll declared
  obtain ⟨more, hmore⟩ := hextends.formulas
  have hid' : id < (e.state.redeclareAll declared).formulas.length := by
    rw [hshape.formulas_length]
    exact hid
  have hunit' := List.getElem?_eq_getElem hid'
  obtain ⟨unit, hunit, hvariable, -⟩ := hshape.formula hunit'
  obtain ⟨v, hv, -⟩ := (hs.formulas.mem_iff unit.variableId).mp
    (List.mem_map_of_mem (List.mem_of_getElem? hunit))
  obtain ⟨w, hw, hbecomes, -⟩ := hshape.moves _ v hv
  have hkept : e'.state.formulas[id]? = some (e.state.redeclareAll declared).formulas[id] := by
    rw [← hmore, List.getElem?_append_left hid', hunit']
  rw [← hvariable] at hw
  have hw' := (hextends.getElem?_vars (List.getElem?_eq_some_iff.mp hw).1).trans hw
  rw [State.formulaName?_of_some hunit hv, ← hbecomes.name]
  exact State.formulaName?_of_some hkept hw'

/-- A formula that was entered is entered in the same way after more constructions. -/
theorem ConstructionStep.enrolFormula_eq {e e' : Engine C R} (h : ConstructionStep e e')
    (hs : e.state.WellFormed) {id : Nat} (hid : id < e.state.formulas.length)
    (hlocated : ∀ trigger ∈ (e.state.enrolFormula id).triggers, trigger.2.isSome = true) :
    e'.state.enrolFormula id = e.state.enrolFormula id := by
  have hname := Construction.formulaName?_eq (.single h) hs hid
  unfold State.enrolFormula State.enrol at hlocated ⊢
  rw [hname]
  congr 1
  refine List.map_congr_left fun name hin => ?_
  have hsome : (e.state.located name).isSome = true := hlocated _ (List.mem_map_of_mem hin)
  obtain ⟨place, hplace⟩ := Option.isSome_iff_exists.mp hsome
  rw [h.located hplace, hplace]

/-- A small construction enters the formula that it creates, if it creates one. -/
theorem ConstructionStep.keeps {e e' : Engine C R} (h : ConstructionStep e e')
    (hs : e.state.WellFormed) {ledger : List Enrolment} {n : Nat}
    (hn : n ≤ e.state.formulas.length) (hkeeps : Keeps (ledger ++ e.state.enrolSince n) e.state) :
    n ≤ e'.state.formulas.length ∧ Keeps (ledger ++ e'.state.enrolSince n) e'.state := by
  have hold : ∀ id ∈ List.range' n (e.state.formulas.length - n),
      e'.state.enrolFormula id = e.state.enrolFormula id := by
    intro id hid
    have hlt : id < e.state.formulas.length := by
      have hrange := List.mem_range'_1.mp hid
      omega
    refine h.enrolFormula_eq hs hlt (hkeeps.located _ (List.mem_append_right _ ?_))
    exact List.mem_map_of_mem hid
  rcases h.units_cases with hsame | ⟨source, formula, parameters, hkey, hcompiled, hlocated,
    hname, hlength, hconnected, hhas⟩
  · refine ⟨by rw [hsame.formulas]; exact hn, ?_⟩
    have hsince : e'.state.enrolSince n = e.state.enrolSince n := by
      rw [State.enrolSince, State.enrolSince, hsame.formulas]
      exact List.map_congr_left hold
    rw [hsince]
    exact hkeeps.sameUnits hsame
  · refine ⟨by omega, ?_⟩
    have hsince : e'.state.enrolSince n =
        e.state.enrolSince n ++ [e'.state.enrolFormula e.state.formulas.length] := by
      have hcount : e'.state.formulas.length - n = e.state.formulas.length - n + 1 := by omega
      have hlast : n + 1 * (e.state.formulas.length - n) = e.state.formulas.length := by omega
      rw [State.enrolSince, State.enrolSince, hcount, List.range'_concat, List.map_append,
        List.map_congr_left hold, hlast]
      rfl
    have hplaces : List.Forall₂ (fun name id => e'.state.located name = some id)
        (C.parameters formula) parameters := hlocated.imp fun _ _ => h.located
    have hentry : e'.state.enrolFormula e.state.formulas.length =
        e'.state.enrol (.formula e.state.formulas.length) (C.parameters formula) := by
      rw [State.enrolFormula, hname, Option.elim_some,
        FormulaCompiler.parametersOf_key hkey hcompiled]
    rw [hsince, ← List.append_assoc, hentry]
    refine hkeeps.add ?_ hhas hconnected (State.isTriggeredBy_enrol hplaces _)
      (State.located_enrol hplaces _)
    exact Nat.lt_irrefl _

/-- A construction enters the formulas that it creates, in order. -/
theorem Construction.keeps {e e' : Engine C R} (h : Construction e e') (hs : e.state.WellFormed)
    {ledger : List Enrolment} (hkeeps : Keeps ledger e.state) :
    Keeps (ledger ++ e'.state.enrolSince e.state.formulas.length) e'.state := by
  have hchain : e.state.formulas.length ≤ e'.state.formulas.length ∧
      Keeps (ledger ++ e'.state.enrolSince e.state.formulas.length) e'.state := by
    induction h with
    | refl =>
      rw [State.enrolSince_eq_nil rfl, List.append_nil]
      exact ⟨Nat.le_refl _, hkeeps⟩
    | tail hchain hstep ih =>
      exact hstep.keeps (Construction.wellFormed hchain hs) ih.1 ih.2
  exact hchain.2

/-- The rule or script that a passage registered. -/
def Passage.enrolled (p : Passage C R) : List Enrolment :=
  match p.operation, p.answer with
  | .addRule _ d, .position (.ok id) =>
    [p.after.engine.state.enrol (.rule id) (triggerNames d.inputs)]
  | .addScript _ d, .position (.ok id) =>
    [p.after.engine.state.enrol (.script id) (triggerNames d.inputs)]
  | _, _ => []

/-- The ledger after a passage: the formulas that it created and then the rule
or script that it registered are entered, and a new display begins a new ledger. -/
def Passage.enter (ledger : List Enrolment) (p : Passage C R) : List Enrolment :=
  if p.operation.isReset then []
  else
    ledger ++ p.after.engine.state.enrolSince p.before.engine.state.formulas.length ++ p.enrolled

/-- The ledger of a trail from the start of a display. -/
def ledgerOf (trail : List (Passage C R)) : List Enrolment := trail.foldl Passage.enter []

/-- A passage that creates no formula and registers no rule or script enters nothing. -/
theorem Passage.enter_eq_self {ledger : List Enrolment} {p : Passage C R}
    (hreset : p.operation.isReset = false)
    (hformulas : p.after.engine.state.formulas.length = p.before.engine.state.formulas.length)
    (henrolled : p.enrolled = []) : p.enter ledger = ledger := by
  simp [Passage.enter, hreset, State.enrolSince_eq_nil hformulas, henrolled]

/-- A refused operation does not start the display again and registers nothing. -/
theorem enrolled_of_refused {s s' : Stage C R} {operation : Operation} {answer : Answer}
    (h : operation.IsRefused answer) : operation.isReset = false ∧
      Passage.enrolled ⟨s, operation, answer, s'⟩ = [] := by
  cases operation with
  | addRule widget d =>
    cases answer with
    | position result =>
      cases result with
      | ok id => exact h.elim
      | error failure => exact ⟨rfl, rfl⟩
    | _ => exact ⟨rfl, rfl⟩
  | addScript widget d =>
    cases answer with
    | position result =>
      cases result with
      | ok id => exact h.elim
      | error failure => exact ⟨rfl, rfl⟩
    | _ => exact ⟨rfl, rfl⟩
  | reset epoch => exact h.elim
  | _ => exact ⟨rfl, rfl⟩

/-- Operations that reach no unit do not start the display again and register nothing. -/
theorem enrolled_of_aside {s s' : Stage C R} {operation : Operation} {answer : Answer}
    (h : operation.isAside = true) : operation.isReset = false ∧
      Passage.enrolled ⟨s, operation, answer, s'⟩ = [] := by
  cases operation with
  | assign widget property value => exact ⟨rfl, rfl⟩
  | editTrace trace edit => exact ⟨rfl, rfl⟩
  | takeErrors => exact ⟨rfl, rfl⟩
  | takeMessages => exact ⟨rfl, rfl⟩
  | _ => cases h

/-- Every operation keeps the ledger. -/
theorem Transition.keeps {s s' : Stage C R} {operation : Operation} {answer : Answer}
    (h : Transition s (operation, answer) s') (hs : s.engine.state.WellFormed)
    {ledger : List Enrolment} (hkeeps : Keeps ledger s.engine.state) :
    Keeps (Passage.enter ledger ⟨s, operation, answer, s'⟩) s'.engine.state := by
  have hquiet : operation.isReset = false ∧ Passage.enrolled ⟨s, operation, answer, s'⟩ = [] →
      s.engine.state.SameUnits s'.engine.state →
        Keeps (Passage.enter ledger ⟨s, operation, answer, s'⟩) s'.engine.state := by
    intro hnothing hsame
    rw [Passage.enter_eq_self hnothing.1 hsame.formulas hnothing.2]
    exact hkeeps.sameUnits hsame
  cases h with
  | @refused _ _ declared memory hrefused hdeclares hmemory =>
    have hshape := s.engine.state.sameShape_redeclareAll declared
    exact hquiet (enrolled_of_refused hrefused)
      ⟨hshape.sameUnits.triggers, hshape.sameUnits.formulas, hshape.sameUnits.rules,
        hshape.sameUnits.scripts⟩
  | created h hlocated =>
    have hconstructed := h.keeps hs hkeeps
    rw [← List.append_nil (ledger ++ _)] at hconstructed
    exact hconstructed
  | attached hfree => exact hquiet ⟨rfl, rfl⟩ ⟨rfl, rfl, rfl, rfl⟩
  | written hwrite =>
    obtain ⟨v, -, -, rfl⟩ := State.write_eq_ok_iff.mp hwrite
    exact hquiet ⟨rfl, rfl⟩ ⟨rfl, rfl, rfl, rfl⟩
  | @ruled widget d rule inputs e₁ hcompiled h hlocated =>
    have hplaces := located_triggers hlocated
    exact (h.keeps hs hkeeps).add (Nat.lt_irrefl _) (fun _ => State.has_addRule) rfl
      (State.isTriggeredBy_enrol hplaces _) (State.located_enrol hplaces _)
  | @scripted widget d inputs e₁ h hlocated =>
    have hplaces := located_triggers hlocated
    exact (h.keeps hs hkeeps).add (Nat.lt_irrefl _) (fun _ => State.has_addScript) rfl
      (State.isTriggeredBy_enrol hplaces _) (State.located_enrol hplaces _)
  | @traced request ids e₁ h hlocated =>
    have hsame : e₁.state.SameUnits (e₁.state.addTrace
        { vertical := ids.headD invalidId, horizontal := ids.tail.head?
          buffer := Trace.Buffer.empty request.settings }) := ⟨rfl, rfl, rfl, rfl⟩
    have hconstructed := (h.keeps hs hkeeps).sameUnits hsame
    rw [← List.append_nil (ledger ++ _)] at hconstructed
    exact hconstructed
  | ticked h =>
    obtain ⟨p, hticked⟩ := ticked_of_tick hs h
    refine hquiet ⟨rfl, rfl⟩ ⟨hticked.triggers, ?_, by rw [hticked.rules], by rw [hticked.scripts]⟩
    rw [hticked.runs.untouched]
    exact hticked.prepares.shape.formulas_length
  | reset => exact .start C _
  | aside hkind hsettings hmemory hstate htraces =>
    refine hquiet (enrolled_of_aside hkind) ?_
    rw [hstate]
    exact ⟨rfl, rfl, rfl, rfl⟩

/-- The ledger of a run continues a ledger that was kept. -/
theorem run_keeps {j : Journal} {s s' : Stage C R} {operations : List Operation}
    {answers : List Answer} (h : Session C R j s) (hrun : s.run operations = .done (answers, s'))
    {ledger : List Enrolment} (hkeeps : Keeps ledger s.engine.state) :
    Keeps ((s.trail operations).foldl Passage.enter ledger) s'.engine.state := by
  induction operations generalizing j s answers ledger with
  | nil =>
    obtain ⟨-, rfl⟩ := run_nil_eq_done_iff.mp hrun
    exact hkeeps
  | cons operation rest ih =>
    obtain ⟨answer, s₁, more, hfirst, hrest, -⟩ := run_cons_eq_done_iff.mp hrun
    rw [trail_cons hfirst, List.foldl_cons]
    exact ih (h.step hfirst) hrest
      ((transition_of_perform h.wellFormed hfirst).keeps h.wellFormed hkeeps)

/-- The trigger graph is exactly what a ledger says. -/
structure Exact (ledger : List Enrolment) (e : Engine C R) : Prop where
  /-- The units of the ledger are those that are registered. -/
  registered : ∀ u, e.state.Has u ↔ ∃ r ∈ ledger, r.unit = u
  /-- Every unit is entered once. -/
  once : (ledger.map Enrolment.unit).Nodup
  /-- Every declared trigger stands for a variable of the display. -/
  located : ∀ r ∈ ledger, ∀ trigger ∈ r.triggers,
    ∃ p, trigger.2 = some p ∧ p < e.state.vars.length
  /-- There is an edge from a variable to a unit if and only if the unit is
  registered and the variable is one of its declared triggers. -/
  edges : ∀ p u, (p, u) ∈ e.state.triggers.edges ↔
    ∃ r ∈ ledger, r.unit = u ∧ ∃ name, (name, some p) ∈ r.triggers
  /-- No edge occurs twice. -/
  nodup : e.state.triggers.edges.Nodup
  /-- The dependents of a name that is found are the units that its variable
  triggers, in the order of registration. -/
  dependents : ∀ name p, e.state.find name = some p →
    e.dependents name = (ledger.filter (·.isTriggeredBy p)).map Enrolment.unit
  /-- A name that is not found has no dependents. -/
  unfound : ∀ name, e.state.find name = none → e.dependents name = []

/-- A ledger that was kept says exactly what the trigger graph is. -/
theorem Keeps.exact {ledger : List Enrolment} {e : Engine C R} (h : Keeps ledger e.state)
    (hs : e.state.WellFormed) : Exact ledger e := by
  have hedges : ∀ p u, (p, u) ∈ e.state.triggers.edges ↔
      ∃ r ∈ ledger, r.unit = u ∧ ∃ name, (name, some p) ∈ r.triggers := by
    intro p u
    rw [← TriggerGraph.mem_dependents, h.dependents, List.mem_map]
    constructor
    · rintro ⟨r, hr, hunit⟩
      obtain ⟨hin, htriggers⟩ := List.mem_filter.mp hr
      exact ⟨r, hin, hunit, Enrolment.isTriggeredBy_iff.mp htriggers⟩
    · rintro ⟨r, hin, hunit, htriggers⟩
      exact ⟨r, List.mem_filter.mpr ⟨hin, Enrolment.isTriggeredBy_iff.mpr htriggers⟩, hunit⟩
  constructor
  case registered =>
    intro u
    rw [h.registered, List.mem_map]
  case once => exact h.nodup
  case located =>
    rintro r hr ⟨name, found⟩ htrigger
    obtain ⟨p, rfl⟩ := Option.isSome_iff_exists.mp (h.located r hr _ htrigger)
    exact ⟨p, rfl, (hs.ends _ ((hedges p r.unit).mpr ⟨r, hr, rfl, name, htrigger⟩)).1⟩
  case edges => exact hedges
  case nodup => exact hs.edges
  case dependents =>
    intro name p hfind
    rw [Engine.dependents, hfind]
    exact h.dependents p
  case unfound =>
    intro name hfind
    rw [Engine.dependents, hfind]

/-- In every state that is reached, through operations that succeed and
operations that are refused, the trigger graph is exactly what the ledger of
the run says. -/
theorem triggers_exact {settings : Settings} {epoch : Time.Instant} {panel : Panel}
    {operations : List Operation} {answers : List Answer} {s : Stage C R}
    (hrun : (Stage.mk (Engine.start C R settings epoch) panel).run operations =
      .done (answers, s)) :
    Exact (ledgerOf ((Stage.mk (Engine.start C R settings epoch) panel).trail operations))
      s.engine :=
  (run_keeps (.start settings epoch panel) hrun (.start C epoch)).exact
    (session_of_run hrun).wellFormed

/-- A rule that reads a variable twice, as a trigger in one spelling only. -/
def twofold : RuleDeclaration where
  name := "twofold"
  property := "seen"
  outputs := [⟨"true", "pv0"⟩]
  outputsAreExpressions := true
  inputs := [{ name := "loc://in", isTrigger := false }, { name := "loc://in(7)" }]

/-- A trace that is refused after a formula was created for it, and three units
that a variable triggers under different spellings. -/
def reusingRun : List Operation :=
  [hopelessTrace "='loc://in' + 1", .create "='loc://in(1)' + 'loc://in'", .addScript 0 doubling,
    .addRule 0 twofold]

/-- The formula that is created takes the position of the one that was given
up, and its variable has exactly the edges of the three units. -/
theorem triggers_exact_reusing : ∃ answers s,
    (bareStage [numberWidget]).run reusingRun = .done (answers, s) ∧
      Exact (ledgerOf ((bareStage [numberWidget]).trail reusingRun)) s.engine ∧
      s.engine.dependents "loc://in" = [.formula 0, .script 0, .rule 0] ∧
      s.engine.state.triggers.edgeCount = 3 := by
  obtain ⟨⟨answers, s⟩, hrun, hcheck⟩ := done_of_any
    (fun reached : List Answer × BundledStage =>
      decide (reached.2.engine.dependents "loc://in" = [.formula 0, .script 0, .rule 0]) &&
        decide (reached.2.engine.state.triggers.edgeCount = 3))
    (show ((bareStage [numberWidget]).run reusingRun).value?.any _ = true by decide +kernel)
  obtain ⟨hdependents, hcount⟩ := Bool.and_eq_true_iff.mp hcheck
  exact ⟨answers, s, hrun, triggers_exact (run_bareStage hrun), of_decide_eq_true hdependents,
    of_decide_eq_true hcount⟩

end Engine

end ProcessDisplay
