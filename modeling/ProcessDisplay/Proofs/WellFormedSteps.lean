import Mathlib.Tactic.Common
import ProcessDisplay.Proofs.WellFormed

/-!
# Steps that keep registries well-formed

Every small construction, every registration and every write leaves a
well-formed registry. Where an item is added, its positions are in range and
its name was free; everything else only changes contents.
-/

namespace ProcessDisplay.Engine

variable {C : FormulaCompiler} {R : ScriptInterpreter}

namespace State

/-- A display starts well-formed. -/
theorem wellFormed_start (C : FormulaCompiler) (epoch : Time.Instant) :
    (State.start C epoch).WellFormed := by
  constructor
  case generators => exact ⟨.nil, by simp [start]⟩
  case formulas => exact ⟨.nil, by simp [start]⟩
  case edges => exact .nil
  case ascending => exact .nil
  case order => exact .nil
  all_goals simp [start]

/-- A free name has no entry. -/
theorem not_mem_names_of_free {s : State C} {name : String} (hfree : s.lookup name = none) :
    ∀ entry ∈ s.names, entry.1 ≠ name := by
  intro entry hentry he
  have hne := List.lookup_eq_none_iff.mp hfree entry hentry
  rw [he] at hne
  simp at hne

/-- A variable with a free name is inserted in front of the name index. -/
theorem names_insertVariable {s : State C} {v : Variable} (hfree : s.lookup v.name = none) :
    (s.insertVariable v).names = (v.name, s.nextId) :: s.names := by
  have hkeep : s.names.filter (·.1 ≠ v.name) = s.names := by
    rw [List.filter_eq_self]
    intro entry hentry
    exact decide_eq_true (not_mem_names_of_free hfree entry hentry)
  rw [insertVariable, hkeep]

/-- One more variable under a free name, with what drives it. -/
theorem WellFormed.insert {s : State C} (h : s.WellFormed) {v : Variable}
    (hfree : s.lookup v.name = none) {generators : List GeneratorSlot}
    {formulas : List (FormulaUnit C)} {triggers : TriggerGraph}
    (hgenerators : Drives (s.vars ++ [v]) .simulated (generators.map GeneratorSlot.variableId))
    (hformulas : Drives (s.vars ++ [v]) .formula (formulas.map FormulaUnit.variableId))
    (hparameters : ∀ unit ∈ formulas, ∀ p ∈ unit.parameters, p < unit.variableId)
    (hedges : triggers.edges.Nodup)
    (hends : ∀ edge ∈ triggers.edges, edge.1 < s.vars.length + 1 ∧
      { s.insertVariable v with generators, formulas, triggers }.Has edge.2)
    (hdependents : ∀ id unit, formulas[id]? = some unit → ∀ p,
      (p, UnitRef.formula id) ∈ triggers.edges ↔ p ∈ unit.parameters) :
    { s.insertVariable v with generators, formulas, triggers }.WellFormed := by
  have hlength : (s.insertVariable v).vars.length = s.vars.length + 1 := by simp [insertVariable]
  constructor
  case names =>
    intro entry hentry
    rw [names_insertVariable hfree] at hentry
    rcases List.mem_cons.mp hentry with rfl | hentry
    · exact ⟨v, getElem?_append_singleton.mpr (Or.inr ⟨rfl, rfl⟩), rfl⟩
    · obtain ⟨w, hw, hname⟩ := h.names entry hentry
      exact ⟨w, getElem?_append_singleton.mpr (Or.inl hw), hname⟩
  case named =>
    intro id w hw
    change (s.insertVariable v).lookup w.name = some id
    rw [lookup_insertVariable]
    rcases getElem?_append_singleton.mp hw with hold | ⟨rfl, rfl⟩
    · have hfound := h.named id w hold
      have hne : w.name ≠ v.name := by
        intro he
        rw [he, hfree] at hfound
        cases hfound
      rw [if_neg hne]
      exact hfound
    · rw [if_pos rfl]
      rfl
  case generators => exact hgenerators
  case formulas => exact hformulas
  case parameters => exact hparameters
  case rules =>
    intro unit hunit p hp
    rw [hlength]
    exact Nat.lt_succ_of_lt (h.rules unit hunit p hp)
  case scripts =>
    intro unit hunit p hp
    rw [hlength]
    exact Nat.lt_succ_of_lt (h.scripts unit hunit p hp)
  case edges => exact hedges
  case ends =>
    rw [hlength]
    exact hends
  case dependents => exact hdependents
  case pending =>
    intro p hp
    rw [hlength]
    exact Nat.lt_succ_of_lt (h.pending p hp)
  case ascending => exact h.ascending
  case fresh =>
    intro u hu
    obtain ⟨hkind, hhas⟩ := h.fresh u hu
    refine ⟨hkind, ?_⟩
    cases u with
    | formula id => cases hkind
    | rule id => exact hhas
    | script id => exact hhas
  case order => exact h.order

/-- Ends that are in range stay in range when one variable is added. -/
theorem WellFormed.ends_insert {s : State C} (h : s.WellFormed) (v : Variable)
    (generators : List GeneratorSlot) : ∀ edge ∈ s.triggers.edges,
      edge.1 < s.vars.length + 1 ∧ { s.insertVariable v with generators }.Has edge.2 := by
  intro edge hedge
  obtain ⟨hlt, hhas⟩ := h.ends edge hedge
  refine ⟨Nat.lt_succ_of_lt hlt, ?_⟩
  cases hu : edge.2 <;> rw [hu] at hhas <;> exact hhas

/-- A new simulated variable with its generator keeps the registry well-formed. -/
theorem WellFormed.attachGenerator {s : State C} (h : s.WellFormed) {key : String}
    (hfree : s.lookup key = none) (generator : Generator) :
    (s.attachGenerator key generator).WellFormed := by
  refine h.insert hfree ?_ (h.formulas.append_other (by simp)) h.parameters h.edges
    (h.ends_insert _ _) h.dependents
  rw [List.map_append]
  exact h.generators.append_self rfl

/-- A variable is no unit. -/
theorem has_insertVariable {s : State C} {v : Variable} {u : UnitRef} :
    (s.insertVariable v).Has u ↔ s.Has u := by
  cases u <;> exact Iff.rfl

/-- Registered units, old ones and a new last formula. -/
theorem has_addFormula {s : State C} {unit : FormulaUnit C} {u : UnitRef} :
    (s.addFormula unit).Has u ↔ s.Has u ∨ u = .formula s.formulas.length := by
  cases u with
  | rule id => simp [Has, addFormula]
  | script id => simp [Has, addFormula]
  | formula id =>
    simp only [Has, addFormula, List.length_append, List.length_singleton, UnitRef.formula.injEq]
    omega

/-- A new formula whose parameters are there keeps the registry well-formed. -/
theorem WellFormed.insertComputed {s : State C} (h : s.WellFormed) {v : Variable}
    (hfree : s.lookup v.name = none) (hkind : v.kind = .formula) {parameters : List VariableId}
    (hrange : ∀ p ∈ parameters, p < s.vars.length) (formula : C.Formula) :
    ((s.insertVariable v).addFormula
      { variableId := s.nextId, parameters, formula }).WellFormed := by
  refine h.insert hfree (h.generators.append_other (by simp [hkind])) ?_ ?_
    (nodup_connect h.edges _ _) ?_ ?_
  · rw [List.map_append]
    exact h.formulas.append_self hkind
  · intro unit hunit p hp
    rcases List.mem_append.mp hunit with hold | hnew
    · exact h.parameters unit hold p hp
    · obtain rfl := List.mem_singleton.mp hnew
      exact hrange p hp
  · intro edge hedge
    change _ ∧ ((s.insertVariable v).addFormula _).Has edge.2
    rw [has_addFormula, has_insertVariable]
    rcases mem_connect.mp hedge with hold | ⟨hsource, hunit⟩
    · obtain ⟨hlt, hhas⟩ := h.ends edge hold
      exact ⟨Nat.lt_succ_of_lt hlt, Or.inl hhas⟩
    · exact ⟨Nat.lt_succ_of_lt (hrange _ hsource), Or.inr hunit⟩
  · intro id unit hunit p
    rw [mem_connect]
    rcases getElem?_append_singleton.mp hunit with hold | ⟨rfl, rfl⟩
    · have hid : id < s.formulas.length := (List.getElem?_eq_some_iff.mp hold).1
      constructor
      · rintro (hedge | ⟨-, hlast⟩)
        · exact (h.dependents id unit hold p).mp hedge
        · have hsame := UnitRef.formula.inj hlast
          exact absurd hid (by rw [hsame]; exact Nat.lt_irrefl _)
      · intro hp
        exact Or.inl ((h.dependents id unit hold p).mpr hp)
    · constructor
      · rintro (hedge | ⟨hsource, -⟩)
        · exact absurd (h.ends _ hedge).2 (Nat.lt_irrefl _)
        · exact hsource
      · intro hp
        exact Or.inr ⟨hp, rfl⟩

/-- What a name is registered for is in range and has the name. -/
theorem WellFormed.of_lookup {s : State C} (h : s.WellFormed) {name : String} {id : VariableId}
    (hname : s.lookup name = some id) : ∃ v, s.vars[id]? = some v ∧ v.name = name := by
  obtain ⟨before, after, hsplit, -⟩ := List.lookup_eq_some_iff.mp hname
  exact h.names (name, id) (by rw [hsplit]; simp)

/-- What a name is located at is in range and spelled by the name. -/
theorem WellFormed.of_located {s : State C} (h : s.WellFormed) {name : String} {id : VariableId}
    (hlocated : s.located name = some id) : ∃ v, s.vars[id]? = some v ∧ v.IsSpelled name := by
  unfold located at hlocated
  split at hlocated
  · next found hfound =>
    obtain rfl := Option.some.inj hlocated
    obtain ⟨v, hv, hname⟩ := h.of_lookup hfound
    exact ⟨v, hv, Or.inl hname⟩
  · split at hlocated
    · next parsed hparsed =>
      obtain ⟨v, hv, hname⟩ := h.of_lookup hlocated
      exact ⟨v, hv, Or.inr ⟨parsed, hparsed, hname⟩⟩
    · cases hlocated

/-- What a name is located at is in range. -/
theorem WellFormed.located_lt {s : State C} (h : s.WellFormed) {name : String} {id : VariableId}
    (hlocated : s.located name = some id) : id < s.vars.length := by
  obtain ⟨v, hv, -⟩ := h.of_located hlocated
  exact (List.getElem?_eq_some_iff.mp hv).1

/-- Names that are located have positions in range. -/
theorem WellFormed.forall_located_lt {s : State C} (h : s.WellFormed) {names : List String}
    {ids : List VariableId}
    (hlocated : List.Forall₂ (fun name id => s.located name = some id) names ids) :
    ∀ p ∈ ids, p < s.vars.length := by
  induction hlocated with
  | nil => simp
  | cons hfirst _ ih =>
    intro p hp
    rcases List.mem_cons.mp hp with rfl | hp
    · exact h.located_lt hfirst
    · exact ih p hp

/-- Names spell the variables at some positions, in order. -/
def Resolves (s : State C) (names : List String) (ids : List VariableId) : Prop :=
  List.Forall₂ (fun name id => ∃ v, s.vars[id]? = some v ∧ v.IsSpelled name) names ids

/-- Names that are located are resolved. -/
theorem WellFormed.resolves {s : State C} (h : s.WellFormed) {names : List String}
    {ids : List VariableId}
    (hlocated : List.Forall₂ (fun name id => s.located name = some id) names ids) :
    s.Resolves names ids :=
  hlocated.imp fun _ _ hid => h.of_located hid

/-- Every name that is resolved has its variable. -/
theorem Resolves.getElem? {s : State C} {names : List String} {ids : List VariableId}
    (h : s.Resolves names ids) {k : Nat} {name : String} (hname : names[k]? = some name) :
    ∃ id v, ids[k]? = some id ∧ s.vars[id]? = some v ∧ v.IsSpelled name := by
  induction h generalizing k with
  | nil => cases hname
  | cons hfirst _ ih =>
    cases k with
    | zero =>
      obtain rfl := Option.some.inj hname
      obtain ⟨v, hv, hspelled⟩ := hfirst
      exact ⟨_, v, rfl, hv, hspelled⟩
    | succ k => exact ih hname

/-- Which names are resolved depends on the variables at their positions. -/
theorem Resolves.congr {s s' : State C} {names : List String} {ids : List VariableId}
    (h : s.Resolves names ids) (hsame : ∀ p ∈ ids, s'.vars[p]? = s.vars[p]?) :
    s'.Resolves names ids := by
  induction h with
  | nil => exact .nil
  | cons hfirst _ ih =>
    refine .cons ?_ (ih fun p hp => hsame p (List.mem_cons_of_mem _ hp))
    rw [hsame _ List.mem_cons_self]
    exact hfirst

/-- Variables that move are spelled as before. -/
theorem Resolves.of_moves {s s' : State C} {names : List String} {ids : List VariableId}
    {touched : VariableId → Prop} (h : s.Resolves names ids)
    (hmoves : Moves s.vars s'.vars touched) : s'.Resolves names ids := by
  refine h.imp ?_
  rintro name id ⟨v, hv, hspelled⟩
  obtain ⟨w, hw, hbecomes, -⟩ := hmoves id v hv
  refine ⟨w, hw, ?_⟩
  rw [Variable.IsSpelled, hbecomes.name]
  exact hspelled

/-- A variable that replaces the one at its place. -/
theorem SameShape.of_set {s : State C} {id : VariableId} {v w : Variable}
    (hv : s.vars[id]? = some v) (hbecomes : v.Becomes w) : SameShape s (s.setVariable id w) :=
  ⟨by simp [setVariable], .set hv hbecomes (Or.inl trivial), rfl, rfl, rfl, rfl, rfl, rfl⟩

/-- A change that leaves variables, units and edges alone. -/
theorem SameShape.markPending (s : State C) (id : VariableId) : SameShape s (s.markPending id) :=
  ⟨rfl, .refl _ _, rfl, rfl, rfl, rfl, rfl, rfl⟩

/-- A variable that is pending. -/
theorem WellFormed.markPending {s : State C} (h : s.WellFormed) {id : VariableId}
    (hid : id < s.vars.length) : (s.markPending id).WellFormed := by
  refine h.of_sameShape (.markPending s id) ?_ (h.ascending.add id) (List.Sublist.refl _)
  intro p hp
  rcases VariableSet.mem_add.mp hp with rfl | hp
  · exact hid
  · exact h.pending p hp

theorem WellFormed.markIf {s : State C} (h : s.WellFormed) (changed : Bool) {id : VariableId}
    (hid : id < s.vars.length) : (s.markIf changed id).WellFormed := by
  cases changed with
  | true => exact h.markPending hid
  | false => exact h

/-- A new variable of the display with its value. -/
theorem WellFormed.createLocal {s : State C} (h : s.WellFormed) {key : String}
    (hfree : s.lookup key = none) (initializer : Option String) :
    (s.createLocal key initializer).WellFormed := by
  have hfree' : s.lookup (s.newLocal key initializer).name = none := by
    rw [newLocal_name]
    exact hfree
  have hinserted : (s.insertVariable (s.newLocal key initializer)).WellFormed :=
    h.insert hfree' (h.generators.append_other (by simp)) (h.formulas.append_other (by simp))
      h.parameters h.edges (h.ends_insert _ _) h.dependents
  rw [createLocal_eq]
  exact hinserted.markIf _ (by simp [insertVariable, nextId])

/-- A declaration of a variable that exists only changes contents. -/
theorem sameShape_redeclare (s : State C) (id : VariableId) (initializer : String) :
    SameShape s (s.redeclare id initializer) := by
  rcases s.redeclare_cases id initializer with ⟨he, -⟩ | ⟨v, hv, hk, ⟨-, he⟩ | ⟨-, he⟩⟩
  · rw [he]
    exact .refl s
  · rw [he]
    exact (SameShape.of_set hv (s.becomes_declared hk initializer)).trans (.markPending _ id)
  · rw [he]
    exact .of_set hv (s.becomes_declared hk initializer)

/-- A declaration of a variable that exists keeps the registry well-formed. -/
theorem WellFormed.redeclare {s : State C} (h : s.WellFormed) (id : VariableId)
    (initializer : String) : (s.redeclare id initializer).WellFormed := by
  rcases s.redeclare_cases id initializer with ⟨he, -⟩ | ⟨v, hv, hk, ⟨-, he⟩ | ⟨-, he⟩⟩
  · rw [he]
    exact h
  · have hset := SameShape.of_set hv (s.becomes_declared hk initializer)
    rw [he]
    refine (h.of_sameShape hset h.pending h.ascending (List.Sublist.refl _)).markPending ?_
    rw [hset.length]
    exact (List.getElem?_eq_some_iff.mp hv).1
  · have hset := SameShape.of_set hv (s.becomes_declared hk initializer)
    rw [he]
    exact h.of_sameShape hset h.pending h.ascending (List.Sublist.refl _)

/-- A write keeps the registry well-formed. -/
theorem WellFormed.write {s s' : State C} (h : s.WellFormed) {id : VariableId} {value : Value}
    (hwrite : s.write id value = .ok s') : s'.WellFormed := by
  obtain ⟨v, hv, -, rfl⟩ := write_eq_ok_iff.mp hwrite
  have hid := (List.getElem?_eq_some_iff.mp hv).1
  have hset := SameShape.of_set hv (Variable.becomes_apply v { value, time := s.now })
  refine h.of_sameShape (hset.trans ⟨rfl, .refl _ _, rfl, rfl, rfl, rfl, rfl, rfl⟩) ?_ ?_
    (List.Sublist.refl _)
  · intro p hp
    dsimp only at hp
    split at hp
    · rcases VariableSet.mem_add.mp hp with rfl | hp
      · exact hid
      · exact h.pending p hp
    · exact h.pending p hp
  · dsimp only
    split
    · exact h.ascending.add id
    · exact h.ascending

/-- Registered units, old ones and a new last rule. -/
theorem has_addRule {s : State C} {unit : RuleUnit} {triggers : List VariableId} {u : UnitRef} :
    (s.addRule unit triggers).Has u ↔ s.Has u ∨ u = .rule s.rules.length := by
  cases u with
  | formula id => simp [Has, addRule]
  | script id => simp [Has, addRule]
  | rule id =>
    simp only [Has, addRule, List.length_append, List.length_singleton, UnitRef.rule.injEq]
    omega

/-- Registered units, old ones and a new last script. -/
theorem has_addScript {s : State C} {unit : ScriptUnit} {triggers : List VariableId} {u : UnitRef} :
    (s.addScript unit triggers).Has u ↔ s.Has u ∨ u = .script s.scripts.length := by
  cases u with
  | formula id => simp [Has, addScript]
  | rule id => simp [Has, addScript]
  | script id =>
    simp only [Has, addScript, List.length_append, List.length_singleton, UnitRef.script.injEq]
    omega

/-- One more rule whose inputs and triggers are there. -/
theorem WellFormed.addRule {s : State C} (h : s.WellFormed) {unit : RuleUnit}
    {triggers : List VariableId} (hinputs : ∀ p ∈ unit.inputs, p < s.vars.length)
    (htriggers : ∀ p ∈ triggers, p < s.vars.length) : (s.addRule unit triggers).WellFormed := by
  refine { h with
    rules := ?_, edges := nodup_connect h.edges _ _, ends := ?_, dependents := ?_, fresh := ?_
    order := h.order.add _ }
  · intro unit' hunit' p hp
    rcases List.mem_append.mp hunit' with hold | hnew
    · exact h.rules unit' hold p hp
    · obtain rfl := List.mem_singleton.mp hnew
      exact hinputs p hp
  · intro edge hedge
    rw [has_addRule]
    rcases mem_connect.mp hedge with hold | ⟨hsource, hunit⟩
    · exact (h.ends edge hold).imp_right Or.inl
    · exact ⟨htriggers _ hsource, Or.inr hunit⟩
  · intro id unit' hunit' p
    rw [← h.dependents id unit' hunit' p]
    simp [State.addRule, mem_connect]
  · intro u hu
    rw [has_addRule]
    rcases UnitSet.mem_add.mp hu with rfl | hu
    · exact ⟨rfl, Or.inr rfl⟩
    · exact (h.fresh u hu).imp_right Or.inl

/-- One more script whose inputs and triggers are there. -/
theorem WellFormed.addScript {s : State C} (h : s.WellFormed) {unit : ScriptUnit}
    {triggers : List VariableId} (hinputs : ∀ p ∈ unit.inputs, p < s.vars.length)
    (htriggers : ∀ p ∈ triggers, p < s.vars.length) : (s.addScript unit triggers).WellFormed := by
  refine { h with
    scripts := ?_, edges := nodup_connect h.edges _ _, ends := ?_, dependents := ?_, fresh := ?_
    order := h.order.add _ }
  · intro unit' hunit' p hp
    rcases List.mem_append.mp hunit' with hold | hnew
    · exact h.scripts unit' hold p hp
    · obtain rfl := List.mem_singleton.mp hnew
      exact hinputs p hp
  · intro edge hedge
    rw [has_addScript]
    rcases mem_connect.mp hedge with hold | ⟨hsource, hunit⟩
    · exact (h.ends edge hold).imp_right Or.inl
    · exact ⟨htriggers _ hsource, Or.inr hunit⟩
  · intro id unit' hunit' p
    rw [← h.dependents id unit' hunit' p]
    simp [State.addScript, mem_connect]
  · intro u hu
    rw [has_addScript]
    rcases UnitSet.mem_add.mp hu with rfl | hu
    · exact ⟨rfl, Or.inr rfl⟩
    · exact (h.fresh u hu).imp_right Or.inl

end State

/-- An evaluation only changes contents. -/
theorem sameShape_afterEvaluation {e : Engine C R} {id : Nat} {unit : FormulaUnit C}
    {v w : Variable}
    (hunit : e.state.formulas[id]? = some unit) (hv : e.state.vars[unit.variableId]? = some v)
    (hbecomes : v.Becomes w) (f : C.Formula) (errors : List UnitFailure) :
    State.SameShape e.state (afterEvaluation e id unit f w errors).state := by
  have hformulas : (e.state.formulas.set id { unit with formula := f }).map
      (fun unit => (unit.variableId, unit.parameters)) =
        e.state.formulas.map fun unit => (unit.variableId, unit.parameters) := by
    obtain ⟨hrange, rfl⟩ := List.getElem?_eq_some_iff.mp hunit
    rw [List.map_set]
    exact List.ext_getElem (by simp) fun i _ _ => by
      by_cases hi : id = i
      · subst hi
        simp
      · simp [hi]
  exact ⟨by simp [afterEvaluation], .set hv hbecomes (Or.inl trivial), rfl, rfl, hformulas, rfl,
    rfl, rfl⟩

/-- A small construction keeps the registry well-formed. -/
theorem ConstructionStep.wellFormed {e e' : Engine C R} (h : ConstructionStep e e')
    (hs : e.state.WellFormed) : e'.state.WellFormed := by
  cases h with
  | createLocal hkey hfree initializer => exact hs.createLocal hfree initializer
  | redeclare hfound initializer => exact hs.redeclare _ initializer
  | attach hkey hfree generator => exact hs.attachGenerator hfree generator
  | @createFormula e₁ source formula parameters changed hkey hfree hcompiled hlocated heval =>
    obtain ⟨f, w, errors, hdone, rfl⟩ := evaluateFormula_inserted heval
    have hname : w.name = "=" ++ source := hdone.becomes.name
    have hfree' : e.state.lookup w.name = none := by
      rw [hname]
      exact hfree
    refine State.WellFormed.markIf ?_ changed (by simp [State.addFormula, State.insertVariable,
      State.nextId])
    exact hs.insertComputed hfree' hdone.kind (hs.forall_located_lt hlocated) f

/-- A construction keeps the registry well-formed. -/
theorem Construction.wellFormed {e e' : Engine C R} (h : Construction e e')
    (hs : e.state.WellFormed) : e'.state.WellFormed := by
  induction h with
  | refl => exact hs
  | tail _ hstep ih => exact hstep.wellFormed ih

end ProcessDisplay.Engine
