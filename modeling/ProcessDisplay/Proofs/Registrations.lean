import Mathlib.Tactic.Common
import ProcessDisplay.Proofs.Sessions

/-!
# The journal and the registry

The journal of a session describes the registry: it has one entry for every
rule and every script, in the order of registration, the triggers among the
declared inputs are the variables with an edge to the unit, and the entries
that are new are the units that were added since the last tick.
-/

namespace ProcessDisplay.Engine

variable {C : FormulaCompiler} {R : ScriptInterpreter}

/-- Whether a unit is a rule. -/
def UnitRef.isRule : UnitRef → Bool
  | .rule _ => true
  | _ => false

/-- Whether a unit is a script. -/
def UnitRef.isScript : UnitRef → Bool
  | .script _ => true
  | _ => false

namespace State

/-- The rules in the order of registration. -/
def ruleUnits (s : State C) : List UnitRef := (List.range s.rules.length).map .rule

/-- The scripts in the order of registration. -/
def scriptUnits (s : State C) : List UnitRef := (List.range s.scripts.length).map .script

/-- A unit other than a formula is registered as a rule or as a script. -/
theorem has_iff {s : State C} {u : UnitRef} (hu : u.isFormula = false) :
    s.Has u ↔ u.isRule = true ∧ u ∈ s.ruleUnits ∨ u.isScript = true ∧ u ∈ s.scriptUnits := by
  cases u with
  | formula id => cases hu
  | rule id => simp [Has, ruleUnits, scriptUnits, UnitRef.isRule, UnitRef.isScript]
  | script id => simp [Has, ruleUnits, scriptUnits, UnitRef.isRule, UnitRef.isScript]

/-- A registry with one more rule or script. -/
structure Adds (s s' : State C) (u : UnitRef) (inputs triggers : List VariableId) : Prop where
  /-- The unit is no formula. -/
  isFormula : u.isFormula = false
  /-- The unit was not there before. -/
  new : ¬s.Has u
  /-- If it is a rule, it is the last one. -/
  rules : s'.ruleUnits = s.ruleUnits ++ [u].filter UnitRef.isRule
  /-- If it is a script, it is the last one. -/
  scripts : s'.scriptUnits = s.scriptUnits ++ [u].filter UnitRef.isScript
  /-- The inputs of the unit. -/
  inputs : s'.inputsOf u = inputs
  /-- The inputs of the others stay. -/
  others : ∀ v, s.Has v → s'.inputsOf v = s.inputsOf v
  /-- Its triggers are connected to it. -/
  edges : ∀ p v, (p, v) ∈ s'.triggers.edges ↔ (p, v) ∈ s.triggers.edges ∨ p ∈ triggers ∧ v = u
  /-- The unit is new. -/
  fresh : ∀ v, v ∈ s'.fresh ↔ v = u ∨ v ∈ s.fresh
  /-- The variables stay. -/
  vars : s'.vars = s.vars
  /-- What is pending stays. -/
  pending : s'.pending = s.pending

/-- One more rule. -/
theorem adds_addRule (s : State C) (unit : RuleUnit) (triggers : List VariableId) :
    Adds s (s.addRule unit triggers) (.rule s.rules.length) unit.inputs triggers := by
  constructor
  case isFormula => rfl
  case new => exact Nat.lt_irrefl _
  case rules =>
    have hunit : [UnitRef.rule s.rules.length].filter UnitRef.isRule =
        [UnitRef.rule s.rules.length] := rfl
    rw [hunit]
    simp [ruleUnits, addRule, List.range_succ]
  case scripts => simp [scriptUnits, addRule, UnitRef.isScript]
  case inputs => simp [inputsOf, addRule]
  case others =>
    intro v hv
    cases v with
    | formula id => rfl
    | rule id => simp [inputsOf, addRule, List.getElem?_append_left hv]
    | script id => rfl
  case edges => exact fun _ _ => mem_connect
  case fresh => exact fun _ => UnitSet.mem_add
  case vars => rfl
  case pending => rfl

/-- One more script. -/
theorem adds_addScript (s : State C) (unit : ScriptUnit) (triggers : List VariableId) :
    Adds s (s.addScript unit triggers) (.script s.scripts.length) unit.inputs triggers := by
  constructor
  case isFormula => rfl
  case new => exact Nat.lt_irrefl _
  case rules => simp [ruleUnits, addScript, UnitRef.isRule]
  case scripts =>
    have hunit : [UnitRef.script s.scripts.length].filter UnitRef.isScript =
        [UnitRef.script s.scripts.length] := rfl
    rw [hunit]
    simp [scriptUnits, addScript, List.range_succ]
  case inputs => simp [inputsOf, addScript]
  case others =>
    intro v hv
    cases v with
    | formula id => rfl
    | rule id => rfl
    | script id => simp [inputsOf, addScript, List.getElem?_append_left hv]
  case edges => exact fun _ _ => mem_connect
  case fresh => exact fun _ => UnitSet.mem_add
  case vars => rfl
  case pending => rfl

/-- What a unit reads is a matter of the registered units. -/
theorem inputsOf_congr {s s' : State C} (hrules : s'.rules = s.rules)
    (hscripts : s'.scripts = s.scripts) (u : UnitRef) : s'.inputsOf u = s.inputsOf u := by
  cases u with
  | formula id => rfl
  | rule id => rw [inputsOf, inputsOf, hrules]
  | script id => rw [inputsOf, inputsOf, hscripts]

end State

/-- A journal describes a registry. -/
structure Journal.Describes (j : Journal) (s : State C) : Prop where
  /-- No formula is entered. -/
  units : ∀ r ∈ j.registrations, r.unit.isFormula = false
  /-- The rules are entered in order. -/
  rules : (j.registrations.map Registration.unit).filter UnitRef.isRule = s.ruleUnits
  /-- The scripts are entered in order. -/
  scripts : (j.registrations.map Registration.unit).filter UnitRef.isScript = s.scriptUnits
  /-- The declared inputs are the inputs of the unit. -/
  inputs : ∀ r ∈ j.registrations, s.Resolves (r.inputs.map Input.name) (s.inputsOf r.unit)
  /-- The variables of triggers are connected to their unit, and no others. -/
  edges : ∀ r ∈ j.registrations, ∀ p,
    (p, r.unit) ∈ s.triggers.edges ↔ p ∈ triggersOf r.inputs (s.inputsOf r.unit)
  /-- What is new in the journal is new in the registry. -/
  fresh : ∀ u, u ∈ s.fresh ↔ ∃ r ∈ j.registrations, r.unit = u ∧ r.isNew = true
  /-- What has run was registered. -/
  runs : ∀ run ∈ j.runs, ∃ r ∈ j.registrations, r.unit = run.unit

namespace Journal.Describes

variable {j : Journal} {s s' : State C}

/-- Every entry is of a registered unit. -/
theorem has (h : j.Describes s) {r : Registration} (hr : r ∈ j.registrations) :
    s.Has r.unit := by
  have hmem : r.unit ∈ j.registrations.map Registration.unit := List.mem_map_of_mem hr
  rw [State.has_iff (h.units r hr), ← h.rules, ← h.scripts]
  have hkind := h.units r hr
  cases hu : r.unit with
  | formula id =>
    rw [hu] at hkind
    cases hkind
  | rule id =>
    rw [hu] at hmem
    exact Or.inl ⟨rfl, List.mem_filter.mpr ⟨hmem, rfl⟩⟩
  | script id =>
    rw [hu] at hmem
    exact Or.inr ⟨rfl, List.mem_filter.mpr ⟨hmem, rfl⟩⟩

/-- Every registered rule or script is entered. -/
theorem exists_of_has (h : j.Describes s) {u : UnitRef} (hu : u.isFormula = false)
    (hhas : s.Has u) : ∃ r ∈ j.registrations, r.unit = u := by
  rw [State.has_iff hu, ← h.rules, ← h.scripts] at hhas
  rcases hhas with ⟨-, hmem⟩ | ⟨-, hmem⟩
  · exact List.mem_map.mp (List.mem_filter.mp hmem).1
  · exact List.mem_map.mp (List.mem_filter.mp hmem).1

/-- The journal of a display that starts. -/
theorem start (C : FormulaCompiler) (epoch : Time.Instant) :
    ({} : Journal).Describes (State.start C epoch) := by
  constructor
  case rules => rfl
  case scripts => rfl
  all_goals simp [State.start]

/-- A journal describes a registry whose units and edges to units are the same. -/
theorem of_quiet (h : j.Describes s) (hquiet : State.Quiet s s') : j.Describes s' := by
  have hinputs := State.inputsOf_congr hquiet.rules hquiet.scripts
  constructor
  case units => exact h.units
  case rules => rw [h.rules, State.ruleUnits, State.ruleUnits, hquiet.rules]
  case scripts => rw [h.scripts, State.scriptUnits, State.scriptUnits, hquiet.scripts]
  case inputs =>
    intro r hr
    rw [hinputs]
    exact (h.inputs r hr).of_moves hquiet.records.moves
  case edges =>
    intro r hr p
    rw [hinputs, hquiet.edges p r.unit (h.units r hr)]
    exact h.edges r hr p
  case fresh =>
    rw [hquiet.fresh]
    exact h.fresh
  case runs => exact h.runs

/-- A registration is entered. -/
theorem register (h : j.Describes s) (hs : s.WellFormed) {u : UnitRef} {inputs : List Input}
    {ids : List VariableId} (hadds : State.Adds s s' u ids (triggersOf inputs ids))
    (hresolves : s.Resolves (inputs.map Input.name) ids) : (j.register u inputs).Describes s' := by
  have hcases : ∀ r, r ∈ (j.register u inputs).registrations ↔
      r ∈ j.registrations ∨ r = ⟨u, inputs, true⟩ := by
    intro r
    rw [Journal.register, List.mem_append, List.mem_singleton]
  have hmap : (j.register u inputs).registrations.map Registration.unit =
      j.registrations.map Registration.unit ++ [u] := by
    rw [Journal.register, List.map_append]
    rfl
  constructor
  case units =>
    intro r hr
    rcases (hcases r).mp hr with hold | rfl
    · exact h.units r hold
    · exact hadds.isFormula
  case rules => rw [hmap, List.filter_append, h.rules, hadds.rules]
  case scripts => rw [hmap, List.filter_append, h.scripts, hadds.scripts]
  case inputs =>
    intro r hr
    rcases (hcases r).mp hr with hold | rfl
    · rw [hadds.others _ (h.has hold), State.Resolves, hadds.vars]
      exact h.inputs r hold
    · rw [hadds.inputs, State.Resolves, hadds.vars]
      exact hresolves
  case edges =>
    intro r hr p
    rw [hadds.edges]
    rcases (hcases r).mp hr with hold | rfl
    · have hne : r.unit ≠ u := by
        rintro rfl
        exact hadds.new (h.has hold)
      rw [hadds.others _ (h.has hold), ← h.edges r hold p]
      simp [hne]
    · have hnone : (p, u) ∉ s.triggers.edges := fun hedge => hadds.new (hs.ends _ hedge).2
      rw [hadds.inputs]
      simp [hnone]
  case fresh =>
    intro v
    rw [hadds.fresh, h.fresh]
    constructor
    · rintro (rfl | ⟨r, hr, hunit, hnew⟩)
      · exact ⟨⟨v, inputs, true⟩, (hcases _).mpr (Or.inr rfl), rfl, rfl⟩
      · exact ⟨r, (hcases r).mpr (Or.inl hr), hunit, hnew⟩
    · rintro ⟨r, hr, hunit, hnew⟩
      rcases (hcases r).mp hr with hold | rfl
      · exact Or.inr ⟨r, hold, hunit, hnew⟩
      · exact Or.inl hunit.symm
  case runs =>
    intro run hrun
    obtain ⟨r, hr, hunit⟩ := h.runs run hrun
    exact ⟨r, (hcases r).mpr (Or.inl hr), hunit⟩

/-- A tick makes every entry old and enters the runs of registered units. -/
theorem tick (h : j.Describes s) (hrules : s'.rules = s.rules) (hscripts : s'.scripts = s.scripts)
    (htriggers : s'.triggers = s.triggers) (hfresh : s'.fresh = [])
    {touched : VariableId → Prop} (hmoves : Moves s.vars s'.vars touched) {runs : List UnitRun}
    (hruns : ∀ run ∈ runs, run.unit.isFormula = false ∧ s.Has run.unit) :
    Journal.Describes
      ⟨j.registrations.map fun r => { r with isNew := false }, j.runs ++ runs⟩ s' := by
  have hinputs := State.inputsOf_congr hrules hscripts
  have hmap : (j.registrations.map fun r => { r with isNew := false }).map Registration.unit =
      j.registrations.map Registration.unit := by
    rw [List.map_map]
    rfl
  constructor
  case units =>
    intro r hr
    obtain ⟨r₀, hr₀, rfl⟩ := List.mem_map.mp hr
    exact h.units r₀ hr₀
  case rules => rw [hmap, h.rules, State.ruleUnits, State.ruleUnits, hrules]
  case scripts => rw [hmap, h.scripts, State.scriptUnits, State.scriptUnits, hscripts]
  case inputs =>
    intro r hr
    obtain ⟨r₀, hr₀, rfl⟩ := List.mem_map.mp hr
    rw [hinputs]
    exact (h.inputs r₀ hr₀).of_moves hmoves
  case edges =>
    intro r hr p
    obtain ⟨r₀, hr₀, rfl⟩ := List.mem_map.mp hr
    rw [hinputs, htriggers]
    exact h.edges r₀ hr₀ p
  case fresh =>
    intro u
    rw [hfresh]
    constructor
    · intro hu
      cases hu
    · rintro ⟨r, hr, -, hnew⟩
      obtain ⟨r₀, -, rfl⟩ := List.mem_map.mp hr
      cases hnew
  case runs =>
    intro run hrun
    have hregistered : ∃ r ∈ j.registrations, r.unit = run.unit := by
      rcases List.mem_append.mp hrun with hold | hnew
      · exact h.runs run hold
      · obtain ⟨hkind, hhas⟩ := hruns run hnew
        exact h.exists_of_has hkind hhas
    obtain ⟨r, hr, hunit⟩ := hregistered
    exact ⟨_, List.mem_map_of_mem hr, hunit⟩

end Journal.Describes

/-- After every operation the journal describes the registry. -/
theorem Effect.describes {j : Journal} {s s' : Stage C R} {entry : Operation × Answer}
    (h : Effect s entry s') (hs : s.engine.state.WellFormed)
    (hj : j.Describes s.engine.state) : (j.enter entry).Describes s'.engine.state := by
  cases h with
  | evolved hquiet h =>
    rw [hquiet]
    exact hj.of_quiet h.quiet
  | rule unit h hlocated he =>
    have hs₁ := h.wellFormed hs
    rw [he]
    exact (hj.of_quiet h.quiet).register hs₁ (State.adds_addRule _ _ _) (hs₁.resolves hlocated)
  | script unit h hlocated he =>
    have hs₁ := h.wellFormed hs
    rw [he]
    exact (hj.of_quiet h.quiet).register hs₁ (State.adds_addScript _ _ _) (hs₁.resolves hlocated)
  | tick h =>
    obtain ⟨p, hticked⟩ := ticked_of_tick hs h
    exact hj.tick hticked.rules hticked.scripts hticked.triggers hticked.fresh hticked.moves
      fun run hrun => hticked.registered hs hrun
  | reset he =>
    rw [he]
    exact .start C _

/-- The journal describes the registry throughout a session. -/
theorem Session.describes {j : Journal} {s : Stage C R} (h : Session C R j s) :
    j.Describes s.engine.state := by
  induction h with
  | start settings epoch panel => exact .start C epoch
  | step hsession hstep ih =>
    exact (effect_of_perform hsession.wellFormed hstep).describes hsession.wellFormed ih

end ProcessDisplay.Engine
