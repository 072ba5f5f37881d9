import Mathlib.Data.List.Nodup
import Mathlib.Tactic.Common
import ProcessDisplay.Proofs.Constructions
import ProcessDisplay.Proofs.TriggerEdges

/-!
# Well-formed registries

The name index knows every variable by its name and nothing else. Simulated
variables and formula variables are driven by one slot or unit each, formulas
read only older variables, and every position that is held anywhere is in
range. Operations either leave this shape alone or add one item at its end.
-/

namespace ProcessDisplay.Engine

variable {C : FormulaCompiler} {R : ScriptInterpreter}

/-- An item of a list with one more is an old item or the new one. -/
theorem getElem?_append_singleton {α : Type} {l : List α} {last item : α} {i : Nat} :
    (l ++ [last])[i]? = some item ↔ l[i]? = some item ∨ i = l.length ∧ item = last := by
  by_cases h : i < l.length
  · rw [List.getElem?_append_left h]
    constructor
    · exact Or.inl
    · rintro (hold | ⟨hlast, -⟩)
      · exact hold
      · omega
  · have hnone : l[i]? = none := List.getElem?_eq_none (Nat.le_of_not_lt h)
    rw [List.getElem?_append_right (Nat.le_of_not_lt h), hnone, List.getElem?_singleton]
    constructor
    · intro hnew
      split at hnew
      · exact Or.inr ⟨by omega, (Option.some.inj hnew).symm⟩
      · cases hnew
    · rintro (hold | ⟨hlast, rfl⟩)
      · cases hold
      · rw [if_pos (by omega)]

/-- Some positions are exactly those of the variables of a kind, each once. -/
structure Drives (vars : List Variable) (kind : VariableKind) (ids : List VariableId) : Prop where
  /-- No variable is driven twice. -/
  nodup : ids.Nodup
  /-- The driven variables are those of the kind. -/
  mem_iff : ∀ id, id ∈ ids ↔ ∃ v, vars[id]? = some v ∧ v.kind = kind

namespace Drives

variable {vars : List Variable} {kind : VariableKind} {ids : List VariableId}

/-- Driven positions are in range. -/
theorem lt (h : Drives vars kind ids) {id : VariableId} (hid : id ∈ ids) : id < vars.length := by
  obtain ⟨v, hv, -⟩ := (h.mem_iff id).mp hid
  exact (List.getElem?_eq_some_iff.mp hv).1

/-- A new variable of the kind is driven by a new last item. -/
theorem append_self (h : Drives vars kind ids) {v : Variable} (hv : v.kind = kind) :
    Drives (vars ++ [v]) kind (ids ++ [vars.length]) := by
  refine ⟨?_, fun id => ?_⟩
  · have hnew : vars.length ∉ ids := fun hmem => Nat.lt_irrefl _ (h.lt hmem)
    rw [← List.concat_eq_append]
    exact h.nodup.concat hnew
  · rw [List.mem_append, List.mem_singleton, h.mem_iff]
    constructor
    · rintro (⟨w, hw, hk⟩ | rfl)
      · exact ⟨w, getElem?_append_singleton.mpr (Or.inl hw), hk⟩
      · exact ⟨v, getElem?_append_singleton.mpr (Or.inr ⟨rfl, rfl⟩), hv⟩
    · rintro ⟨w, hw, hk⟩
      rcases getElem?_append_singleton.mp hw with hold | ⟨hlast, -⟩
      · exact Or.inl ⟨w, hold, hk⟩
      · exact Or.inr hlast

/-- A new variable of another kind is not driven. -/
theorem append_other (h : Drives vars kind ids) {v : Variable} (hv : v.kind ≠ kind) :
    Drives (vars ++ [v]) kind ids := by
  refine ⟨h.nodup, fun id => ?_⟩
  rw [h.mem_iff]
  constructor
  · rintro ⟨w, hw, hk⟩
    exact ⟨w, getElem?_append_singleton.mpr (Or.inl hw), hk⟩
  · rintro ⟨w, hw, hk⟩
    rcases getElem?_append_singleton.mp hw with hold | ⟨-, rfl⟩
    · exact ⟨w, hold, hk⟩
    · exact absurd hk hv

end Drives

/-- A variable is after a move what became of the variable at its place. -/
theorem Moves.of_length_eq {vars after : List Variable} {touched : VariableId → Prop}
    (h : Moves vars after touched) (hlength : after.length = vars.length) {id : VariableId}
    {w : Variable} (hw : after[id]? = some w) : ∃ v, vars[id]? = some v ∧ v.Becomes w := by
  have hid : id < vars.length := by
    rw [← hlength]
    exact (List.getElem?_eq_some_iff.mp hw).1
  obtain ⟨w', hw', hbecomes, -⟩ := h id vars[id] (List.getElem?_eq_getElem hid)
  obtain rfl := Option.some.inj (hw.symm.trans hw')
  exact ⟨vars[id], List.getElem?_eq_getElem hid, hbecomes⟩

/-- Moves keep who is driven, for every kind that the display does not write. -/
theorem Drives.of_moves {vars after : List Variable} {touched : VariableId → Prop}
    {kind : VariableKind} {ids : List VariableId} (h : Drives vars kind ids)
    (hmoves : Moves vars after touched) (hlength : after.length = vars.length)
    (hkind : ∀ initializer, kind ≠ .localVariable initializer) : Drives after kind ids := by
  have hsame : ∀ v w : Variable, v.Becomes w → (v.kind = kind ↔ w.kind = kind) := by
    intro v w hbecomes
    rcases hbecomes.kind with hk | ⟨hv, hw⟩
    · rw [hk]
    · constructor
      · intro hk
        rw [Variable.isWritable, hk] at hv
        cases kind with
        | localVariable initializer => exact absurd rfl (hkind initializer)
        | simulated => cases hv
        | formula => cases hv
      · intro hk
        rw [Variable.isWritable, hk] at hw
        cases kind with
        | localVariable initializer => exact absurd rfl (hkind initializer)
        | simulated => cases hw
        | formula => cases hw
  refine ⟨h.nodup, fun id => ?_⟩
  rw [h.mem_iff]
  constructor
  · rintro ⟨v, hv, hk⟩
    obtain ⟨w, hw, hbecomes, -⟩ := hmoves id v hv
    exact ⟨w, hw, (hsame v w hbecomes).mp hk⟩
  · rintro ⟨w, hw, hk⟩
    obtain ⟨v, hv, hbecomes⟩ := hmoves.of_length_eq hlength hw
    exact ⟨v, hv, (hsame v w hbecomes).mpr hk⟩

namespace State

/-- Whether a unit is registered. -/
def Has (s : State C) : UnitRef → Prop
  | .formula id => id < s.formulas.length
  | .rule id => id < s.rules.length
  | .script id => id < s.scripts.length

/-- The shape of a registry. -/
structure WellFormed (s : State C) : Prop where
  /-- The name index points to variables of those names. -/
  names : ∀ entry ∈ s.names, ∃ v, s.vars[entry.2]? = some v ∧ v.name = entry.1
  /-- Every variable is found under its name. -/
  named : ∀ id v, s.vars[id]? = some v → s.lookup v.name = some id
  /-- Simulated variables are driven by generators. -/
  generators : Drives s.vars .simulated (s.generators.map GeneratorSlot.variableId)
  /-- Formula variables are driven by formulas. -/
  formulas : Drives s.vars .formula (s.formulas.map FormulaUnit.variableId)
  /-- A formula reads variables that are older than its own. -/
  parameters : ∀ unit ∈ s.formulas, ∀ p ∈ unit.parameters, p < unit.variableId
  /-- The inputs of rules are in range. -/
  rules : ∀ unit ∈ s.rules, ∀ p ∈ unit.inputs, p < s.vars.length
  /-- The inputs of scripts are in range. -/
  scripts : ∀ unit ∈ s.scripts, ∀ p ∈ unit.inputs, p < s.vars.length
  /-- No edge is repeated. -/
  edges : s.triggers.edges.Nodup
  /-- The ends of edges are in range. -/
  ends : ∀ edge ∈ s.triggers.edges, edge.1 < s.vars.length ∧ s.Has edge.2
  /-- A formula depends on its parameters. -/
  dependents : ∀ id unit, s.formulas[id]? = some unit → ∀ p,
    (p, UnitRef.formula id) ∈ s.triggers.edges ↔ p ∈ unit.parameters
  /-- Pending variables are in range. -/
  pending : ∀ p ∈ s.pending, p < s.vars.length
  /-- Pending variables ascend. -/
  ascending : s.pending.Ascending
  /-- New units are registered rules and scripts. -/
  fresh : ∀ u ∈ s.fresh, u.isFormula = false ∧ s.Has u
  /-- New units ascend. -/
  order : s.fresh.Ascending

/-- What stays when only contents change: the same variables, units and edges
at the same places. -/
structure SameShape (s s' : State C) : Prop where
  /-- The variables are those that were there. -/
  length : s'.vars.length = s.vars.length
  /-- Variables keep what every change leaves alone. -/
  moves : Moves s.vars s'.vars fun _ => True
  /-- The name index stays. -/
  names : s'.names = s.names
  /-- Generators stay with their variables. -/
  generators : s'.generators.map GeneratorSlot.variableId =
    s.generators.map GeneratorSlot.variableId
  /-- Formulas stay with their variables and parameters. -/
  formulas : s'.formulas.map (fun unit => (unit.variableId, unit.parameters)) =
    s.formulas.map fun unit => (unit.variableId, unit.parameters)
  /-- The rules stay. -/
  rules : s'.rules = s.rules
  /-- The scripts stay. -/
  scripts : s'.scripts = s.scripts
  /-- The edges stay. -/
  triggers : s'.triggers = s.triggers

namespace SameShape

theorem refl (s : State C) : SameShape s s := ⟨rfl, .refl _ _, rfl, rfl, rfl, rfl, rfl, rfl⟩

theorem trans {s s' s'' : State C} (h : SameShape s s') (h' : SameShape s' s'') :
    SameShape s s'' :=
  ⟨h'.length.trans h.length, h.moves.trans h'.moves, h'.names.trans h.names,
    h'.generators.trans h.generators, h'.formulas.trans h.formulas, h'.rules.trans h.rules,
    h'.scripts.trans h.scripts, h'.triggers.trans h.triggers⟩

variable {s s' : State C}

/-- A formula is after the change what became of the formula at its place. -/
theorem formula (h : SameShape s s') {id : Nat} {unit' : FormulaUnit C}
    (hunit : s'.formulas[id]? = some unit') : ∃ unit, s.formulas[id]? = some unit ∧
      unit'.variableId = unit.variableId ∧ unit'.parameters = unit.parameters := by
  have hmap := congrArg (fun l => l[id]?) h.formulas
  simp only [List.getElem?_map, hunit, Option.map_some] at hmap
  obtain ⟨unit, hold, hpair⟩ := Option.map_eq_some_iff.mp hmap.symm
  obtain ⟨hvariable, hparameters⟩ := Prod.mk.inj hpair
  exact ⟨unit, hold, hvariable.symm, hparameters.symm⟩

theorem formulas_length (h : SameShape s s') : s'.formulas.length = s.formulas.length := by
  simpa using congrArg List.length h.formulas

theorem generators_length (h : SameShape s s') : s'.generators.length = s.generators.length := by
  simpa using congrArg List.length h.generators

/-- The same units are registered. -/
theorem has (h : SameShape s s') (u : UnitRef) : s'.Has u ↔ s.Has u := by
  cases u with
  | formula id => simp only [Has, h.formulas_length]
  | rule id => simp only [Has, h.rules]
  | script id => simp only [Has, h.scripts]

end SameShape

/-- A change of contents keeps the shape, as long as what is pending and what
is new stays in range. -/
theorem WellFormed.of_sameShape {s s' : State C} (h : s.WellFormed) (hshape : SameShape s s')
    (hpending : ∀ p ∈ s'.pending, p < s.vars.length) (hascending : s'.pending.Ascending)
    (hfresh : s'.fresh.Sublist s.fresh) : s'.WellFormed := by
  have hlookup : ∀ name, s'.lookup name = s.lookup name := by
    intro name
    rw [lookup, lookup, hshape.names]
  have hids : s'.formulas.map FormulaUnit.variableId = s.formulas.map FormulaUnit.variableId := by
    have hfirst := congrArg (List.map Prod.fst) hshape.formulas
    rw [List.map_map, List.map_map] at hfirst
    exact hfirst
  constructor
  case names =>
    intro entry hentry
    rw [hshape.names] at hentry
    obtain ⟨v, hv, hname⟩ := h.names entry hentry
    obtain ⟨w, hw, hbecomes, -⟩ := hshape.moves _ v hv
    exact ⟨w, hw, hbecomes.name.trans hname⟩
  case named =>
    intro id w hw
    obtain ⟨v, hv, hbecomes⟩ := hshape.moves.of_length_eq hshape.length hw
    rw [hlookup, hbecomes.name]
    exact h.named id v hv
  case generators =>
    rw [hshape.generators]
    exact h.generators.of_moves hshape.moves hshape.length (by simp)
  case formulas =>
    rw [hids]
    exact h.formulas.of_moves hshape.moves hshape.length (by simp)
  case parameters =>
    intro unit' hunit' p hp
    obtain ⟨id, hid⟩ := List.getElem?_of_mem hunit'
    obtain ⟨unit, hunit, hvariable, hparameters⟩ := hshape.formula hid
    rw [hparameters] at hp
    rw [hvariable]
    exact h.parameters unit (List.mem_of_getElem? hunit) p hp
  case rules =>
    rw [hshape.rules, hshape.length]
    exact h.rules
  case scripts =>
    rw [hshape.scripts, hshape.length]
    exact h.scripts
  case edges =>
    rw [hshape.triggers]
    exact h.edges
  case ends =>
    intro edge hedge
    rw [hshape.triggers] at hedge
    rw [hshape.length, hshape.has]
    exact h.ends edge hedge
  case dependents =>
    intro id unit' hunit' p
    obtain ⟨unit, hunit, -, hparameters⟩ := hshape.formula hunit'
    rw [hshape.triggers, hparameters]
    exact h.dependents id unit hunit p
  case pending =>
    rw [hshape.length]
    exact hpending
  case ascending => exact hascending
  case fresh =>
    intro u hu
    rw [hshape.has]
    exact h.fresh u (hfresh.subset hu)
  case order => exact List.Pairwise.sublist hfresh h.order

end State

end ProcessDisplay.Engine
