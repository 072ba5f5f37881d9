import Mathlib.Data.List.Nodup
import Mathlib.Tactic.Common
import ProcessDisplay.Engine.Propagation

/-!
# Edges of the trigger graph

Connecting variables to a unit adds exactly the edges between them, none of
them twice. Who depends on a variable can be read off the edges.
-/

namespace ProcessDisplay.Engine

/-- Who depends on a variable, in terms of edges. -/
theorem TriggerGraph.mem_dependents {g : TriggerGraph} {p : VariableId} {u : UnitRef} :
    u ∈ g.dependents p ↔ (p, u) ∈ g.edges := by
  simp only [dependents, List.mem_filterMap, Option.ite_none_right_eq_some, Option.some.injEq,
    Prod.exists]
  constructor
  · rintro ⟨q, v, hedge, rfl, rfl⟩
    exact hedge
  · intro hedge
    exact ⟨p, u, hedge, rfl, rfl⟩

/-- Edges that are not repeated give dependents that are not repeated. -/
theorem TriggerGraph.nodup_dependents {g : TriggerGraph} (h : g.edges.Nodup) (p : VariableId) :
    (g.dependents p).Nodup := by
  refine h.filterMap ?_
  rintro ⟨q, u⟩ ⟨q', u'⟩ w hu hu'
  simp only [Option.mem_def, Option.ite_none_right_eq_some, Option.some.injEq] at hu hu'
  obtain ⟨rfl, rfl⟩ := hu
  obtain ⟨rfl, rfl⟩ := hu'
  rfl

/-- One more edge. -/
theorem TriggerGraph.mem_insert {g : TriggerGraph} {source : VariableId} {unit : UnitRef}
    {edge : VariableId × UnitRef} :
    edge ∈ (g.insert source unit).edges ↔ edge ∈ g.edges ∨ edge = (source, unit) := by
  unfold insert add
  split
  · next h =>
    constructor
    · exact Or.inl
    · rintro (hedge | rfl)
      · exact hedge
      · exact h
  · simp

theorem TriggerGraph.nodup_insert {g : TriggerGraph} (h : g.edges.Nodup) (source : VariableId)
    (unit : UnitRef) : (g.insert source unit).edges.Nodup := by
  unfold insert add
  split
  · exact h
  · next hnew =>
    rw [List.nodup_append]
    refine ⟨h, List.nodup_singleton _, ?_⟩
    intro edge hedge other hother he
    rw [List.mem_singleton] at hother
    exact hnew (hother ▸ he ▸ hedge)

/-- Selected edges stay the same when no selected edge is added. -/
theorem TriggerGraph.filter_insert {g : TriggerGraph} {source : VariableId} {unit : UnitRef}
    {keep : VariableId × UnitRef → Bool} (h : keep (source, unit) = false) :
    (g.insert source unit).edges.filter keep = g.edges.filter keep := by
  unfold insert add
  split
  · rfl
  · simp [h]

/-- Who depends on a variable after one more edge: the unit too, if the edge is
from the variable and was not there. -/
theorem TriggerGraph.dependents_insert (g : TriggerGraph) (source : VariableId) (unit : UnitRef)
    (p : VariableId) : (g.insert source unit).dependents p =
      g.dependents p ++ if source = p ∧ (p, unit) ∉ g.edges then [unit] else [] := by
  unfold insert add
  by_cases hold : (source, unit) ∈ g.edges
  · have hnot : ¬(source = p ∧ (p, unit) ∉ g.edges) := by
      rintro ⟨rfl, hnew⟩
      exact hnew hold
    rw [if_pos hold, if_neg hnot, List.append_nil]
  · rw [if_neg hold]
    simp only [dependents, List.filterMap_append, List.append_cancel_left_eq]
    by_cases hp : source = p
    · subst hp
      simp [hold]
    · simp [hp]

namespace State

/-- Connecting adds the edges from the sources to the unit. -/
theorem mem_connect {g : TriggerGraph} {sources : List VariableId} {unit : UnitRef}
    {edge : VariableId × UnitRef} :
    edge ∈ (connect g sources unit).edges ↔
      edge ∈ g.edges ∨ edge.1 ∈ sources ∧ edge.2 = unit := by
  unfold connect
  induction sources generalizing g with
  | nil => simp
  | cons source rest ih =>
    rw [List.foldl_cons, ih, TriggerGraph.mem_insert, List.mem_cons]
    constructor
    · rintro ((hedge | rfl) | ⟨hrest, hunit⟩)
      · exact Or.inl hedge
      · exact Or.inr ⟨Or.inl rfl, rfl⟩
      · exact Or.inr ⟨Or.inr hrest, hunit⟩
    · rintro (hedge | ⟨hsource | hrest, hunit⟩)
      · exact Or.inl (Or.inl hedge)
      · exact Or.inl (Or.inr (Prod.ext hsource hunit))
      · exact Or.inr ⟨hrest, hunit⟩

theorem nodup_connect {g : TriggerGraph} (h : g.edges.Nodup) (sources : List VariableId)
    (unit : UnitRef) : (connect g sources unit).edges.Nodup := by
  unfold connect
  induction sources generalizing g with
  | nil => exact h
  | cons source rest ih => exact ih (TriggerGraph.nodup_insert h source unit)

/-- Who depends on a variable after a unit was connected: the unit too, if the
variable is a source and the edge was not there. Sources that are repeated
count once. -/
theorem dependents_connect (g : TriggerGraph) (sources : List VariableId) (unit : UnitRef)
    (p : VariableId) : (connect g sources unit).dependents p =
      g.dependents p ++ if p ∈ sources ∧ (p, unit) ∉ g.edges then [unit] else [] := by
  unfold connect
  induction sources generalizing g with
  | nil => simp
  | cons source rest ih =>
    rw [List.foldl_cons, ih, TriggerGraph.dependents_insert, List.append_assoc]
    by_cases hold : (p, unit) ∈ g.edges
    · simp [hold, TriggerGraph.mem_insert]
    · by_cases hp : source = p
      · subst hp
        simp [hold, TriggerGraph.mem_insert]
      · simp [hold, hp, Ne.symm hp, TriggerGraph.mem_insert]

/-- Selected edges stay the same when the edges of the unit are not selected. -/
theorem filter_connect {keep : VariableId × UnitRef → Bool} {unit : UnitRef}
    (h : ∀ p, keep (p, unit) = false) (g : TriggerGraph) (sources : List VariableId) :
    (connect g sources unit).edges.filter keep = g.edges.filter keep := by
  unfold connect
  induction sources generalizing g with
  | nil => rfl
  | cons source rest ih => rw [List.foldl_cons, ih, TriggerGraph.filter_insert (h source)]

end State

/-- The formulas among units. -/
theorem mem_formulasOf {units : List UnitRef} {id : Nat} :
    id ∈ formulasOf units ↔ UnitRef.formula id ∈ units := by
  simp only [formulasOf, List.mem_filterMap]
  constructor
  · rintro ⟨u, hu, hid⟩
    cases u with
    | formula k =>
      obtain rfl := Option.some.inj hid
      exact hu
    | rule k => cases hid
    | script k => cases hid
  · intro h
    exact ⟨.formula id, h, rfl⟩

/-- Units that are not repeated have formulas that are not repeated. -/
theorem nodup_formulasOf {units : List UnitRef} (h : units.Nodup) : (formulasOf units).Nodup := by
  refine h.filterMap ?_
  intro u v id hu hv
  cases u with
  | formula k =>
    cases v with
    | formula l =>
      obtain rfl := Option.some.inj hu
      obtain rfl := Option.some.inj hv
      rfl
    | rule l => cases hv
    | script l => cases hv
  | rule k => cases hu
  | script k => cases hu

end ProcessDisplay.Engine
