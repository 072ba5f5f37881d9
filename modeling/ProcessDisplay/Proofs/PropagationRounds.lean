import Mathlib.Logic.Relation
import Mathlib.Tactic.Common
import ProcessDisplay.Proofs.ContainedFailures
import ProcessDisplay.Proofs.Sessions

/-!
# The rounds of a propagation

A round takes the first waiting variable off the queue, evaluates the formulas
that depend on it and lets the variables that changed wait behind the others.
What the evaluations report is left open here: whatever it is, every round
takes more from a measure of the queue than it evaluates formulas, so the loop
ends. The variables that waited, in their order, determine which formulas were
evaluated and how often.
-/

namespace ProcessDisplay.Engine

variable {C : FormulaCompiler} {R : ScriptInterpreter}

namespace State

/-- The formulas that depend on a variable. -/
def formulasOn (s : State C) (p : VariableId) : List Nat := formulasOf (s.triggers.dependents p)

/-- The variables that some evaluations reported as changed, in order. -/
def outputs (s : State C) (runs : List FormulaRun) : List VariableId :=
  runs.filterMap fun run => if run.changed then s.computed? run.formula else none

/-- A round: the formulas that depend on the first waiting variable were
evaluated, and the variables that changed wait behind the others. -/
inductive Round (s : State C) : List VariableId → List FormulaRun → List VariableId → Prop where
  /-- The evaluations are those of the formulas; what they report is open. -/
  | mk (first : VariableId) (rest : List VariableId) {runs : List FormulaRun}
    (h : runs.map FormulaRun.formula = s.formulasOn first) :
    Round s (first :: rest) runs (rest ++ s.outputs runs)

/-- Rounds one after another. -/
inductive Rounds (s : State C) : List VariableId → List FormulaRun → List VariableId → Prop where
  /-- No round. -/
  | refl (queue : List VariableId) : Rounds s queue [] queue
  /-- One round and those that follow it. -/
  | head {queue queue₁ last : List VariableId} {runs more : List FormulaRun}
    (h : Round s queue runs queue₁) (hrest : Rounds s queue₁ more last) :
    Rounds s queue (runs ++ more) last

/-- A formula computes one variable from another one. -/
def Feeds (s : State C) (p q : VariableId) : Prop :=
  ∃ unit ∈ s.formulas, p ∈ unit.parameters ∧ unit.variableId = q

variable {s s' : State C}

@[simp] theorem outputs_append (s : State C) (runs more : List FormulaRun) :
    s.outputs (runs ++ more) = s.outputs runs ++ s.outputs more :=
  List.filterMap_append

/-- A reported variable is that of a formula that was evaluated. -/
theorem mem_outputs {runs : List FormulaRun} {q : VariableId} :
    q ∈ s.outputs runs ↔
      ∃ run ∈ runs, run.changed = true ∧ s.computed? run.formula = some q := by
  simp only [outputs, List.mem_filterMap, Option.ite_none_right_eq_some]

/-- The formulas that depend on a variable are those with it among their parameters. -/
theorem WellFormed.mem_formulasOn (hs : s.WellFormed) {id : Nat} {unit : FormulaUnit C}
    (hunit : s.formulas[id]? = some unit) {p : VariableId} :
    id ∈ s.formulasOn p ↔ p ∈ unit.parameters := by
  have hedge := hs.dependents id unit hunit p
  rw [formulasOn, mem_formulasOf, TriggerGraph.mem_dependents]
  exact hedge

/-- A formula that depends on a variable is registered. -/
theorem WellFormed.of_mem_formulasOn (hs : s.WellFormed) {id : Nat} {p : VariableId}
    (hid : id ∈ s.formulasOn p) : ∃ unit, s.formulas[id]? = some unit ∧ p ∈ unit.parameters := by
  have hedge := TriggerGraph.mem_dependents.mp (mem_formulasOf.mp hid)
  have hrange : id < s.formulas.length := (hs.ends _ hedge).2
  have hunit : s.formulas[id]? = some s.formulas[id] := List.getElem?_eq_getElem hrange
  exact ⟨s.formulas[id], hunit, (hs.mem_formulasOn hunit).mp hid⟩

namespace SameShape

/-- The same formulas depend on a variable. -/
theorem formulasOn (h : SameShape s s') (p : VariableId) : s'.formulasOn p = s.formulasOn p := by
  rw [State.formulasOn, State.formulasOn, h.triggers]

/-- The same variables are reported. -/
theorem outputs (h : SameShape s s') (runs : List FormulaRun) :
    s'.outputs runs = s.outputs runs := by
  unfold State.outputs
  exact List.filterMap_congr fun run _ => by rw [h.computed? run.formula]

/-- A round of one state is a round of a state of the same shape. -/
theorem round (h : SameShape s s') {queue last : List VariableId} {runs : List FormulaRun}
    (hround : s'.Round queue runs last) : s.Round queue runs last := by
  cases hround with
  | mk first rest hruns =>
    rw [h.formulasOn] at hruns
    rw [h.outputs]
    exact .mk first rest hruns

/-- Rounds of one state are rounds of a state of the same shape. -/
theorem rounds (h : SameShape s s') {queue last : List VariableId} {runs : List FormulaRun}
    (hrounds : s'.Rounds queue runs last) : s.Rounds queue runs last := by
  induction hrounds with
  | refl queue => exact .refl queue
  | head hround _ ih => exact .head (h.round hround) ih

end SameShape

/-- The formulas that depend on a variable count, together with what they
report, for less than the variable does. -/
theorem WellFormed.formulasOn_bound (hs : s.WellFormed) {first : VariableId}
    {runs : List FormulaRun} (hruns : runs.map FormulaRun.formula = s.formulasOn first) :
    runs.length + Propagation.bound s (s.outputs runs) <
      Nat.pow (s.formulas.length + 1) (s.vars.length - first) := by
  have hlength : runs.length = (s.formulasOn first).length := by
    rw [← hruns, List.length_map]
  have hle : (s.formulasOn first).length ≤ s.formulas.length :=
    Propagation.length_dependents_le hs first
  have hfewer : (s.outputs runs).length ≤ runs.length := List.length_filterMap_le _ _
  have hyounger : ∀ q ∈ s.outputs runs, first < q ∧ q < s.vars.length := by
    intro q hq
    obtain ⟨run, hrun, -, hcomputed⟩ := mem_outputs.mp hq
    have hid : run.formula ∈ s.formulasOn first := by
      rw [← hruns]
      exact List.mem_map_of_mem hrun
    exact Propagation.younger_of_dependent hs hid hcomputed
  have heach := Propagation.bound_le_of_younger (s := s) fun q hq => (hyounger q hq).1
  cases hids : s.formulasOn first with
  | nil =>
    have hnone : runs = [] := List.length_eq_zero_iff.mp (by rw [hlength, hids, List.length_nil])
    subst hnone
    exact Nat.pow_pos (Nat.succ_pos _)
  | cons id rest =>
    -- a formula depends on the variable and computes a younger one, so there is a power to spare
    have hid : id ∈ s.formulasOn first := by
      rw [hids]
      exact List.mem_cons_self
    obtain ⟨unit, hunit, hparameter⟩ := hs.of_mem_formulasOn hid
    have hmember := List.mem_of_getElem? hunit
    have hfirst : first < unit.variableId := hs.parameters unit hmember first hparameter
    have hlast : unit.variableId < s.vars.length := hs.formulas.lt (List.mem_map_of_mem hmember)
    have hdeep : 2 ≤ s.vars.length - first :=
      Nat.le_sub_of_add_le' (Nat.lt_of_le_of_lt hfirst hlast)
    obtain ⟨depth, hdepth⟩ : ∃ depth, s.vars.length - first = depth + 1 + 1 :=
      ⟨s.vars.length - first - 2, (Nat.sub_add_cancel hdeep).symm⟩
    have hpower : s.formulas.length + 1 ≤ Nat.pow (s.formulas.length + 1) (depth + 1) :=
      Nat.le_self_pow (Nat.succ_ne_zero depth) _
    rw [hdepth, Nat.add_sub_cancel] at heach
    rw [hdepth]
    change _ < Nat.pow (s.formulas.length + 1) (depth + 1) * (s.formulas.length + 1)
    generalize Nat.pow (s.formulas.length + 1) (depth + 1) = power at *
    have hfactor : (s.outputs runs).length * power ≤ s.formulas.length * power :=
      Nat.mul_le_mul_right power (by omega)
    rw [Nat.mul_succ, Nat.mul_comm power]
    omega

/-- A round takes more from what the queue counts for than it evaluates formulas. -/
theorem Round.bound_lt (hs : s.WellFormed) {queue last : List VariableId}
    {runs : List FormulaRun} (h : s.Round queue runs last) :
    runs.length + Propagation.bound s last < Propagation.bound s queue := by
  cases h with
  | mk first rest hruns =>
    have hless := hs.formulasOn_bound hruns
    rw [Propagation.bound_append]
    change _ < Nat.pow _ _ + Propagation.bound s rest
    omega

/-- Rounds take at least as much from what the queue counts for as they
evaluate formulas. -/
theorem Rounds.bound_le (hs : s.WellFormed) {queue last : List VariableId}
    {runs : List FormulaRun} (h : s.Rounds queue runs last) :
    runs.length + Propagation.bound s last ≤ Propagation.bound s queue := by
  induction h with
  | refl queue => exact Nat.le_of_eq (Nat.zero_add _)
  | head hround _ ih =>
    have hless := hround.bound_lt hs
    rw [List.length_append]
    omega

/-- There is no endless sequence of rounds. -/
theorem WellFormed.wellFounded_round (hs : s.WellFormed) :
    WellFounded fun last queue => ∃ runs, s.Round queue runs last := by
  refine Subrelation.wf ?_ (measure (Propagation.bound s)).wf
  rintro last queue ⟨runs, hround⟩
  have hless := hround.bound_lt hs
  exact Nat.lt_of_le_of_lt (Nat.le_add_left _ _) hless

/-- The variables that were taken off the queue, in order, are those that
waited and those that joined, and their formulas were evaluated in this order. -/
theorem Rounds.served {queue last : List VariableId} {runs : List FormulaRun}
    (h : s.Rounds queue runs last) : ∃ served, queue ++ s.outputs runs = served ++ last ∧
      runs.map FormulaRun.formula = served.flatMap s.formulasOn := by
  induction h with
  | refl queue => exact ⟨[], by simp [outputs], rfl⟩
  | head hround _ ih =>
    cases hround with
    | mk first rest hruns =>
      obtain ⟨served, hqueue, hmore⟩ := ih
      refine ⟨first :: served, ?_, ?_⟩
      · rw [outputs_append, List.cons_append, List.cons_append, ← hqueue, List.append_assoc]
      · rw [List.map_append, hruns, hmore, List.flatMap_cons]

/-- Once nothing waits, every variable that waited at the start has been served. -/
theorem Rounds.serves {queue : List VariableId} {runs : List FormulaRun}
    (h : s.Rounds queue runs []) {q : VariableId} (hq : q ∈ queue) {id : Nat}
    (hid : id ∈ s.formulasOn q) : ∃ run ∈ runs, run.formula = id := by
  obtain ⟨served, hqueue, hmap⟩ := h.served
  have hserved : q ∈ served := by
    rw [List.append_nil] at hqueue
    rw [← hqueue]
    exact List.mem_append_left _ hq
  have hmem : id ∈ runs.map FormulaRun.formula := by
    rw [hmap]
    exact List.mem_flatMap.mpr ⟨q, hserved, hid⟩
  exact List.mem_map.mp hmem

/-- A formula that depends on a variable is evaluated after every evaluation
that reported the variable as changed. -/
def FollowedUp (s : State C) : List FormulaRun → Prop
  | [] => True
  | run :: after =>
    (∀ q, run.changed = true → s.computed? run.formula = some q →
      ∀ id ∈ s.formulasOn q, ∃ later ∈ after, later.formula = id) ∧ s.FollowedUp after

/-- Evaluations are followed up if those behind them are and what they report
is served behind them. -/
theorem followedUp_append {runs more : List FormulaRun} (hmore : s.FollowedUp more)
    (hserved : ∀ q ∈ s.outputs runs, ∀ id ∈ s.formulasOn q, ∃ run ∈ more, run.formula = id) :
    s.FollowedUp (runs ++ more) := by
  induction runs with
  | nil => exact hmore
  | cons run rest ih =>
    have hrest : ∀ q ∈ s.outputs rest, ∀ id ∈ s.formulasOn q, ∃ run ∈ more, run.formula = id := by
      intro q hq
      refine hserved q ?_
      rw [← List.singleton_append, outputs_append]
      exact List.mem_append_right _ hq
    refine ⟨fun q hchanged hcomputed id hid => ?_, ih hrest⟩
    have hq : q ∈ s.outputs (run :: rest) :=
      mem_outputs.mpr ⟨run, List.mem_cons_self, hchanged, hcomputed⟩
    obtain ⟨later, hlater, hformula⟩ := hserved q hq id hid
    exact ⟨later, List.mem_append_right _ hlater, hformula⟩

/-- Once nothing waits, all evaluations have been followed up. -/
theorem Rounds.followedUp {queue : List VariableId} {runs : List FormulaRun}
    (h : s.Rounds queue runs []) : s.FollowedUp runs := by
  generalize hlast : ([] : List VariableId) = last at h
  induction h with
  | refl queue => exact trivial
  | head hround hrest ih =>
    subst hlast
    cases hround with
    | mk first rest hruns =>
      exact followedUp_append (ih rfl) fun q hq id hid =>
        hrest.serves (List.mem_append_right _ hq) hid

/-- A variable that rounds report is the variable of a formula and is reached
from a variable that waited at their start. -/
theorem Rounds.reaches (hs : s.WellFormed) {queue last : List VariableId}
    {runs : List FormulaRun} (h : s.Rounds queue runs last) {q : VariableId}
    (hq : q ∈ s.outputs runs) : ∃ start ∈ queue, Relation.TransGen s.Feeds start q := by
  induction h with
  | refl queue => cases hq
  | @head queue queue₁ last runs more hround _ ih =>
    cases hround with
    | mk first rest hruns =>
      have hround : ∀ p ∈ s.outputs runs, s.Feeds first p := by
        intro p hp
        obtain ⟨run, hrun, -, hcomputed⟩ := mem_outputs.mp hp
        have hid : run.formula ∈ s.formulasOn first := by
          rw [← hruns]
          exact List.mem_map_of_mem hrun
        obtain ⟨unit, hunit, hparameter⟩ := hs.of_mem_formulasOn hid
        rw [computed?, hunit] at hcomputed
        exact ⟨unit, List.mem_of_getElem? hunit, hparameter, Option.some.inj hcomputed⟩
      rw [outputs_append] at hq
      rcases List.mem_append.mp hq with hnow | hlater
      · exact ⟨first, List.mem_cons_self, .single (hround q hnow)⟩
      · obtain ⟨start, hstart, hpath⟩ := ih hlater
        rcases List.mem_append.mp hstart with hwaiting | hnew
        · exact ⟨start, List.mem_cons_of_mem _ hwaiting, hpath⟩
        · exact ⟨first, List.mem_cons_self, .head (hround start hnew) hpath⟩

end State

namespace Propagation

/-- A visit puts the variable that it reports at the end of the queue. -/
theorem visit_outputs {p p' : Propagation C R} {id : Nat} (hs : p.engine.state.WellFormed)
    (h : p.visit id = .done p') : ∃ run : FormulaRun, run.formula = id ∧
      p'.runs = p.runs ++ [run] ∧ p'.queue = p.queue ++ p.engine.state.outputs [run] := by
  cases hunit : p.engine.state.formulas[id]? with
  | none =>
    rw [visit_of_none hunit h]
    exact ⟨⟨id, false⟩, rfl, rfl, by simp [State.outputs]⟩
  | some unit =>
    obtain ⟨v, hv, -⟩ := hs.of_formula hunit
    obtain ⟨f, w, errors, changed, -, rfl⟩ := visit_spec hunit hv h
    have hcomputed : p.engine.state.computed? id = some unit.variableId := by
      rw [State.computed?, hunit]
      rfl
    refine ⟨⟨id, changed⟩, rfl, rfl, ?_⟩
    cases changed with
    | true => simp [afterVisit, State.outputs, hcomputed]
    | false => simp [afterVisit, State.outputs]

/-- Visits put the variables that they report at the end of the queue. -/
theorem visitAll_outputs {ids : List Nat} {p p' : Propagation C R}
    (hs : p.engine.state.WellFormed) (h : p.visitAll ids = .done p') :
    ∃ more : List FormulaRun, more.map FormulaRun.formula = ids ∧
      p'.runs = p.runs ++ more ∧ p'.queue = p.queue ++ p.engine.state.outputs more := by
  induction ids generalizing p with
  | nil =>
    obtain rfl := Outcome.done.inj h
    exact ⟨[], rfl, by simp, by simp [State.outputs]⟩
  | cons id rest ih =>
    obtain ⟨p₁, hvisit, hrest⟩ := Outcome.bind_eq_done_iff.mp h
    have hleads := visit_leads hs hvisit
    obtain ⟨run, hformula, hruns, hqueue⟩ := visit_outputs hs hvisit
    obtain ⟨more, hids, hmore, hlater⟩ := ih (hleads.wellFormed hs) hrest
    refine ⟨run :: more, ?_, ?_, ?_⟩
    · rw [List.map_cons, hformula, hids]
    · rw [hmore, hruns, List.append_assoc, List.singleton_append]
    · rw [hlater, hqueue, hleads.shape.outputs, List.append_assoc,
        ← State.outputs_append, List.singleton_append]

/-- The loop goes through rounds. -/
theorem settle_rounds {n : Nat} {p p' : Propagation C R} (hs : p.engine.state.WellFormed)
    (h : p.settle n = .done p') : ∃ more : List FormulaRun, p'.runs = p.runs ++ more ∧
      p.engine.state.Rounds p.queue more p'.queue := by
  induction n generalizing p with
  | zero =>
    obtain rfl := Outcome.done.inj h
    exact ⟨[], by simp, .refl _⟩
  | succ n ih =>
    rw [settle] at h
    split at h
    · obtain rfl := Outcome.done.inj h
      exact ⟨[], by simp, .refl _⟩
    · next first rest hqueue =>
      obtain ⟨p₁, hadvance, hrest⟩ := Outcome.bind_eq_done_iff.mp h
      have hleads := advance_leads hs hadvance
      obtain ⟨runs, hids, hruns, hwaiting⟩ :=
        visitAll_outputs (p := { p with queue := rest }) hs hadvance
      obtain ⟨more, hmore, hrounds⟩ := ih (hleads.wellFormed hs) hrest
      refine ⟨runs ++ more, by rw [hmore, hruns, List.append_assoc], ?_⟩
      have hround : p.engine.state.Round (first :: rest) runs p₁.queue := by
        rw [hwaiting]
        exact .mk first rest hids
      rw [hqueue]
      exact .head hround (hleads.shape.rounds hrounds)

/-- A propagation that returns goes through rounds until nothing waits. -/
theorem propagate_rounds {e : Engine C R} {dirty : VariableSet} {p : Propagation C R}
    (hs : e.state.WellFormed) (h : propagate e dirty = .done p) :
    e.state.Rounds dirty p.runs [] := by
  obtain ⟨more, hruns, hrounds⟩ := settle_rounds (p := begin e dirty) hs h
  have hempty := (propagate_spec hs h).2
  rw [hempty] at hrounds
  rw [hruns]
  exact hrounds

end Propagation

end ProcessDisplay.Engine
