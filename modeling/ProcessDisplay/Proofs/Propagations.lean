import Mathlib.Data.List.Perm.Subperm
import Mathlib.Tactic.Common
import ProcessDisplay.Proofs.WellFormedSteps

/-!
# Propagation step by step

Propagation visits formulas one after another. A visit evaluates one formula
and, where its variable changed, adds the variable to the queue and to the
dirty variables. Every variable that moved is dirty, and what is dirty was so
at the start or is the variable of a formula that reported a change. Formulas
read older variables, so the queue runs empty within the bound of the loop.
-/

namespace ProcessDisplay.Engine

variable {C : FormulaCompiler} {R : ScriptInterpreter}

/-- The variable that the formula at a position computes. -/
def State.computed? (s : State C) (id : Nat) : Option VariableId :=
  s.formulas[id]?.map FormulaUnit.variableId

/-- The same variables are computed by the formulas at the same positions. -/
theorem State.SameShape.computed? {s s' : State C} (h : SameShape s s') (id : Nat) :
    s'.computed? id = s.computed? id := by
  have hmap := congrArg (fun l => (l[id]?).map Prod.fst) h.formulas
  simpa [State.computed?, List.getElem?_map, Function.comp_def] using hmap

/-- The variable of a formula in a well-formed registry. -/
theorem State.WellFormed.of_formula {s : State C} (h : s.WellFormed) {id : Nat}
    {unit : FormulaUnit C} (hunit : s.formulas[id]? = some unit) :
    ∃ v, s.vars[unit.variableId]? = some v ∧ v.kind = .formula := by
  rw [← h.formulas.mem_iff]
  exact List.mem_map_of_mem (List.mem_of_getElem? hunit)

namespace Propagation

/-- A propagation after the evaluation of a formula. -/
def afterVisit (p : Propagation C R) (id : Nat) (unit : FormulaUnit C) (f : C.Formula)
    (w : Variable) (errors : List UnitFailure) (changed : Bool) : Propagation C R :=
  { engine := afterEvaluation p.engine id unit f w errors
    queue := if changed then p.queue ++ [unit.variableId] else p.queue
    dirty := if changed then p.dirty.add unit.variableId else p.dirty
    runs := p.runs ++ [⟨id, changed⟩] }

/-- A visit of a formula, taken apart. -/
theorem visit_spec {p p' : Propagation C R} {id : Nat} {unit : FormulaUnit C} {v : Variable}
    (hunit : p.engine.state.formulas[id]? = some unit)
    (hv : p.engine.state.vars[unit.variableId]? = some v) (h : p.visit id = .done p') :
    ∃ f w errors changed, Evaluation p.engine unit v f w changed ∧
      p' = p.afterVisit id unit f w errors changed := by
  obtain ⟨⟨changed, engine⟩, heval, h⟩ := Outcome.bind_eq_done_iff.mp h
  obtain ⟨f, w, errors, hdone, rfl⟩ := evaluateFormula_spec hunit hv heval
  have hid : id < p.engine.state.formulas.length := (List.getElem?_eq_some_iff.mp hunit).1
  have hafter : (afterEvaluation p.engine id unit f w errors).state.formulas[id]? =
      some { unit with formula := f } := by
    simp [afterEvaluation, hid]
  simp only [hafter] at h
  refine ⟨f, w, errors, changed, hdone, ?_⟩
  cases changed with
  | true =>
    obtain rfl := Outcome.done.inj h
    rfl
  | false =>
    obtain rfl := Outcome.done.inj h
    rfl

/-- A visit of a formula that is not there. -/
theorem visit_of_none {p p' : Propagation C R} {id : Nat}
    (hunit : p.engine.state.formulas[id]? = none) (h : p.visit id = .done p') :
    p' = { p with runs := p.runs ++ [⟨id, false⟩] } := by
  obtain ⟨⟨changed, engine⟩, heval, h⟩ := Outcome.bind_eq_done_iff.mp h
  rw [evaluateFormula_of_none hunit] at heval
  obtain ⟨rfl, rfl⟩ : false = changed ∧ p.engine = engine := by simpa using heval
  simp only [hunit] at h
  exact (Outcome.done.inj h).symm

/-- What one propagation leads to: formulas are evaluated, and every variable
that moved is dirty. -/
structure Leads (p p' : Propagation C R) : Prop where
  /-- Only contents change. -/
  shape : State.SameShape p.engine.state p'.engine.state
  /-- Of the engine only variables, compiled formulas and failures change. -/
  frame : p'.engine =
    { p.engine with
      state :=
        { p.engine.state with
          vars := p'.engine.state.vars, formulas := p'.engine.state.formulas }
      errors := p'.engine.errors }
  /-- Variables that moved are dirty. -/
  moves : Moves p.engine.state.vars p'.engine.state.vars (· ∈ p'.dirty)
  /-- Only formula variables change. -/
  others : ∀ (i : VariableId) (v : Variable), p.engine.state.vars[i]? = some v →
    v.kind ≠ .formula → p'.engine.state.vars[i]? = some v
  /-- What became dirty is the variable of a formula that reported a change. -/
  dirty : ∃ more, p'.runs = p.runs ++ more ∧ ∀ q, q ∈ p'.dirty ↔ q ∈ p.dirty ∨
    ∃ run ∈ more, run.changed = true ∧ p.engine.state.computed? run.formula = some q

namespace Leads

theorem refl (p : Propagation C R) : Leads p p :=
  ⟨.refl _, rfl, .refl _ _, fun _ _ hv _ => hv, [], by simp, by simp⟩

theorem trans {p p' p'' : Propagation C R} (h : Leads p p') (h' : Leads p' p'') :
    Leads p p'' := by
  obtain ⟨more, hruns, hdirty⟩ := h.dirty
  obtain ⟨more', hruns', hdirty'⟩ := h'.dirty
  refine ⟨h.shape.trans h'.shape, ?_, ?_, ?_, more ++ more', ?_, ?_⟩
  · rw [h'.frame, h.frame]
  · refine (h.moves.mono fun q hq => ?_).trans h'.moves
    exact (hdirty' q).mpr (Or.inl hq)
  · intro i v hv hk
    exact h'.others i v (h.others i v hv hk) hk
  · rw [hruns', hruns, List.append_assoc]
  · intro q
    rw [hdirty', hdirty]
    simp only [h.shape.computed?, List.mem_append]
    constructor
    · rintro ((hq | ⟨run, hrun, hchanged⟩) | ⟨run, hrun, hchanged⟩)
      · exact Or.inl hq
      · exact Or.inr ⟨run, Or.inl hrun, hchanged⟩
      · exact Or.inr ⟨run, Or.inr hrun, hchanged⟩
    · rintro (hq | ⟨run, hrun | hrun, hchanged⟩)
      · exact Or.inl (Or.inl hq)
      · exact Or.inl (Or.inr ⟨run, hrun, hchanged⟩)
      · exact Or.inr ⟨run, hrun, hchanged⟩

/-- A propagation keeps the registry well-formed. -/
theorem wellFormed {p p' : Propagation C R} (h : Leads p p') (hs : p.engine.state.WellFormed) :
    p'.engine.state.WellFormed := by
  have hpending : p'.engine.state.pending = p.engine.state.pending := by rw [h.frame]
  have hfresh : p'.engine.state.fresh = p.engine.state.fresh := by rw [h.frame]
  refine hs.of_sameShape h.shape ?_ ?_ ?_
  · rw [hpending]
    exact hs.pending
  · rw [hpending]
    exact hs.ascending
  · rw [hfresh]

end Leads

/-- The queue does not belong to what a propagation leads to. -/
theorem leads_queue (p : Propagation C R) (queue : List VariableId) :
    Leads p { p with queue } :=
  ⟨.refl _, rfl, .refl _ _, fun _ _ hv _ => hv, [], by simp, by simp⟩

/-- One visit evaluates one formula. -/
theorem visit_leads {p p' : Propagation C R} {id : Nat} (hs : p.engine.state.WellFormed)
    (h : p.visit id = .done p') : Leads p p' := by
  cases hunit : p.engine.state.formulas[id]? with
  | none =>
    rw [visit_of_none hunit h]
    exact ⟨.refl _, rfl, .refl _ _, fun _ _ hv _ => hv, [⟨id, false⟩], rfl, by simp⟩
  | some unit =>
    obtain ⟨v, hv, hkind⟩ := hs.of_formula hunit
    obtain ⟨f, w, errors, changed, heval, rfl⟩ := visit_spec hunit hv h
    refine ⟨sameShape_afterEvaluation hunit hv heval.becomes f errors, rfl, ?_, ?_,
      [⟨id, changed⟩], rfl, ?_⟩
    · refine .set hv heval.becomes ?_
      rcases heval.reported with rfl | hagrees
      · exact Or.inl (VariableSet.mem_add.mpr (Or.inl rfl))
      · exact Or.inr hagrees
    · intro i u hu hk
      have hne : unit.variableId ≠ i := by
        rintro rfl
        obtain rfl := Option.some.inj (hv.symm.trans hu)
        exact hk hkind
      change (p.engine.state.vars.set unit.variableId w)[i]? = some u
      rw [List.getElem?_set_ne hne, hu]
    · intro q
      have hcomputed : p.engine.state.computed? id = some unit.variableId := by
        rw [State.computed?, hunit]
        rfl
      cases changed with
      | true =>
        change q ∈ p.dirty.add unit.variableId ↔ _
        simp only [VariableSet.mem_add, List.mem_singleton, exists_eq_left, hcomputed,
          Option.some.injEq, true_and]
        constructor
        · rintro (rfl | hq)
          · exact Or.inr rfl
          · exact Or.inl hq
        · rintro (hq | rfl)
          · exact Or.inr hq
          · exact Or.inl rfl
      | false => simp [afterVisit]

/-- Visits in order. -/
theorem visitAll_leads {ids : List Nat} {p p' : Propagation C R} (hs : p.engine.state.WellFormed)
    (h : p.visitAll ids = .done p') : Leads p p' := by
  induction ids generalizing p with
  | nil =>
    obtain rfl := Outcome.done.inj h
    exact .refl p
  | cons id rest ih =>
    obtain ⟨p₁, hvisit, hrest⟩ := Outcome.bind_eq_done_iff.mp h
    have hfirst := visit_leads hs hvisit
    exact hfirst.trans (ih (hfirst.wellFormed hs) hrest)

/-- The visits of the formulas of the first waiting variable. -/
theorem advance_leads {p p' : Propagation C R} {first : VariableId} {rest : List VariableId}
    (hs : p.engine.state.WellFormed) (h : p.advance first rest = .done p') : Leads p p' :=
  (leads_queue p rest).trans (visitAll_leads hs h)

/-- All rounds of the loop. -/
theorem settle_leads {bound : Nat} {p p' : Propagation C R} (hs : p.engine.state.WellFormed)
    (h : p.settle bound = .done p') : Leads p p' := by
  induction bound generalizing p with
  | zero =>
    obtain rfl := Outcome.done.inj h
    exact .refl p
  | succ bound ih =>
    rw [settle] at h
    split at h
    · obtain rfl := Outcome.done.inj h
      exact .refl p
    · obtain ⟨p₁, hadvance, hrest⟩ := Outcome.bind_eq_done_iff.mp h
      have hfirst := advance_leads hs hadvance
      exact hfirst.trans (ih (hfirst.wellFormed hs) hrest)

/-- Visits add to the queue at most one variable for each formula, which is
the variable of the formula. -/
theorem visitAll_queue {ids : List Nat} {p p' : Propagation C R} (hs : p.engine.state.WellFormed)
    (h : p.visitAll ids = .done p') : ∃ added, p'.queue = p.queue ++ added ∧
      added.length ≤ ids.length ∧
      ∀ a ∈ added, ∃ id ∈ ids, p.engine.state.computed? id = some a := by
  induction ids generalizing p with
  | nil =>
    obtain rfl := Outcome.done.inj h
    exact ⟨[], by simp, by simp, by simp⟩
  | cons id rest ih =>
    obtain ⟨p₁, hvisit, hrest⟩ := Outcome.bind_eq_done_iff.mp h
    have hleads := visit_leads hs hvisit
    obtain ⟨added, hqueue, hlength, hall⟩ := ih (hleads.wellFormed hs) hrest
    have hrest' : ∀ a ∈ added, ∃ id' ∈ id :: rest, p.engine.state.computed? id' = some a := by
      intro a ha
      obtain ⟨id', hid', hcomputed⟩ := hall a ha
      rw [hleads.shape.computed?] at hcomputed
      exact ⟨id', List.mem_cons_of_mem _ hid', hcomputed⟩
    cases hunit : p.engine.state.formulas[id]? with
    | none =>
      rw [visit_of_none hunit hvisit] at hqueue
      exact ⟨added, hqueue, Nat.le_succ_of_le hlength, hrest'⟩
    | some unit =>
      obtain ⟨v, hv, -⟩ := hs.of_formula hunit
      obtain ⟨f, w, errors, changed, -, rfl⟩ := visit_spec hunit hv hvisit
      cases changed with
      | false => exact ⟨added, hqueue, Nat.le_succ_of_le hlength, hrest'⟩
      | true =>
        refine ⟨unit.variableId :: added, ?_, Nat.succ_le_succ hlength, ?_⟩
        · rw [hqueue]
          simp [afterVisit]
        · intro a ha
          rcases List.mem_cons.mp ha with rfl | ha
          · refine ⟨id, List.mem_cons_self, ?_⟩
            rw [State.computed?, hunit]
            rfl
          · exact hrest' a ha

/-- What the queue counts for when more variables wait. -/
theorem bound_append (s : State C) (queue more : List VariableId) :
    bound s (queue ++ more) = bound s queue + bound s more := by
  induction queue with
  | nil => simp [bound]
  | cons id rest ih =>
    simp only [bound, List.cons_append, List.foldr_cons] at ih ⊢
    omega

/-- Variables that are all younger than another one count for at most one
power less each. -/
theorem bound_le_of_younger {s : State C} {first : VariableId} {queue : List VariableId}
    (hyounger : ∀ q ∈ queue, first < q) : bound s queue ≤
      queue.length * Nat.pow (s.formulas.length + 1) (s.vars.length - first - 1) := by
  induction queue with
  | nil => simp [bound]
  | cons q rest ih =>
    have hq := hyounger q List.mem_cons_self
    have hrest := ih fun r hr => hyounger r (List.mem_cons_of_mem _ hr)
    have hpow : Nat.pow (s.formulas.length + 1) (s.vars.length - q) ≤
        Nat.pow (s.formulas.length + 1) (s.vars.length - first - 1) := by
      refine Nat.pow_le_pow_right (Nat.succ_pos _) ?_
      rw [Nat.sub_sub]
      exact Nat.sub_le_sub_left hq _
    rw [List.length_cons, Nat.succ_mul, Nat.add_comm]
    exact Nat.add_le_add hpow hrest

/-- Variables that are all younger than another one count for less than it,
if they are at most as many as the formulas. -/
theorem bound_younger {s : State C} {first : VariableId} {queue : List VariableId}
    (hlength : queue.length ≤ s.formulas.length)
    (hyounger : ∀ q ∈ queue, first < q ∧ q < s.vars.length) :
    bound s queue < Nat.pow (s.formulas.length + 1) (s.vars.length - first) := by
  -- each of them counts for at most one power less, and there is one more factor than variables
  have heach : bound s queue ≤
      queue.length * Nat.pow (s.formulas.length + 1) (s.vars.length - first - 1) :=
    bound_le_of_younger fun q hq => (hyounger q hq).1
  by_cases hempty : queue = []
  · subst hempty
    exact Nat.pow_pos (Nat.succ_pos _)
  · obtain ⟨q, hq⟩ := List.exists_mem_of_ne_nil queue hempty
    have hrange := hyounger q hq
    have hsplit : s.vars.length - first = s.vars.length - first - 1 + 1 :=
      (Nat.sub_add_cancel (Nat.sub_pos_of_lt (Nat.lt_trans hrange.1 hrange.2))).symm
    have hpos : 0 < Nat.pow (s.formulas.length + 1) (s.vars.length - first - 1) :=
      Nat.pow_pos (Nat.succ_pos _)
    rw [hsplit]
    change _ < Nat.pow (s.formulas.length + 1) (s.vars.length - first - 1) *
      (s.formulas.length + 1)
    generalize Nat.pow (s.formulas.length + 1) (s.vars.length - first - 1) = power at *
    calc bound s queue ≤ queue.length * power := heach
      _ ≤ s.formulas.length * power := Nat.mul_le_mul_right power hlength
      _ = power * s.formulas.length := Nat.mul_comm _ _
      _ < power * s.formulas.length + power := Nat.lt_add_of_pos_right hpos

/-- What the queue counts for depends on the sizes only. -/
theorem bound_of_sameShape {s s' : State C} (h : State.SameShape s s') (queue : List VariableId) :
    bound s' queue = bound s queue := by
  unfold bound
  rw [h.formulas_length, h.length]

/-- A formula that a variable triggers computes a younger variable. -/
theorem younger_of_dependent {s : State C} (hs : s.WellFormed) {first a : VariableId} {id : Nat}
    (hid : id ∈ formulasOf (s.triggers.dependents first)) (ha : s.computed? id = some a) :
    first < a ∧ a < s.vars.length := by
  obtain ⟨unit, hunit, rfl⟩ := Option.map_eq_some_iff.mp ha
  have hedge := TriggerGraph.mem_dependents.mp (mem_formulasOf.mp hid)
  have hparameter := (hs.dependents id unit hunit first).mp hedge
  have hmember := List.mem_of_getElem? hunit
  exact ⟨hs.parameters unit hmember first hparameter,
    hs.formulas.lt (List.mem_map_of_mem hmember)⟩

/-- No more formulas are triggered than there are. -/
theorem length_dependents_le {s : State C} (hs : s.WellFormed) (first : VariableId) :
    (formulasOf (s.triggers.dependents first)).length ≤ s.formulas.length := by
  have hnodup := nodup_formulasOf (TriggerGraph.nodup_dependents hs.edges first)
  have hsubset : formulasOf (s.triggers.dependents first) ⊆ List.range s.formulas.length := by
    intro id hid
    have hedge := TriggerGraph.mem_dependents.mp (mem_formulasOf.mp hid)
    exact List.mem_range.mpr (hs.ends _ hedge).2
  have hle := (List.subperm_of_subset hnodup hsubset).length_le
  rw [List.length_range] at hle
  exact hle

/-- Every round makes the queue count for less. -/
theorem advance_bound {p p' : Propagation C R} {first : VariableId} {rest : List VariableId}
    (hs : p.engine.state.WellFormed) (hqueue : p.queue = first :: rest)
    (h : p.advance first rest = .done p') :
    bound p'.engine.state p'.queue < bound p.engine.state p.queue := by
  obtain ⟨added, hadded, hlength, hall⟩ :=
    visitAll_queue (p := { p with queue := rest }) hs h
  have hyounger : bound p.engine.state added <
      Nat.pow (p.engine.state.formulas.length + 1) (p.engine.state.vars.length - first) := by
    refine bound_younger (Nat.le_trans hlength (length_dependents_le hs first)) ?_
    intro a ha
    obtain ⟨id, hid, hcomputed⟩ := hall a ha
    exact younger_of_dependent hs hid hcomputed
  rw [bound_of_sameShape (advance_leads hs h).shape, hadded, bound_append, hqueue]
  change bound p.engine.state rest + bound p.engine.state added <
    Nat.pow _ _ + bound p.engine.state rest
  rw [Nat.add_comm]
  exact Nat.add_lt_add_right hyounger _

/-- A queue that counts for nothing is empty. -/
theorem eq_nil_of_bound {s : State C} {queue : List VariableId} (h : bound s queue = 0) :
    queue = [] := by
  cases queue with
  | nil => rfl
  | cons first rest =>
    have hpos : 0 < Nat.pow (s.formulas.length + 1) (s.vars.length - first) :=
      Nat.pow_pos (Nat.succ_pos _)
    simp only [bound, List.foldr_cons] at h
    omega

/-- The loop empties the queue within its bound. -/
theorem settle_queue {n : Nat} {p p' : Propagation C R} (hs : p.engine.state.WellFormed)
    (hbound : bound p.engine.state p.queue ≤ n) (h : p.settle n = .done p') : p'.queue = [] := by
  induction n generalizing p with
  | zero =>
    obtain rfl := Outcome.done.inj h
    exact eq_nil_of_bound (Nat.le_zero.mp hbound)
  | succ n ih =>
    rw [settle] at h
    split at h
    · next hqueue =>
      obtain rfl := Outcome.done.inj h
      exact hqueue
    · next first rest hqueue =>
      obtain ⟨p₁, hadvance, hrest⟩ := Outcome.bind_eq_done_iff.mp h
      have hless := advance_bound hs hqueue hadvance
      exact ih ((advance_leads hs hadvance).wellFormed hs) (by omega) hrest

/-- A propagation that returns leads somewhere and leaves nothing waiting. -/
theorem propagate_spec {e : Engine C R} {dirty : VariableSet} {p : Propagation C R}
    (hs : e.state.WellFormed) (h : propagate e dirty = .done p) :
    Leads (begin e dirty) p ∧ p.queue = [] :=
  ⟨settle_leads (p := begin e dirty) hs h, settle_queue (p := begin e dirty) hs (Nat.le_refl _) h⟩

end Propagation

end ProcessDisplay.Engine
