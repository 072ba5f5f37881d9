import Mathlib.Tactic.Common
import ProcessDisplay.Proofs.Currency
import ProcessDisplay.Proofs.ExpressionContract
import ProcessDisplay.Proofs.Sessions

/-!
# Formula variables are up to date

Every change of a variable between two ticks is recorded as pending, and a
propagation starts from all of them. While it runs, the formulas that are
still to be evaluated for a variable of the queue are the only ones that may
be stale; when the queue is empty none is. So in every state that a display
can reach, a formula without a pending parameter shows the result of one
execution on the present values of its parameters.
-/

namespace ProcessDisplay.Engine

variable {C : FormulaCompiler} {R : ScriptInterpreter}

/-- The present state of a formula that was just created. -/
theorem tracks_inserted {e : Engine C R} {source : String} {formula f : C.Formula}
    {parameters : List VariableId} {w : Variable} {changed : Bool} {isStale : Prop} {s' : State C}
    (hs : e.state.WellFormed) (hcompiled : C.compile source = .ok formula)
    (hlocated : List.Forall₂ (fun name id => e.state.located name = some id)
      (C.parameters formula) parameters)
    (heval : Evaluation (e.withState (e.state.insertFormula source parameters formula))
      { variableId := e.state.nextId, parameters, formula }
      { name := "=" ++ source, kind := .formula } f w changed)
    (hvars : s'.vars = e.state.vars ++ [w]) :
    s'.Tracks { variableId := e.state.nextId, parameters, formula := f } isStale := by
  have hlt := hs.forall_located_lt hlocated
  have hinserted : ∀ p ∈ parameters,
      (e.state.insertFormula source parameters formula).vars[p]? = e.state.vars[p]? := by
    intro p hp
    exact List.getElem?_append_left (hlt p hp)
  have hplace : parameters =
      (C.parameters formula).map fun name => (e.state.located name).getD invalidId := by
    clear heval hvars hinserted hlt
    generalize C.parameters formula = names at hlocated
    induction hlocated with
    | nil => rfl
    | cons hfirst _ ih => rw [List.map_cons, hfirst, ← ih, Option.getD_some]
  have hself : (e.state.insertFormula source parameters formula).vars[e.state.nextId]? =
      some { name := "=" ++ source, kind := .formula } := by
    simp [State.insertFormula, State.addFormula, State.insertVariable, State.nextId]
  have hbefore : (e.state.insertFormula source parameters formula).Tracks
      { variableId := e.state.nextId, parameters, formula } True := by
    refine ⟨source, formula, _, ⟨hcompiled, hself, rfl, .compiled, ⟨_, hplace⟩,
      (hs.resolves hlocated).congr hinserted⟩, ?_⟩
    intro _
    exact ⟨fun _ => rfl, fun hfresh => absurd trivial hfresh⟩
  refine hbefore.of_evaluation (e := e.withState _) hself ?_ heval ?_ ?_
  · intro p hp
    obtain ⟨u, hu⟩ : ∃ u, e.state.vars[p]? = some u :=
      Option.isSome_iff_exists.mp (by simp [hlt p hp])
    exact ⟨u, (hinserted p hp).trans hu⟩
  · intro p hp
    rw [hvars]
    exact (List.getElem?_append_left (hlt p hp)).trans (hinserted p hp).symm
  · rw [hvars]
    exact getElem?_append_singleton.mpr (Or.inr ⟨rfl, rfl⟩)

/-- A small construction keeps the formulas, or adds one that follows its
parameters. -/
theorem ConstructionStep.formulas {e e' : Engine C R} (h : ConstructionStep e e')
    (hs : e.state.WellFormed) (isStale : Prop) (i : Nat) (unit : FormulaUnit C)
    (hunit : e'.state.formulas[i]? = some unit) :
    e.state.formulas[i]? = some unit ∨ e'.state.Tracks unit isStale := by
  cases h with
  | @createLocal key hkey hfree initializer =>
    rw [withState, State.createLocal_eq] at hunit
    cases initializer <;> exact Or.inl hunit
  | @redeclare key id hfound initializer =>
    rw [withState, State.formulas_redeclare] at hunit
    exact Or.inl hunit
  | attach hkey hfree generator => exact Or.inl hunit
  | @createFormula e₁ source formula parameters changed hkey hfree hcompiled hlocated heval =>
    obtain ⟨f, w, errors, hdone, rfl⟩ := evaluateFormula_inserted heval
    have hformulas : ∀ s : State C, (s.markIf changed e.state.nextId).formulas = s.formulas := by
      intro s
      cases changed <;> rfl
    rw [withState, hformulas] at hunit
    rcases getElem?_append_singleton.mp hunit with hold | ⟨-, rfl⟩
    · exact Or.inl hold
    · refine Or.inr (tracks_inserted hs hcompiled hlocated hdone ?_)
      exact State.markIf_vars _ _ _

/-- One kind of change keeps the formulas, or adds one that follows its
parameters. -/
theorem Primitive.formulas {e e' : Engine C R} (h : Primitive e e') (hs : e.state.WellFormed)
    (isStale : Prop) (i : Nat) (unit : FormulaUnit C)
    (hunit : e'.state.formulas[i]? = some unit) :
    e.state.formulas[i]? = some unit ∨ e'.state.Tracks unit isStale := by
  cases h with
  | construct h => exact h.formulas hs isStale i unit hunit
  | attach hfree generator => exact Or.inl hunit
  | write h =>
    obtain ⟨v, -, -, rfl⟩ := State.write_eq_ok_iff.mp h
    exact Or.inl hunit
  | redeclare id initializer =>
    rw [withState, State.formulas_redeclare] at hunit
    exact Or.inl hunit
  | aside h =>
    rw [h.eq] at hunit
    exact Or.inl hunit

/-- An evolution keeps all formulas up to date. -/
theorem Evolution.upToDate {e e' : Engine C R} (h : Evolution e e') (hs : e.state.WellFormed)
    (hup : e.state.UpToDate fun _ p => p ∈ e.state.pending) :
    e'.state.UpToDate fun _ p => p ∈ e'.state.pending := by
  induction h with
  | refl => exact hup
  | tail hchain hstep ih =>
    have hs₁ := Evolution.wellFormed hchain hs
    exact ih.of_records hs₁ (fun i unit => hstep.formulas hs₁ _ i unit) hstep.quiet.records

namespace Propagation

/-- Which formulas wait while the formulas at some positions are still to be
evaluated for a variable. -/
def Waits (p : Propagation C R) (first : VariableId) (remaining : List Nat) (i : Nat)
    (q : VariableId) : Prop := q ∈ p.queue ∨ q = first ∧ i ∈ remaining

section Visit

variable {p : Propagation C R} {first : VariableId} {id : Nat} {rest : List Nat}
  {unit : FormulaUnit C} {f : C.Formula} {v w : Variable} {changed : Bool}

/-- The formula of a visit is up to date after it. -/
theorem tracks_visited (hs : p.engine.state.WellFormed)
    (hup : p.engine.state.UpToDate (p.Waits first (id :: rest)))
    (hid : p.engine.state.formulas[id]? = some unit)
    (hv : p.engine.state.vars[unit.variableId]? = some v)
    (heval : Evaluation p.engine unit v f w changed) (errors : List UnitFailure) (isStale : Prop) :
    (p.afterVisit id unit f w errors changed).engine.state.Tracks { unit with formula := f }
      isStale := by
  have hmem := List.mem_of_getElem? hid
  refine (hup id unit hid).of_evaluation hv (hs.range_parameters hmem) heval ?_ ?_
  · intro q hq
    have holder := hs.parameters unit hmem q hq
    exact List.getElem?_set_ne (Nat.ne_of_gt holder)
  · exact List.getElem?_set_self (List.getElem?_eq_some_iff.mp hv).1

/-- The other formulas are as up to date after a visit as before; if the
visit changed its variable, they wait for it. -/
theorem tracks_unvisited (hs : p.engine.state.WellFormed)
    (hup : p.engine.state.UpToDate (p.Waits first (id :: rest)))
    (hid : p.engine.state.formulas[id]? = some unit)
    (hv : p.engine.state.vars[unit.variableId]? = some v)
    (heval : Evaluation p.engine unit v f w changed) (errors : List UnitFailure) {i : Nat}
    {other : FormulaUnit C} (hi : id ≠ i) (hother : p.engine.state.formulas[i]? = some other) :
    (p.afterVisit id unit f w errors changed).engine.state.Tracks other
      (∃ q ∈ other.parameters, (p.afterVisit id unit f w errors changed).Waits first rest i q) := by
  have hapart : unit.variableId ≠ other.variableId := fun hsame =>
    hi (hs.formula_unique hid hother hsame)
  have hmoves : Moves p.engine.state.vars (p.engine.state.vars.set unit.variableId w)
      fun q => changed = true ∧ q = unit.variableId :=
    .set hv heval.becomes (heval.reported.imp_left fun hchanged => ⟨hchanged, rfl⟩)
  have hrange := hs.range_parameters (List.mem_of_getElem? hother)
  refine (hup i other hother).of_moves hrange hmoves (List.getElem?_set_ne hapart) ?_
  rintro (⟨q, hq, hqueue | ⟨rfl, hmem⟩⟩ | ⟨q, hq, rfl, rfl⟩)
  · refine ⟨q, hq, Or.inl ?_⟩
    change q ∈ if changed then p.queue ++ [unit.variableId] else p.queue
    split
    · exact List.mem_append_left _ hqueue
    · exact hqueue
  · exact ⟨q, hq, Or.inr ⟨rfl, List.mem_of_ne_of_mem (Ne.symm hi) hmem⟩⟩
  · exact ⟨_, hq, Or.inl (List.mem_append_right _ List.mem_cons_self)⟩

end Visit

/-- A visit evaluates one formula, which then waits no more. -/
theorem visit_upToDate {p p' : Propagation C R} {first : VariableId} {id : Nat} {rest : List Nat}
    (hs : p.engine.state.WellFormed) (hup : p.engine.state.UpToDate (p.Waits first (id :: rest)))
    (h : p.visit id = .done p') : p'.engine.state.UpToDate (p'.Waits first rest) := by
  cases hid : p.engine.state.formulas[id]? with
  | none =>
    rw [visit_of_none hid h]
    intro i unit hunit
    have hne : i ≠ id := by
      rintro rfl
      rw [hid] at hunit
      cases hunit
    refine (hup i unit hunit).mono ?_
    rintro ⟨q, hq, hqueue | ⟨rfl, hi⟩⟩
    · exact ⟨q, hq, Or.inl hqueue⟩
    · exact ⟨q, hq, Or.inr ⟨rfl, List.mem_of_ne_of_mem hne hi⟩⟩
  | some unit =>
    obtain ⟨v, hv, hkind⟩ := hs.of_formula hid
    obtain ⟨f, w, errors, changed, heval, rfl⟩ := visit_spec hid hv h
    intro i other hother
    change (p.engine.state.formulas.set id { unit with formula := f })[i]? = some other at hother
    by_cases hi : id = i
    · subst hi
      have hlt : id < p.engine.state.formulas.length := (List.getElem?_eq_some_iff.mp hid).1
      rw [List.getElem?_set_self hlt] at hother
      obtain rfl := Option.some.inj hother
      exact tracks_visited hs hup hid hv heval errors _
    · rw [List.getElem?_set_ne hi] at hother
      exact tracks_unvisited hs hup hid hv heval errors hi hother

/-- Visits in order leave no formula waiting for the variable they were made for. -/
theorem visitAll_upToDate {ids : List Nat} {p p' : Propagation C R} {first : VariableId}
    (hs : p.engine.state.WellFormed) (hup : p.engine.state.UpToDate (p.Waits first ids))
    (h : p.visitAll ids = .done p') : p'.engine.state.UpToDate (p'.Waits first []) := by
  induction ids generalizing p with
  | nil =>
    obtain rfl := Outcome.done.inj h
    exact hup
  | cons id rest ih =>
    obtain ⟨p₁, hvisit, hrest⟩ := Outcome.bind_eq_done_iff.mp h
    exact ih ((visit_leads hs hvisit).wellFormed hs) (visit_upToDate hs hup hvisit) hrest

/-- A round of the loop evaluates all formulas of the first waiting variable. -/
theorem advance_upToDate {p p' : Propagation C R} {first : VariableId} {rest : List VariableId}
    (hs : p.engine.state.WellFormed) (hqueue : p.queue = first :: rest)
    (hup : p.engine.state.UpToDate fun _ q => q ∈ p.queue)
    (h : p.advance first rest = .done p') :
    p'.engine.state.UpToDate fun _ q => q ∈ p'.queue := by
  have hbegin : p.engine.state.UpToDate (Waits { p with queue := rest } first
      (formulasOf (p.engine.state.triggers.dependents first))) := by
    intro i unit hunit
    refine (hup i unit hunit).mono ?_
    rintro ⟨q, hq, hwaiting⟩
    refine ⟨q, hq, ?_⟩
    rw [hqueue] at hwaiting
    rcases List.mem_cons.mp hwaiting with rfl | hrest
    · refine Or.inr ⟨rfl, mem_formulasOf.mpr (TriggerGraph.mem_dependents.mpr ?_)⟩
      exact (hs.dependents i unit hunit q).mpr hq
    · exact Or.inl hrest
  have hend := visitAll_upToDate (p := { p with queue := rest }) hs hbegin h
  intro i unit hunit
  refine (hend i unit hunit).mono ?_
  rintro ⟨q, hq, hwaiting | ⟨-, hnone⟩⟩
  · exact ⟨q, hq, hwaiting⟩
  · cases hnone

/-- All rounds of the loop. -/
theorem settle_upToDate {n : Nat} {p p' : Propagation C R} (hs : p.engine.state.WellFormed)
    (hup : p.engine.state.UpToDate fun _ q => q ∈ p.queue) (h : p.settle n = .done p') :
    p'.engine.state.UpToDate fun _ q => q ∈ p'.queue := by
  induction n generalizing p with
  | zero =>
    obtain rfl := Outcome.done.inj h
    exact hup
  | succ n ih =>
    rw [settle] at h
    split at h
    · obtain rfl := Outcome.done.inj h
      exact hup
    · next first rest hqueue =>
      obtain ⟨p₁, hadvance, hrest⟩ := Outcome.bind_eq_done_iff.mp h
      exact ih ((advance_leads hs hadvance).wellFormed hs)
        (advance_upToDate hs hqueue hup hadvance) hrest

/-- A propagation from all stale variables leaves no formula stale. -/
theorem propagate_upToDate {e : Engine C R} {dirty : VariableSet} {p : Propagation C R}
    (hs : e.state.WellFormed) (hup : e.state.UpToDate fun _ q => q ∈ dirty)
    (h : propagate e dirty = .done p) : p.engine.state.UpToDate fun _ _ => False := by
  have hqueue := (propagate_spec hs h).2
  have hend := settle_upToDate (p := begin e dirty) hs hup h
  rw [hqueue] at hend
  intro i unit hunit
  refine (hend i unit hunit).mono ?_
  rintro ⟨q, -, hnone⟩
  cases hnone

end Propagation

/-- The preparation of a tick brings all formulas up to date. -/
theorem upToDate_of_prepare {s : Stage C R} {clock : Time.Clock} {wall : Time.Instant}
    {p : Prepared C R} (hs : s.engine.state.WellFormed)
    (hup : s.engine.state.UpToDate fun _ q => q ∈ s.engine.state.pending)
    (h : s.prepare clock wall = .done p) :
    p.stage.engine.state.UpToDate fun _ q => q ∈ p.stage.engine.state.pending := by
  obtain ⟨now, -, h⟩ := Outcome.bind_eq_done_iff.mp h
  obtain ⟨a, hadvance, h⟩ := Outcome.bind_eq_done_iff.mp h
  obtain ⟨q, hpropagate, h⟩ := Outcome.bind_eq_done_iff.mp h
  obtain rfl := Outcome.done.inj h
  have hadvances := advance_spec hs.generator_kind hadvance
  have hbegin : (s.engine.beginTick a now).state.UpToDate fun _ i =>
      i ∈ a.changed.foldl VariableSet.add s.engine.state.pending := by
    refine hup.of_moves hs (fun _ _ hunit => Or.inl hunit) hadvances.moves hadvances.formulas ?_
    intro i id hid
    exact VariableSet.mem_foldl_add.mpr hid
  have hsbegin := wellFormed_beginTick now hs hadvances
  have hend := Propagation.propagate_upToDate hsbegin hbegin hpropagate
  have hsend := (Propagation.propagate_spec hsbegin hpropagate).1.wellFormed hsbegin
  refine hend.of_moves hsend (fun _ _ hunit => Or.inl hunit) (.refl _ fun _ => False) (.refl _) ?_
  rintro i id (hid | hid)
  · exact hid.elim
  · exact hid.elim

/-- Every operation keeps all formulas up to date. -/
theorem Effect.upToDate {s s' : Stage C R} {entry : Operation × Answer} (h : Effect s entry s')
    (hs : s.engine.state.WellFormed)
    (hup : s.engine.state.UpToDate fun _ q => q ∈ s.engine.state.pending) :
    s'.engine.state.UpToDate fun _ q => q ∈ s'.engine.state.pending := by
  cases h with
  | evolved hquiet h => exact h.upToDate hs hup
  | rule unit h hlocated he =>
    rw [he]
    exact (h.upToDate hs hup).of_records (h.wellFormed hs) (fun _ _ hunit => Or.inl hunit)
      ⟨.refl _ _, .refl _, fun _ hp => hp⟩
  | script unit h hlocated he =>
    rw [he]
    exact (h.upToDate hs hup).of_records (h.wellFormed hs) (fun _ _ hunit => Or.inl hunit)
      ⟨.refl _ _, .refl _, fun _ hp => hp⟩
  | tick h =>
    obtain ⟨p, runs, hprepare, hruns, -⟩ := tick_eq_done_iff.mp h
    exact (runUnits_spec hruns).1.evolution.upToDate (prepares_of_prepare hs hprepare).wellFormed
      (upToDate_of_prepare hs hup hprepare)
  | reset he =>
    rw [he]
    intro i unit hunit
    cases hunit

/-- Formulas are up to date throughout a session. -/
theorem Session.upToDate {j : Journal} {s : Stage C R} (h : Session C R j s) :
    s.engine.state.UpToDate fun _ q => q ∈ s.engine.state.pending := by
  induction h with
  | start settings epoch panel =>
    intro i unit hunit
    cases hunit
  | step hsession hstep ih =>
    exact (effect_of_perform hsession.wellFormed hstep).upToDate hsession.wellFormed ih

/-- In every state that a display reaches, a formula without a pending
parameter that was faithfully compiled is up to date: with a value of every
parameter its variable shows the result of an execution on their present
data, and without one it has never had a value. -/
theorem formula_upToDate {settings : Settings} {epoch : Time.Instant} {panel : Panel}
    {operations : List Operation} {answers : List Answer} {s : Stage C R}
    (hrun : (Stage.mk (Engine.start C R settings epoch) panel).run operations =
      .done (answers, s))
    {i : Nat} {unit : FormulaUnit C} (hunit : s.engine.state.formulas[i]? = some unit)
    (hsettled : ∀ p ∈ unit.parameters, p ∉ s.engine.state.pending) :
    (∀ p ∈ unit.parameters, ∃ w, s.engine.state.vars[p]? = some w) ∧
      ∃ source origin v, s.engine.state.Stems unit source origin v ∧
        (C.Faithful origin →
          ((∀ w ∈ s.engine.state.readBy unit, w.value.isSome = true) →
            s.engine.state.Shows unit v) ∧
          ((∃ w ∈ s.engine.state.readBy unit, w.value = none) → v.value = none)) := by
  have hsession := session_of_run hrun
  obtain ⟨source, origin, v, hstems, hfollows⟩ := hsession.upToDate i unit hunit
  refine ⟨hsession.wellFormed.range_parameters (List.mem_of_getElem? hunit), source, origin, v,
    hstems, fun hfaithful => ⟨?_, (hfollows hfaithful).dormant⟩⟩
  refine (hfollows hfaithful).current ?_
  rintro ⟨p, hp, hpending⟩
  exact hsettled p hp hpending

/-- A reference to a variable of the display shows what was written to the
variable, once a tick has followed. -/
theorem formula_upToDate_reference : ∃ answers s unit v,
    (bareStage []).run [.create "='loc://a(5)'", .setValue "loc://a" (.number 7), .tick 0 0] =
      .done (answers, s) ∧
    s.engine.state.formulas[0]? = some unit ∧
    (∀ p ∈ unit.parameters, p ∉ s.engine.state.pending) ∧
    s.engine.state.vars[unit.variableId]? = some v ∧ v.name = "='loc://a(5)'" ∧
    s.engine.state.Shows unit v := by
  obtain ⟨⟨answers, s⟩, hrun, hcheck⟩ := done_of_any
    (fun reached : List Answer × BundledStage =>
      reached.2.engine.state.formulas[0]?.any fun unit =>
        reached.2.engine.state.pending.isEmpty &&
        ((reached.2.engine.state.readBy unit).all fun w => w.value.isSome) &&
        reached.2.engine.state.vars[unit.variableId]?.any fun v => v.name == "='loc://a(5)'")
    (show ((bareStage []).run [.create "='loc://a(5)'", .setValue "loc://a" (.number 7),
      .tick 0 0]).value?.any _ = true by decide +kernel)
  obtain ⟨unit, hunit, hcheck⟩ := (Option.any_eq_true _ _).mp hcheck
  obtain ⟨hcheck, hname⟩ := Bool.and_eq_true_iff.mp hcheck
  obtain ⟨hpending, hvalues⟩ := Bool.and_eq_true_iff.mp hcheck
  obtain ⟨w, hw, hname⟩ := (Option.any_eq_true _ _).mp hname
  have hsettled : ∀ p ∈ unit.parameters, p ∉ s.engine.state.pending := by
    intro p _
    rw [List.isEmpty_iff.mp hpending]
    exact List.not_mem_nil
  obtain ⟨-, source, origin, v, hstems, hshown⟩ :=
    formula_upToDate (run_bareStage hrun) hunit hsettled
  obtain rfl := Option.some.inj (hw.symm.trans hstems.computes)
  have hspelled : w.name = "='loc://a(5)'" := beq_iff_eq.mp hname
  have hsource : source = "'loc://a(5)'" := by
    have happend : "=" ++ source = "=" ++ "'loc://a(5)'" := hstems.name.symm.trans hspelled
    exact (String.append_right_inj "=").mp happend
  have hfaithful : (FormulaCompiler.expressions .standard {} 1000).Faithful origin := by
    subst hsource
    refine FormulaCompiler.faithful_reference hstems.compiled ?_
    exact FormulaCompiler.isReference_of_compile hstems.compiled
      (show Formula.replaceReferences "'loc://a(5)'" = .ok ("pvref0", ["loc://a(5)"]) by rfl)
      (by decide +kernel)
  exact ⟨answers, s, unit, w, hrun, hunit, hsettled, hw, hspelled,
    (hshown hfaithful).1 (List.all_eq_true.mp hvalues)⟩

end ProcessDisplay.Engine
