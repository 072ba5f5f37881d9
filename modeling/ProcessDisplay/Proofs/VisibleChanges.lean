import Mathlib.Tactic.Common
import ProcessDisplay.Proofs.Transitions

/-!
# Visible changes

The redraw flag stands for changes that somebody could see: a value or a
severity that is another one now, or a new variable that has a value or whose
first evaluation failed. A construction sets the flag exactly for such a
change, a write always does, and a sample counts if it differs from what its
variable holds.
-/

namespace ProcessDisplay.Engine

variable {C : FormulaCompiler} {R : ScriptInterpreter}

namespace State

/-- Somebody could tell two states apart by the values and severities of
their variables. A new variable counts if it has a value or if it failed. -/
def Reveals (s s' : State C) : Prop :=
  ∃ (id : VariableId) (w : Variable), s'.vars[id]? = some w ∧
    ((∃ v : Variable, s.vars[id]? = some v ∧ ¬v.Agrees w) ∨
      s.vars[id]? = none ∧ (w.value.isSome = true ∨ w.severity = .invalid))

/-- Variables keep what they show, or get a first value. -/
def Gains (s s' : State C) : Prop :=
  ∀ (id : VariableId) (v : Variable), s.vars[id]? = some v →
    ∃ w : Variable, s'.vars[id]? = some w ∧
    ((w.value = v.value ∧ w.severity = v.severity) ∨ (v.value = none ∧ w.value.isSome = true))

theorem Gains.trans {s s' s'' : State C} (h : Gains s s') (h' : Gains s' s'') : Gains s s'' := by
  intro id u hu
  obtain ⟨v, hv, hfirst⟩ := h id u hu
  obtain ⟨w, hw, hsecond⟩ := h' id v hv
  refine ⟨w, hw, ?_⟩
  rcases hsecond with ⟨hvalue, hseverity⟩ | ⟨hnone, hsome⟩
  · rw [hvalue, hseverity]
    exact hfirst
  · rcases hfirst with ⟨hvalue, -⟩ | ⟨-, hvalued⟩
    · exact Or.inr ⟨hvalue.symm.trans hnone, hsome⟩
    · rw [hnone] at hvalued
      cases hvalued

/-- A first value is not what a variable without one shows. -/
theorem not_agrees_of_first {v w : Variable} (hv : v.value = none) (hw : w.value.isSome = true) :
    ¬v.Agrees w := by
  intro h
  have hsome := h.value.isSome_eq
  rw [hv, hw] at hsome
  cases hsome

/-- Variables that show the same agree. -/
theorem agrees_of_same {v w : Variable} (hvalue : w.value = v.value)
    (hseverity : w.severity = v.severity) : v.Agrees w := by
  refine ⟨hseverity.symm, ?_⟩
  rw [hvalue]

/-- What two changes show together is what one of them shows. -/
theorem reveals_trans_iff {s s' s'' : State C} (h : Gains s s') (h' : Gains s' s'') :
    Reveals s s'' ↔ Reveals s s' ∨ Reveals s' s'' := by
  constructor
  · rintro ⟨id, w, hw, hcase⟩
    cases hmiddle : s'.vars[id]? with
    | none =>
      rcases hcase with ⟨u, hu, -⟩ | ⟨hnew, hshown⟩
      · obtain ⟨v, hv, -⟩ := h id u hu
        rw [hmiddle] at hv
        cases hv
      · exact Or.inr ⟨id, w, hw, Or.inr ⟨hmiddle, hshown⟩⟩
    | some v =>
      obtain ⟨w', hw', hsecond⟩ := h' id v hmiddle
      obtain rfl := Option.some.inj (hw.symm.trans hw')
      rcases hsecond with ⟨hvalue, hseverity⟩ | ⟨hnone, hsome⟩
      · -- the second change shows nothing here, so the first one does
        refine Or.inl ⟨id, v, hmiddle, ?_⟩
        rcases hcase with ⟨u, hu, hdiffers⟩ | ⟨hnew, hshown⟩
        · refine Or.inl ⟨u, hu, fun hagrees => hdiffers ?_⟩
          exact hagrees.trans (agrees_of_same hvalue hseverity)
        · rw [hvalue, hseverity] at hshown
          exact Or.inr ⟨hnew, hshown⟩
      · exact Or.inr ⟨id, w, hw, Or.inl ⟨v, hmiddle, not_agrees_of_first hnone hsome⟩⟩
  · rintro (⟨id, v, hv, hcase⟩ | ⟨id, w, hw, hcase⟩)
    · obtain ⟨w, hw, hsecond⟩ := h' id v hv
      refine ⟨id, w, hw, ?_⟩
      rcases hcase with ⟨u, hu, hdiffers⟩ | ⟨hnew, hshown⟩
      · obtain ⟨v', hv', hfirst⟩ := h id u hu
        obtain rfl := Option.some.inj (hv.symm.trans hv')
        rcases hfirst with ⟨hvalue, hseverity⟩ | ⟨hnone, hvalued⟩
        · exact absurd (agrees_of_same hvalue hseverity) hdiffers
        · rcases hsecond with ⟨hvalue, -⟩ | ⟨-, hsome⟩
          · rw [← hvalue] at hvalued
            exact Or.inl ⟨u, hu, not_agrees_of_first hnone hvalued⟩
          · exact Or.inl ⟨u, hu, not_agrees_of_first hnone hsome⟩
      · rcases hsecond with ⟨hvalue, hseverity⟩ | ⟨-, hsome⟩
        · rw [← hvalue, ← hseverity] at hshown
          exact Or.inr ⟨hnew, hshown⟩
        · exact Or.inr ⟨hnew, Or.inl hsome⟩
    · refine ⟨id, w, hw, ?_⟩
      rcases hcase with ⟨v, hv, hdiffers⟩ | ⟨hnew, hshown⟩
      · obtain ⟨w', hw', hsecond⟩ := h' id v hv
        obtain rfl := Option.some.inj (hw.symm.trans hw')
        rcases hsecond with ⟨hvalue, hseverity⟩ | ⟨hnone, hsome⟩
        · exact absurd (agrees_of_same hvalue hseverity) hdiffers
        · cases hold : s.vars[id]? with
          | none => exact Or.inr ⟨rfl, Or.inl hsome⟩
          | some u =>
            obtain ⟨v', hv', hfirst⟩ := h id u hold
            obtain rfl := Option.some.inj (hv.symm.trans hv')
            rcases hfirst with ⟨hvalue, -⟩ | ⟨-, hvalued⟩
            · have hunone : u.value = none := hvalue.symm.trans hnone
              exact Or.inl ⟨u, rfl, not_agrees_of_first hunone hsome⟩
            · rw [hnone] at hvalued
              cases hvalued
      · cases hold : s.vars[id]? with
        | none => exact Or.inr ⟨rfl, hshown⟩
        | some u =>
          obtain ⟨v, hv, -⟩ := h id u hold
          rw [hnew] at hv
          cases hv

/-- Nothing is shown by variables that stay. -/
theorem not_reveals_of_vars_eq {s s' : State C} (h : s'.vars = s.vars) : ¬Reveals s s' := by
  rintro ⟨id, w, hw, ⟨v, hv, hdiffers⟩ | ⟨hnew, -⟩⟩
  · rw [h] at hw
    obtain rfl := Option.some.inj (hv.symm.trans hw)
    exact hdiffers (.refl v)
  · rw [h, hnew] at hw
    cases hw

/-- A new variable shows if it has a value or failed. -/
theorem reveals_append_iff {s s' : State C} {w : Variable} (h : s'.vars = s.vars ++ [w]) :
    Reveals s s' ↔ w.value.isSome = true ∨ w.severity = .invalid := by
  constructor
  · rintro ⟨id, found, hfound, hcase⟩
    rw [h] at hfound
    rcases getElem?_append_singleton.mp hfound with hold | ⟨hlast, rfl⟩
    · rcases hcase with ⟨v, hv, hdiffers⟩ | ⟨hnew, -⟩
      · obtain rfl := Option.some.inj (hv.symm.trans hold)
        exact absurd (Variable.Agrees.refl v) hdiffers
      · rw [hold] at hnew
        cases hnew
    · rcases hcase with ⟨v, hv, -⟩ | ⟨-, hshown⟩
      · have hlt := (List.getElem?_eq_some_iff.mp hv).1
        omega
      · exact hshown
  · intro hshown
    refine ⟨s.vars.length, w, ?_, Or.inr ⟨List.getElem?_eq_none (Nat.le_refl _), hshown⟩⟩
    rw [h]
    exact getElem?_append_singleton.mpr (Or.inr ⟨rfl, rfl⟩)

/-- Old variables show the same when one is added. -/
theorem gains_append {s s' : State C} {w : Variable} (h : s'.vars = s.vars ++ [w]) :
    Gains s s' := by
  intro id v hv
  refine ⟨v, ?_, Or.inl ⟨rfl, rfl⟩⟩
  rw [h]
  exact getElem?_append_singleton.mpr (Or.inl hv)

/-- A replaced variable shows by itself. -/
theorem reveals_set_iff {s s' : State C} {id : VariableId} {v w : Variable}
    (hv : s.vars[id]? = some v) (h : s'.vars = s.vars.set id w) :
    Reveals s s' ↔ ¬v.Agrees w := by
  have hid := (List.getElem?_eq_some_iff.mp hv).1
  constructor
  · rintro ⟨other, found, hfound, hcase⟩
    rw [h] at hfound
    by_cases he : id = other
    · subst he
      rw [List.getElem?_set_self hid] at hfound
      obtain rfl := Option.some.inj hfound
      rcases hcase with ⟨v', hv', hdiffers⟩ | ⟨hnew, -⟩
      · obtain rfl := Option.some.inj (hv.symm.trans hv')
        exact hdiffers
      · rw [hv] at hnew
        cases hnew
    · rw [List.getElem?_set_ne he] at hfound
      rcases hcase with ⟨v', hv', hdiffers⟩ | ⟨hnew, -⟩
      · obtain rfl := Option.some.inj (hv'.symm.trans hfound)
        exact absurd (Variable.Agrees.refl _) hdiffers
      · rw [hfound] at hnew
        cases hnew
  · intro hdiffers
    refine ⟨id, w, ?_, Or.inl ⟨v, hv, hdiffers⟩⟩
    rw [h, List.getElem?_set_self hid]

/-- Variables gain when one of them is replaced by one that shows the same or
has a first value. -/
theorem gains_set {s s' : State C} {id : VariableId} {v w : Variable}
    (hv : s.vars[id]? = some v) (h : s'.vars = s.vars.set id w)
    (hw : (w.value = v.value ∧ w.severity = v.severity) ∨
      (v.value = none ∧ w.value.isSome = true)) : Gains s s' := by
  intro other u hu
  rw [h]
  by_cases hid : id = other
  · subst hid
    obtain rfl := Option.some.inj (hv.symm.trans hu)
    have hlt := (List.getElem?_eq_some_iff.mp hv).1
    exact ⟨w, List.getElem?_set_self hlt, hw⟩
  · exact ⟨u, by rw [List.getElem?_set_ne hid, hu], Or.inl ⟨rfl, rfl⟩⟩

/-- The flag after a variable may have become pending. -/
theorem changed_markIf (s : State C) (changed : Bool) (id : VariableId) :
    (s.markIf changed id).changed = (changed || s.changed) := by
  cases changed <;> rfl

/-- A change that keeps the flag truthful: it is set if it was set or if
somebody could see the change. -/
structure Tells (s s' : State C) : Prop where
  /-- Variables keep what they show, or get a first value. -/
  gains : Gains s s'
  /-- The flag is set for what somebody could see. -/
  changed : s'.changed = true ↔ s.changed = true ∨ Reveals s s'
  /-- What is pending was pending, or the flag is set. -/
  pending : s'.pending ≠ [] → s.pending ≠ [] ∨ s'.changed = true

/-- A change that leaves variables, flag and pending variables alone. -/
theorem tells_of_eq {s s' : State C} (hvars : s'.vars = s.vars) (hchanged : s'.changed = s.changed)
    (hpending : s'.pending = s.pending) : Tells s s' := by
  refine ⟨?_, ?_, ?_⟩
  · intro id v hv
    exact ⟨v, by rw [hvars]; exact hv, Or.inl ⟨rfl, rfl⟩⟩
  · have hnot := not_reveals_of_vars_eq hvars
    rw [hchanged]
    exact ⟨Or.inl, fun h => h.resolve_right hnot⟩
  · rw [hpending]
    exact Or.inl

theorem Tells.trans {s s' s'' : State C} (h : Tells s s') (h' : Tells s' s'') : Tells s s'' := by
  refine ⟨h.gains.trans h'.gains, ?_, ?_⟩
  · rw [h'.changed, h.changed, reveals_trans_iff h.gains h'.gains, or_assoc]
  · intro hpending
    rcases h'.pending hpending with hmiddle | hset
    · rcases h.pending hmiddle with hold | hset
      · exact Or.inl hold
      · exact Or.inr (h'.changed.mpr (Or.inl hset))
    · exact Or.inr hset

/-- A new variable that becomes pending exactly if it shows. -/
theorem tells_append {s s' : State C} {w : Variable} {shown : Bool} {id : VariableId}
    (hvars : s'.vars = s.vars ++ [w]) (hchanged : s'.changed = s.changed)
    (hpending : s'.pending = s.pending)
    (hshown : shown = true ↔ w.value.isSome = true ∨ w.severity = .invalid) :
    Tells s (s'.markIf shown id) := by
  have hmarked : (s'.markIf shown id).vars = s.vars ++ [w] := by rw [markIf_vars, hvars]
  refine ⟨gains_append hmarked, ?_, ?_⟩
  · rw [changed_markIf, reveals_append_iff hmarked, ← hshown, hchanged, Bool.or_eq_true]
    exact or_comm
  · intro hnonempty
    cases shown with
    | true => exact Or.inr rfl
    | false =>
      rw [← hpending]
      exact Or.inl hnonempty

/-- A declaration tells of the value that it gives. -/
theorem tells_redeclare (s : State C) (id : VariableId) (initializer : String) :
    Tells s (s.redeclare id initializer) := by
  rcases s.redeclare_cases id initializer with ⟨he, -⟩ | ⟨v, hv, hk, ⟨hd, he⟩ | ⟨hd, he⟩⟩
  · rw [he]
    exact tells_of_eq rfl rfl rfl
  · have hnone : v.value = none := by simpa [Variable.isDisconnected] using hd
    have hsome : (s.declared v initializer).value.isSome = true := by
      rw [declared, if_pos hd]
      rfl
    have hvars : ((s.setVariable id (s.declared v initializer)).markPending id).vars =
        s.vars.set id (s.declared v initializer) := rfl
    rw [he]
    refine ⟨gains_set hv hvars (Or.inr ⟨hnone, hsome⟩), ?_, fun _ => Or.inr rfl⟩
    rw [reveals_set_iff hv hvars]
    exact ⟨fun _ => Or.inr (not_agrees_of_first hnone hsome), fun _ => rfl⟩
  · have hsame : s.declared v initializer =
        { v with kind := .localVariable (some initializer) } := by
      rw [declared, if_neg (by rw [hd]; exact Bool.false_ne_true)]
    have hvars : (s.setVariable id (s.declared v initializer)).vars =
        s.vars.set id (s.declared v initializer) := rfl
    have hagrees : v.Agrees (s.declared v initializer) := by
      rw [hsame]
      exact agrees_of_same rfl rfl
    rw [he]
    refine ⟨gains_set hv hvars (Or.inl (by rw [hsame]; exact ⟨rfl, rfl⟩)), ?_, Or.inl⟩
    rw [reveals_set_iff hv hvars]
    exact ⟨Or.inl, fun h => h.resolve_right fun hdiffers => hdiffers hagrees⟩

end State

/-- A formula that is not ready reports no change. -/
theorem ready_of_changed {e e' : Engine C R} {id : Nat} {unit : FormulaUnit C}
    (hunit : e.state.formulas[id]? = some unit)
    (h : evaluateFormula id e = .done (true, e')) : C.isReady (e.state.supplied unit) = true := by
  by_contra hready
  simp only [evaluateFormula, hunit, if_neg hready] at h
  cases h

/-- A new formula reports a change exactly if it has a value or failed. -/
theorem inserted_changed_iff {e e' : Engine C R} {source : String}
    {parameters : List VariableId} {formula : C.Formula} {changed : Bool} {f : C.Formula}
    {w : Variable}
    (h : evaluateFormula e.state.formulas.length
      (e.withState (e.state.insertFormula source parameters formula)) = .done (changed, e'))
    (heval : Evaluation (e.withState (e.state.insertFormula source parameters formula))
      { variableId := e.state.nextId, parameters, formula }
      { name := "=" ++ source, kind := .formula } f w changed) :
    changed = true ↔ w.value.isSome = true ∨ w.severity = .invalid := by
  constructor
  · rintro rfl
    have hunit : (e.state.insertFormula source parameters formula).formulas[
        e.state.formulas.length]? =
          some { variableId := e.state.nextId, parameters, formula } := by
      simp [State.insertFormula, State.addFormula, State.insertVariable]
    have hready := ready_of_changed hunit h
    obtain ⟨result, -, hreflects⟩ := heval.executed hready
    cases result with
    | ok value =>
      obtain ⟨⟨shown, hshown, -⟩, -⟩ := hreflects
      exact Or.inl (by rw [hshown]; rfl)
    | error failure => exact Or.inr hreflects
  · intro hshown
    rcases heval.reported with hchanged | hagrees
    · exact hchanged
    · have hvalue := hagrees.value.isSome_eq
      have hseverity := hagrees.severity
      rcases hshown with hsome | hinvalid
      · rw [hsome] at hvalue
        cases hvalue
      · rw [hinvalid] at hseverity
        cases hseverity

/-- A small construction tells of its changes. -/
theorem ConstructionStep.tells {e e' : Engine C R} (h : ConstructionStep e e') :
    State.Tells e.state e'.state := by
  cases h with
  | @createLocal key hkey hfree initializer =>
    rw [withState, State.createLocal_eq]
    refine State.tells_append rfl rfl rfl ?_
    cases initializer with
    | none => simp [State.newLocal]
    | some text => simp [State.newLocal, Variable.apply]
  | redeclare hfound initializer => exact e.state.tells_redeclare _ initializer
  | @attach key hkey hfree generator =>
    have htells : State.Tells e.state
        ((e.state.attachGenerator key generator).markIf false e.state.nextId) :=
      State.tells_append rfl rfl rfl (by simp)
    exact htells
  | @createFormula e₁ source formula parameters changed hkey hfree hcompiled hlocated heval =>
    obtain ⟨f, w, errors, hdone, rfl⟩ := evaluateFormula_inserted heval
    exact State.tells_append rfl rfl rfl (inserted_changed_iff heval hdone)

/-- A construction tells of its changes. -/
theorem Construction.tells {e e' : Engine C R} (h : Construction e e') :
    State.Tells e.state e'.state := by
  induction h with
  | refl => exact State.tells_of_eq rfl rfl rfl
  | tail _ hstep ih => exact ih.trans hstep.tells

/-- Whether the generator of a slot emits a sample that differs from what its
variable holds. -/
def GeneratorSlot.differs (slot : GeneratorSlot) (vars : List Variable) (clock : Time.Clock)
    (now : Time.Instant) : Bool :=
  match slot.generator.step clock now with
  | .done (some sample, _) =>
    match vars[slot.variableId]? with
    | some v => !v.holds sample.value || v.severity != sample.severity
    | none => false
  | _ => false

/-- What generators changed are the variables of the slots whose samples
differ, in order. -/
theorem advance_changed {clock : Time.Clock} {now : Time.Instant} {slots : List GeneratorSlot}
    {a a' : Advance} (hnodup : (slots.map GeneratorSlot.variableId).Nodup)
    (h : advance clock now slots a = .done a') :
    a'.changed = a.changed ++
      (slots.filter fun slot => slot.differs a.vars clock now).map GeneratorSlot.variableId := by
  induction slots generalizing a with
  | nil =>
    obtain rfl := Outcome.done.inj h
    simp
  | cons slot rest ih =>
    obtain ⟨⟨sample, generator⟩, hstep, h⟩ := Outcome.bind_eq_done_iff.mp h
    obtain ⟨hnew, hrest⟩ := List.nodup_cons.mp hnodup
    cases sample with
    | none =>
      have hsilent : slot.differs a.vars clock now = false := by
        simp only [GeneratorSlot.differs, hstep]
      rw [ih (a := { a with generators := a.generators ++ [{ slot with generator }] }) hrest h,
        List.filter_cons_of_neg (by rw [hsilent]; exact Bool.false_ne_true)]
    | some sample =>
      cases hv : a.vars[slot.variableId]? with
      | none =>
        have hsilent : slot.differs a.vars clock now = false := by
          simp only [GeneratorSlot.differs, hstep, hv]
        simp only [Advance.sample, hv] at h
        rw [ih (a := { a with generators := a.generators ++ [{ slot with generator }] }) hrest h,
          List.filter_cons_of_neg (by rw [hsilent]; exact Bool.false_ne_true)]
      | some v =>
        have hdiffers : slot.differs a.vars clock now = (v.apply sample).2 := by
          simp only [GeneratorSlot.differs, hstep, hv]
          rfl
        -- the other slots drive other variables, which the sample leaves alone
        have hothers : ∀ other ∈ rest,
            other.differs (a.vars.set slot.variableId (v.apply sample).1) clock now =
              other.differs a.vars clock now := by
          intro other hother
          have hne : slot.variableId ≠ other.variableId := by
            intro he
            exact hnew (he ▸ List.mem_map_of_mem hother)
          simp only [GeneratorSlot.differs, List.getElem?_set_ne hne]
        simp only [Advance.sample, hv] at h
        rw [ih hrest h, List.filter_congr hothers]
        cases hc : (v.apply sample).2 with
        | true =>
          rw [List.filter_cons_of_pos (by rw [hdiffers, hc])]
          simp
        | false =>
          rw [List.filter_cons_of_neg (by rw [hdiffers, hc]; exact Bool.false_ne_true)]
          simp

end ProcessDisplay.Engine
