import Mathlib.Tactic.Common
import ProcessDisplay.Proofs.NameIdentity

/-!
# Creating a name again

A creation leaves its name settled: the name is located, and where it would
be found under its key with an initializer, the variable has an initializer
already. A settled name is found with nothing done, so a second creation
leaves everything as the first one left it.
-/

namespace ProcessDisplay.Engine

variable {C : FormulaCompiler} {R : ScriptInterpreter}

/-- A name stands for a variable that another creation finds as it is. -/
structure State.Settled (s : State C) (name : String) (id : VariableId) : Prop where
  /-- The name is located at the variable. -/
  located : s.located name = some id
  /-- An initializer of the name would be declared in vain. -/
  declared : s.lookup (Text.trim name) = none → ∀ parsed, VariableName.parse name = .ok parsed →
    parsed.initializer?.isSome = true → ¬s.IsOpen id

/-- A variable with an initializer, or none of the display, is left as it is. -/
theorem State.revisit_eq_self {s : State C} {parsed : VariableName} {id : VariableId}
    (hclosed : parsed.initializer?.isSome = true → ¬s.IsOpen id) : s.revisit parsed id = s := by
  unfold revisit
  cases hinitializer : parsed.initializer? with
  | none => rfl
  | some initializer =>
    rcases s.redeclare_cases id initializer with ⟨hsame, -⟩ | ⟨v, hv, hk, -⟩
    · exact hsame
    · exact absurd ⟨v, hv, hk⟩ (hclosed (by rw [hinitializer]; rfl))

/-- A settled name is found with nothing done. -/
theorem State.Settled.resolve {depth : Nat} {name : String} {e : Engine C R} {id : VariableId}
    (h : e.state.Settled name id) : resolve (depth + 1) name e = .done (.ok id, e) := by
  have hlocated := h.located
  unfold State.located at hlocated
  cases hspelled : e.state.lookup (Text.trim name) with
  | some found =>
    simp only [hspelled] at hlocated
    obtain rfl := Option.some.inj hlocated
    exact resolve_of_lookup hspelled
  | none =>
    cases hparse : VariableName.parse name with
    | error failure =>
      simp only [hspelled, hparse] at hlocated
      cases hlocated
    | ok parsed =>
      simp only [hspelled, hparse] at hlocated
      rw [resolve_of_key hspelled hparse hlocated,
        State.revisit_eq_self (h.declared hspelled parsed hparse)]
      rfl

/-- A new variable of the display with an initializer is not without one. -/
theorem State.not_isOpen_createLocal (s : State C) (key text : String) :
    ¬(s.createLocal key (some text)).IsOpen s.nextId := by
  rw [createLocal_eq]
  rintro ⟨v, hv, hk⟩
  have hnew : ((s.insertVariable (s.newLocal key (some text))).markIf true s.nextId).vars[
      s.nextId]? = some (s.newLocal key (some text)) := by
    simp [markIf, markPending, insertVariable, nextId]
  obtain rfl := Option.some.inj (hnew.symm.trans hv)
  rw [newLocal_kind] at hk
  cases hk

/-- The variable of a name that carries an initializer is created with it. -/
theorem createNamed_declared {find : String → Action C R VariableId} {parsed : VariableName}
    {e e' : Engine C R} {id : VariableId} (hcarries : parsed.initializer?.isSome = true)
    (h : createNamed find parsed e = .done (.ok id, e')) : ¬e'.state.IsOpen id := by
  cases parsed with
  | localVariable key initializer =>
    obtain ⟨text, rfl⟩ := Option.isSome_iff_exists.mp hcarries
    rw [createNamed, Action.current_bind, Action.update_bind] at h
    obtain ⟨rfl, rfl⟩ : e.state.nextId = id ∧ e.withState (e.state.createLocal
        (VariableName.localVariable key (some text)).key (some text)) = e' := by simpa using h
    exact e.state.not_isOpen_createLocal _ text
  | simulated function arguments => cases hcarries
  | clock => cases hcarries
  | formula expression => cases hcarries

/-- A name that was found or created is settled. -/
theorem settled_of_resolve {depth : Nat} {name : String} {e e' : Engine C R} {id : VariableId}
    (h : resolve (depth + 1) name e = .done (.ok id, e')) : e'.state.Settled name id := by
  refine ⟨located_of_resolve h, fun hspelled parsed hparse hcarries => ?_⟩
  rcases resolve_cases h with ⟨found, hfound, -, rfl⟩ | ⟨-, failure, -, hr, -⟩ |
    ⟨hfree, parsed', found, hparse', hkey, hr, -⟩ | ⟨-, parsed', hparse', -, hcreate⟩
  · rw [hspelled] at hfound
    cases hfound
  · cases hr
  · obtain rfl := Except.ok.inj hr
    obtain rfl := Except.ok.inj (hparse.symm.trans hparse')
    obtain ⟨text, htext⟩ := Option.isSome_iff_exists.mp hcarries
    rw [resolve_of_key hfree hparse hkey] at h
    obtain rfl : e.withState (e.state.revisit parsed id) = e' := by simpa using h
    intro hopen
    rw [withState, State.revisit, htext] at hopen
    exact (State.isOpen_redeclare.mp hopen).2 rfl
  · obtain rfl := Except.ok.inj (hparse.symm.trans hparse')
    exact createNamed_declared hcarries hcreate

/-- At any stage, a name that was found or created is found again by a second
creation, which returns the same position and leaves the stage as it is: no
variable, generator, formula, edge, pending variable or failure is added and
no value changes. -/
theorem create_twice {s s' : Stage C R} {name : String} {id : VariableId}
    (h : s.perform (.create name) = .done (.position (.ok id), s')) :
    s'.perform (.create name) = .done (.position (.ok id), s') := by
  obtain ⟨result, e', haction, hanswer, rfl⟩ := act_eq_done h
  obtain rfl : Except.ok id = result := by simpa using hanswer
  have hsettled : e'.state.Settled name id := settled_of_resolve (transaction_ok haction)
  have hagain : create name e' = .done (.ok id, e') := by
    rw [create, transaction, hsettled.resolve]
  simp only [Stage.perform, Stage.act, hagain, Outcome.done_bind, Outcome.pure_eq]

/-- A formula with a formula within it, a signal, and a variable without an
initializer that it declares, is found again as it is. -/
theorem create_twice_nested : ∃ answers s s',
    (bareStage []).run [.create "loc://in"] = .done (answers, s) ∧
      s.perform (.create "='=1 + 2' + 'loc://in(1)' * 'sim://ramp( 0, 9 )'") =
        .done (.position (.ok 3), s') ∧
      s'.perform (.create "='=1 + 2' + 'loc://in(1)' * 'sim://ramp( 0, 9 )'") =
        .done (.position (.ok 3), s') := by
  obtain ⟨⟨answers, s⟩, hrun, hcheck⟩ := done_of_any
    (fun reached : List Answer × BundledStage =>
      (reached.2.perform (.create "='=1 + 2' + 'loc://in(1)' * 'sim://ramp( 0, 9 )'")).value?.any
        fun told : Answer × BundledStage => decide (told.1.position? = some 3))
    (show ((bareStage []).run [.create "loc://in"]).value?.any _ = true by decide +kernel)
  obtain ⟨⟨answer, s'⟩, hcreate, hposition⟩ := done_of_any _ hcheck
  obtain rfl := Answer.eq_of_position? (of_decide_eq_true hposition)
  exact ⟨answers, s, s', hrun, hcreate, create_twice hcreate⟩

end ProcessDisplay.Engine
