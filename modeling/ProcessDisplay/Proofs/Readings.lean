import Mathlib.Tactic.Common
import ProcessDisplay.Proofs.ContainedFailures
import ProcessDisplay.Proofs.Transitions

/-!
# What variables read

A variable reads a value, a severity and the time of its value. Every part of
the engine that replaces a reading does so for reasons of its own: a
construction declares a first initializer, a generator emits a sample, a
formula is evaluated, somebody writes. The specifications here follow one
variable, given by its position, through each of these parts and say whether
it is as it was and, if not, what was made of it.
-/

namespace ProcessDisplay

namespace Variable

/-- What a variable reads. -/
def reading (v : Variable) : Option Value × Severity × Option Time.Instant :=
  (v.value, v.severity, v.time)

/-- The display may write exactly its own variables. -/
theorem isWritable_iff {v : Variable} :
    v.isWritable = true ↔ ∃ initializer, v.kind = .localVariable initializer := by
  unfold isWritable
  cases v.kind <;> simp

/-- Only a variable of the display is declared anew. -/
theorem Becomes.kind_eq {v w : Variable} (h : v.Becomes w) (hv : v.isWritable = false) :
    w.kind = v.kind := by
  rcases h.kind with hk | ⟨hwritable, -⟩
  · exact hk
  · rw [hv] at hwritable
    cases hwritable

/-- A variable is as it was, or as one of some samples left it. -/
def Resampled (v w : Variable) (taken : Sample → Prop) : Prop :=
  w = v ∨ ∃ sample, taken sample ∧ w = (v.apply sample).1

namespace Resampled

variable {u v w : Variable} {taken later : Sample → Prop}

/-- More samples may count as taken. -/
theorem mono (h : v.Resampled w taken) (hsub : ∀ sample, taken sample → later sample) :
    v.Resampled w later := by
  rcases h with rfl | ⟨sample, htaken, rfl⟩
  · exact Or.inl rfl
  · exact Or.inr ⟨sample, hsub sample htaken, rfl⟩

/-- Of several samples the last one counts. -/
theorem trans (h : u.Resampled v taken) (h' : v.Resampled w taken) : u.Resampled w taken := by
  rcases h' with rfl | ⟨sample, htaken, rfl⟩
  · exact h
  · refine Or.inr ⟨sample, htaken, ?_⟩
    rcases h with rfl | ⟨earlier, -, rfl⟩
    · rfl
    · rfl

/-- A sample leaves a variable writable or not. -/
theorem isWritable_eq (h : v.Resampled w taken) : w.isWritable = v.isWritable := by
  rcases h with rfl | ⟨sample, -, rfl⟩
  · rfl
  · rfl

end Resampled

/-- A variable is as it was, or a writable variable with one of some values. -/
def Rewritten (v w : Variable) (now : Time.Instant) (written : Value → Prop) : Prop :=
  v.Resampled w fun sample =>
    v.isWritable = true ∧ ∃ value, written value ∧ sample = { value, time := now }

namespace Rewritten

variable {u v w : Variable} {now : Time.Instant} {written later : Value → Prop}

/-- A variable may stay as it is. -/
theorem refl (v : Variable) (now : Time.Instant) (written : Value → Prop) :
    v.Rewritten v now written := Or.inl rfl

/-- More values may count as written. -/
theorem mono (h : v.Rewritten w now written) (hsub : ∀ value, written value → later value) :
    v.Rewritten w now later := by
  refine Resampled.mono h ?_
  rintro sample ⟨hwritable, value, hvalue, hsample⟩
  exact ⟨hwritable, value, hsub value hvalue, hsample⟩

/-- Of several writes the last one counts. -/
theorem trans (h : u.Rewritten v now written) (h' : v.Rewritten w now written) :
    u.Rewritten w now written := by
  refine Resampled.trans h (Resampled.mono h' ?_)
  rintro sample ⟨hwritable, hvalue⟩
  exact ⟨by rw [← Resampled.isWritable_eq h, hwritable], hvalue⟩

end Rewritten

end Variable

namespace Engine

variable {C : FormulaCompiler} {R : ScriptInterpreter}

section Constructions

namespace State

/-- Variables are as they were in a state, but for first initializers. -/
def Inherits (s : State C) (vars : List Variable) : Prop :=
  ∀ (id : VariableId) (v : Variable), s.vars[id]? = some v → vars[id]? = some v ∨
    v.kind = .localVariable none ∧ ∃ initializer, vars[id]? = some (s.declared v initializer)

/-- A declared variable has an initializer. -/
theorem declared_kind (s : State C) (v : Variable) (initializer : String) :
    (s.declared v initializer).kind = .localVariable (some initializer) := by
  unfold declared
  split <;> rfl

/-- A variable with a value keeps what it reads when it is declared. -/
theorem reading_declared (s : State C) {v : Variable} (h : v.value ≠ none) (initializer : String) :
    (s.declared v initializer).reading = v.reading := by
  have hconnected : ¬v.isDisconnected = true := by
    simpa [Variable.isDisconnected] using h
  rw [declared, if_neg hconnected]
  rfl

/-- A declaration leaves the instant of the last tick alone. -/
theorem now_redeclare (s : State C) (id : VariableId) (initializer : String) :
    (s.redeclare id initializer).now = s.now := by
  rcases s.redeclare_cases id initializer with ⟨he, -⟩ | ⟨v, -, -, ⟨-, he⟩ | ⟨-, he⟩⟩
  · rw [he]
  · rw [he]
    rfl
  · rw [he]
    rfl

/-- One more declaration gives a variable its first initializer, or none. -/
theorem Inherits.redeclare {s t : State C} (h : s.Inherits t.vars) (hnow : t.now = s.now)
    (p : VariableId) (initializer : String) : s.Inherits (t.redeclare p initializer).vars := by
  rcases t.redeclare_cases p initializer with ⟨he, -⟩ | ⟨u, hu, hk, hcase⟩
  · rw [he]
    exact h
  have hvars : (t.redeclare p initializer).vars = t.vars.set p (t.declared u initializer) := by
    rcases hcase with ⟨-, he⟩ | ⟨-, he⟩ <;> rw [he] <;> rfl
  have hdeclared : t.declared u initializer = s.declared u initializer := by
    simp only [declared, hnow]
  intro id v hv
  rw [hvars, hdeclared]
  by_cases hid : p = id
  · subst hid
    have hp : p < t.vars.length := (List.getElem?_eq_some_iff.mp hu).1
    rw [List.getElem?_set_self hp]
    rcases h p v hv with hsame | ⟨-, first, hfirst⟩
    · obtain rfl := Option.some.inj (hu.symm.trans hsame)
      exact Or.inr ⟨hk, initializer, rfl⟩
    · -- a variable that was declared before has its first initializer already
      obtain rfl := Option.some.inj (hu.symm.trans hfirst)
      rw [declared_kind] at hk
      cases hk
  · rw [List.getElem?_set_ne hid]
    exact h id v hv

/-- Declarations give variables their first initializers at most. -/
theorem inherits_redeclareAll (s : State C) (declared : List (VariableId × String)) :
    s.Inherits (s.redeclareAll declared).vars := by
  have hall : ∀ t : State C, t.now = s.now → s.Inherits t.vars →
      s.Inherits (t.redeclareAll declared).vars := by
    unfold redeclareAll
    induction declared with
    | nil => exact fun t _ h => h
    | cons first rest ih =>
      intro t hnow h
      exact ih _ ((t.now_redeclare first.1 first.2).trans hnow) (h.redeclare hnow first.1 first.2)
  exact hall s rfl fun _ _ hv => Or.inl hv

end State

/-- A construction gives older variables their first initializers at most. -/
theorem Construction.inherits {e e' : Engine C R} (h : Construction e e')
    (hs : e.state.WellFormed) : e.state.Inherits e'.state.vars := by
  obtain ⟨declared, -, hextends⟩ := h.extends hs
  have hlength := (e.state.sameShape_redeclareAll declared).length
  intro id v hv
  have hid : id < (e.state.redeclareAll declared).vars.length := by
    rw [hlength]
    exact (List.getElem?_eq_some_iff.mp hv).1
  rw [hextends.getElem?_vars hid]
  exact e.state.inherits_redeclareAll declared id v hv

end Constructions

section Generators

variable {clock : Time.Clock} {now : Time.Instant}

/-- A generator among some emits a sample for a variable. -/
def Emits (slots : List GeneratorSlot) (clock : Time.Clock) (now : Time.Instant) (id : VariableId)
    (sample : Sample) : Prop :=
  ∃ slot ∈ slots, slot.variableId = id ∧
    ∃ generator, slot.generator.step clock now = .done (some sample, generator)

/-- A sample reaches its own variable only. -/
theorem Advance.getElem?_sample (a : Advance) (p id : VariableId) (sample : Sample) :
    (a.sample p sample).vars[id]? =
      if p = id then a.vars[id]?.map fun v => (v.apply sample).1 else a.vars[id]? := by
  unfold Advance.sample
  cases hp : a.vars[p]? with
  | none =>
    by_cases hid : p = id
    · rw [if_pos hid, ← hid, hp]
      rfl
    · rw [if_neg hid]
  | some v =>
    by_cases hid : p = id
    · rw [if_pos hid, ← hid, hp]
      exact List.getElem?_set_self (List.getElem?_eq_some_iff.mp hp).1
    · rw [if_neg hid]
      exact List.getElem?_set_ne hid

/-- Where generators advance, a variable has the last sample that one of them
emitted for it. -/
theorem advance_reading {slots : List GeneratorSlot} {a a' : Advance}
    (h : advance clock now slots a = .done a') {id : VariableId} {v : Variable}
    (hv : a.vars[id]? = some v) :
    ∃ w, a'.vars[id]? = some w ∧ v.Resampled w (Emits slots clock now id) := by
  induction slots generalizing a v with
  | nil =>
    obtain rfl := Outcome.done.inj h
    exact ⟨v, hv, Or.inl rfl⟩
  | cons slot rest ih =>
    obtain ⟨⟨emitted, generator⟩, hstep, h⟩ := Outcome.bind_eq_done_iff.mp h
    have hlater : ∀ sample, Emits rest clock now id sample →
        Emits (slot :: rest) clock now id sample := by
      rintro sample ⟨other, hother, hemitted⟩
      exact ⟨other, List.mem_cons_of_mem _ hother, hemitted⟩
    cases emitted with
    | none =>
      obtain ⟨w, hw, hrest⟩ := ih h hv
      exact ⟨w, hw, hrest.mono hlater⟩
    | some first =>
      have hsampled := Advance.getElem?_sample
        { a with generators := a.generators ++ [{ slot with generator }] } slot.variableId id first
      rw [hv] at hsampled
      by_cases hid : slot.variableId = id
      · rw [if_pos hid] at hsampled
        obtain ⟨w, hw, hrest⟩ := ih h hsampled
        have hfirst : v.Resampled (v.apply first).1 (Emits (slot :: rest) clock now id) :=
          Or.inr ⟨first, ⟨slot, List.mem_cons_self, hid, generator, hstep⟩, rfl⟩
        exact ⟨w, hw, hfirst.trans (hrest.mono hlater)⟩
      · rw [if_neg hid] at hsampled
        obtain ⟨w, hw, hrest⟩ := ih h hsampled
        exact ⟨w, hw, hrest.mono hlater⟩

end Generators

section Formulas

/-- An evaluation of a formula leaves the variables of all others alone. -/
theorem evaluateFormula_other {e e' : Engine C R} {k : Nat} {changed : Bool}
    (hs : e.state.WellFormed) (h : evaluateFormula k e = .done (changed, e')) {id : VariableId}
    (hid : e.state.computed? k ≠ some id) : e'.state.vars[id]? = e.state.vars[id]? := by
  cases hunit : e.state.formulas[k]? with
  | none =>
    obtain ⟨-, rfl⟩ := Prod.mk.inj (Outcome.done.inj ((evaluateFormula_of_none hunit).symm.trans h))
    rfl
  | some unit =>
    obtain ⟨v, hv, -⟩ := hs.of_formula hunit
    obtain ⟨f, w, errors, -, rfl⟩ := evaluateFormula_spec hunit hv h
    have hne : unit.variableId ≠ id := by
      rintro rfl
      exact hid (by rw [State.computed?, hunit, Option.map_some])
    exact List.getElem?_set_ne hne

/-- The last evaluation of the formula of a variable, among evaluations in
order, left the variable so. -/
def Evaluates (e : Engine C R) (runs : List FormulaRun) (id : VariableId) (w : Variable) : Prop :=
  ∃ before run after e₁ e₂, runs = before ++ run :: after ∧ Passes e before e₁ ∧
    evaluateFormula run.formula e₁ = .done (run.changed, e₂) ∧
    e.state.computed? run.formula = some id ∧
    (∀ later ∈ after, e.state.computed? later.formula ≠ some id) ∧ e₂.state.vars[id]? = some w

/-- Where formulas are evaluated, a variable is as the last evaluation of its
own formula left it. -/
theorem passes_reading {e e' : Engine C R} {runs : List FormulaRun} (hs : e.state.WellFormed)
    (h : Passes e runs e') {id : VariableId} {v : Variable} (hv : e.state.vars[id]? = some v) :
    (∀ run ∈ runs, e.state.computed? run.formula ≠ some id) ∧ e'.state.vars[id]? = some v ∨
      ∃ w, e'.state.vars[id]? = some w ∧ Evaluates e runs id w := by
  induction h generalizing v with
  | refl e => exact Or.inl ⟨by simp, hv⟩
  | @head e e₁ e' run rest hfirst hrest ih =>
    obtain ⟨hshape, hs₁⟩ := sameShape_evaluateFormula hs hfirst
    obtain ⟨v₁, hv₁, -⟩ := hshape.moves id v hv
    have hcomputed : ∀ k, e₁.state.computed? k = e.state.computed? k := hshape.computed?
    rcases ih hs₁ hv₁ with
      ⟨hnone, hlast⟩ | ⟨w, hw, before, run', after, e₂, e₃, rfl, hpasses, hlast⟩
    · simp only [hcomputed] at hnone
      by_cases hown : e.state.computed? run.formula = some id
      · exact Or.inr ⟨v₁, hlast, [], run, rest, e, e₁, rfl, .refl e, hfirst, hown, hnone, hv₁⟩
      · have hsame := evaluateFormula_other hs hfirst hown
        rw [hv₁, hv] at hsame
        refine Or.inl ⟨?_, by rw [hlast, hsame]⟩
        intro other hother
        rcases List.mem_cons.mp hother with rfl | hother
        · exact hown
        · exact hnone other hother
    · simp only [hcomputed] at hlast
      exact Or.inr ⟨w, hw, run :: before, run', after, e₂, e₃, rfl, .head hfirst hpasses, hlast⟩

end Formulas

section Writes

/-- A unit is a script whose turn writes a value to one of its inputs. -/
def Stage.WritesTo (s : Stage C R) (unit : UnitRef) (id : VariableId) (value : Value) : Prop :=
  ∃ k script result context memory index, unit = .script k ∧
    s.engine.state.scripts[k]? = some script ∧
    R.run s.engine.memory script.body
      { script := script.name, widget := s.panel.widget script.widget
        snapshots := s.engine.state.snapshots script.inputs } =
          .done ((result, context), memory) ∧
    (index, value) ∈ context.writes ∧ script.inputs[index]? = some id

/-- A write to the variable at a position leaves all others alone. -/
theorem State.write_reading {s s' : State C} {p : VariableId} {value : Value}
    (h : s.write p value = .ok s') {id : VariableId} {v : Variable} (hv : s.vars[id]? = some v) :
    ∃ w, s'.vars[id]? = some w ∧ v.Rewritten w s.now fun written => p = id ∧ written = value := by
  obtain ⟨u, hu, hwritable, rfl⟩ := write_eq_ok_iff.mp h
  by_cases hid : p = id
  · subst hid
    obtain rfl := Option.some.inj (hu.symm.trans hv)
    refine ⟨_, List.getElem?_set_self (List.getElem?_eq_some_iff.mp hu).1, Or.inr ?_⟩
    exact ⟨_, ⟨hwritable, value, ⟨rfl, rfl⟩, rfl⟩, rfl⟩
  · exact ⟨v, (List.getElem?_set_ne hid).trans hv, .refl v _ _⟩

/-- A write of a script reaches the input that it names. -/
theorem applyWrite_reading (label : String) (inputs : List VariableId) (e : Engine C R)
    (write : Nat × Value) {id : VariableId} {v : Variable} (hv : e.state.vars[id]? = some v) :
    ∃ w, (applyWrite label inputs e write).state.vars[id]? = some w ∧
      v.Rewritten w e.state.now fun value => inputs[write.1]? = some id ∧ value = write.2 := by
  unfold applyWrite
  cases hp : inputs[write.1]? with
  | none => exact ⟨v, hv, .refl v _ _⟩
  | some p =>
    dsimp only
    cases hwrite : e.state.write p write.2 with
    | ok state =>
      obtain ⟨w, hw, hrewritten⟩ := State.write_reading hwrite hv
      refine ⟨w, hw, hrewritten.mono ?_⟩
      rintro value ⟨rfl, rfl⟩
      exact ⟨rfl, rfl⟩
    | error failure => exact ⟨v, hv, .refl v _ _⟩

/-- After the writes of a script a variable has the last value that was
written to it as an input. -/
theorem applyWrites_reading (label : String) (inputs : List VariableId)
    (writes : List (Nat × Value)) (e : Engine C R) {id : VariableId} {v : Variable}
    (hv : e.state.vars[id]? = some v) :
    ∃ w, (writes.foldl (applyWrite label inputs) e).state.vars[id]? = some w ∧
      v.Rewritten w e.state.now fun value =>
        ∃ index, (index, value) ∈ writes ∧ inputs[index]? = some id := by
  induction writes generalizing e v with
  | nil => exact ⟨v, hv, .refl v _ _⟩
  | cons first rest ih =>
    obtain ⟨u, hu, hfirst⟩ := applyWrite_reading label inputs e first hv
    obtain ⟨w, hw, hrest⟩ := ih (applyWrite label inputs e first) hu
    have hnow : (applyWrite label inputs e first).state.now = e.state.now := by
      rw [(runs_applyWrite label inputs e first).untouched]
    rw [hnow] at hrest
    refine ⟨w, hw, (hfirst.mono ?_).trans (hrest.mono ?_)⟩
    · rintro value ⟨hinput, rfl⟩
      exact ⟨first.1, List.mem_cons_self, hinput⟩
    · rintro value ⟨index, hmem, hinput⟩
      exact ⟨index, List.mem_cons_of_mem _ hmem, hinput⟩

/-- After the turn of a unit a variable has the last value that the unit, as a
script, wrote to it. -/
theorem runUnit_reading {s s' : Stage C R} {unit : UnitRef} {run : UnitRun}
    (h : s.runUnit unit = .done (s', run)) {id : VariableId} {v : Variable}
    (hv : s.engine.state.vars[id]? = some v) :
    ∃ w, s'.engine.state.vars[id]? = some w ∧
      v.Rewritten w s.engine.state.now (s.WritesTo unit id) := by
  cases (turn_of_runUnit h).1 with
  | absent hrule hscript => exact ⟨v, hv, .refl v _ _⟩
  | rule hunit h =>
    rw [runRule_state h]
    exact ⟨v, hv, .refl v _ _⟩
  | @script k script _ hunit h =>
    obtain ⟨⟨⟨result, context⟩, memory⟩, hran, h⟩ := Outcome.bind_eq_done_iff.mp h
    obtain rfl := Outcome.done.inj h
    have hkept :=
      recordResult_state { s.engine with memory } ("script '" ++ script.name ++ "'") result
    obtain ⟨w, hw, hrewritten⟩ := applyWrites_reading ("script '" ++ script.name ++ "'")
      script.inputs context.writes
      (recordResult { s.engine with memory } ("script '" ++ script.name ++ "'") result)
      (hkept ▸ hv)
    rw [hkept] at hrewritten
    refine ⟨w, hw, hrewritten.mono ?_⟩
    rintro value ⟨index, hmem, hinput⟩
    exact ⟨k, script, result, context, memory, index, rfl, hunit, hran, hmem, hinput⟩

/-- After the units of a tick a variable has the last value that one of them
wrote to it. -/
theorem runUnits_reading {units : List UnitRef} {s s' : Stage C R} {runs : List UnitRun}
    (h : s.runUnits units = .done (s', runs)) {id : VariableId} {v : Variable}
    (hv : s.engine.state.vars[id]? = some v) :
    ∃ w, s'.engine.state.vars[id]? = some w ∧ v.Rewritten w s.engine.state.now fun value =>
      ∃ turn ∈ s.turns units, turn.1.WritesTo turn.2 id value := by
  induction units generalizing s runs v with
  | nil =>
    obtain ⟨rfl, -⟩ := runUnits_nil_eq_done_iff.mp h
    exact ⟨v, hv, .refl v _ _⟩
  | cons unit rest ih =>
    obtain ⟨s₁, run, more, hfirst, hrest, -⟩ := runUnits_cons_eq_done_iff.mp h
    obtain ⟨u, hu, hturn⟩ := runUnit_reading hfirst hv
    obtain ⟨w, hw, hlater⟩ := ih hrest hu
    have hnow : s₁.engine.state.now = s.engine.state.now := by
      rw [(runUnit_spec hfirst).1.untouched]
    rw [hnow] at hlater
    refine ⟨w, hw, (hturn.mono ?_).trans (hlater.mono ?_)⟩
    · intro value hwrites
      exact ⟨(s, unit), List.mem_cons_self, hwrites⟩
    · rintro value ⟨turn, hturn, hwrites⟩
      refine ⟨turn, ?_, hwrites⟩
      simp only [Stage.turns, hfirst]
      exact List.mem_cons_of_mem _ hturn

end Writes

end Engine

end ProcessDisplay
