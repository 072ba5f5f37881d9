import Mathlib.Logic.Relation
import Mathlib.Tactic.Common
import ProcessDisplay.Proofs.Evaluations
import ProcessDisplay.Proofs.NameKeys

/-!
# Constructions

Finding or creating a variable is a chain of small constructions: a new
variable under a key that is free, the first initializer of a variable that
exists, or a new formula whose parameters are located already. A name that
is located stays located at the same place along the chain.
-/

namespace ProcessDisplay

/-- A name spells a variable as it is registered, or in another spelling of it. -/
def Variable.IsSpelled (v : Variable) (name : String) : Prop :=
  v.name = Text.trim name ∨ ∃ parsed, VariableName.parse name = .ok parsed ∧ v.name = parsed.key

namespace Engine

variable {C : FormulaCompiler} {R : ScriptInterpreter}

/-- The item that was just added is replaced. -/
theorem set_append_singleton {α : Type} (l : List α) (last item : α) :
    (l ++ [last]).set l.length item = l ++ [item] := by
  rw [List.set_append_right _ _ (Nat.le_refl _), Nat.sub_self]
  rfl

namespace State

/-- Dropping the entries of a name does not change what other names find. -/
theorem lookup_filter_ne {names : List (String × VariableId)} {name dropped : String}
    (h : name ≠ dropped) : (names.filter (·.1 ≠ dropped)).lookup name = names.lookup name := by
  induction names with
  | nil => rfl
  | cons entry rest ih =>
    by_cases he : entry.1 = dropped
    · have hentry : (name == entry.1) = false := by simpa [he] using h
      rw [List.filter_cons_of_neg (by simp [he]), List.lookup_cons, hentry]
      exact ih
    · rw [List.filter_cons_of_pos (by simp [he]), List.lookup_cons, List.lookup_cons, ih]

/-- A new name is found at the place of its variable; the others stay. -/
@[simp] theorem lookup_insertVariable (s : State C) (v : Variable) (name : String) :
    (s.insertVariable v).lookup name =
      if name = v.name then some s.nextId else s.lookup name := by
  by_cases h : name = v.name
  · simp [insertVariable, lookup, h]
  · have hne : (name == v.name) = false := by simpa using h
    simp only [insertVariable, lookup, List.lookup_cons, hne, if_neg h]
    exact lookup_filter_ne h

/-- The variable that a construction finds for a name. -/
def located (s : State C) (name : String) : Option VariableId :=
  match s.lookup (Text.trim name) with
  | some id => some id
  | none =>
    match VariableName.parse name with
    | .ok parsed => s.lookup parsed.key
    | .error _ => none

/-- The state with one more formula and the variable that it computes. -/
def insertFormula (s : State C) (source : String) (parameters : List VariableId)
    (formula : C.Formula) : State C :=
  (s.insertVariable { name := "=" ++ source, kind := .formula }).addFormula
    { variableId := s.nextId, parameters, formula }

/-- The variable of a unit is pending if it changed. -/
def markIf (s : State C) (changed : Bool) (id : VariableId) : State C :=
  if changed then s.markPending id else s

/-- A variable of the display as it is created. -/
def newLocal (s : State C) (key : String) (initializer : Option String) : Variable :=
  let v : Variable := { name := key, kind := .localVariable initializer }
  match initializer with
  | none => v
  | some text => (v.apply (initialSample text s.now)).1

@[simp] theorem newLocal_name (s : State C) (key : String) (initializer : Option String) :
    (s.newLocal key initializer).name = key := by
  cases initializer <;> rfl

@[simp] theorem newLocal_kind (s : State C) (key : String) (initializer : Option String) :
    (s.newLocal key initializer).kind = .localVariable initializer := by
  cases initializer <;> rfl

/-- The variable that was just inserted is replaced by one of the same name. -/
theorem setVariable_insertVariable (s : State C) {v w : Variable} (hname : w.name = v.name) :
    (s.insertVariable v).setVariable s.nextId w = s.insertVariable w := by
  simp only [setVariable, insertVariable, nextId, set_append_singleton, hname]

/-- A variable of the display is inserted with its value. -/
theorem createLocal_eq (s : State C) (key : String) (initializer : Option String) :
    s.createLocal key initializer =
      (s.insertVariable (s.newLocal key initializer)).markIf initializer.isSome s.nextId := by
  cases initializer with
  | none => rfl
  | some text =>
    have hnew : (s.insertVariable { name := key, kind := .localVariable (some text) }).vars[
        s.nextId]? = some { name := key, kind := .localVariable (some text) } := by
      simp [insertVariable, nextId]
    have hset := s.setVariable_insertVariable
      (v := { name := key, kind := .localVariable (some text) })
      (w := s.newLocal key (some text)) rfl
    simp only [createLocal, apply_of_some hnew]
    exact congrArg (fun s' : State C => s'.markPending s.nextId) hset

end State

/-- The generators that an engine builds for names: the clock, and signals with
the seed of the position that comes next. -/
inductive Builds (e : Engine C R) : Generator → Prop where
  /-- The clock of the settings. -/
  | clock : Builds e (Generator.clock e.settings.clockPattern e.settings.clockSeconds)
  /-- A signal, or nothing for an unknown function. -/
  | signal (function : String) (arguments : Option (List String)) :
    Builds e (generatorOf function arguments (slotSeed e.seed e.state.generators.length))

/-- One small construction. -/
inductive ConstructionStep : Engine C R → Engine C R → Prop where
  /-- A variable of the display is created under a free key. -/
  | createLocal {e : Engine C R} {key : String} (hkey : VariableName.IsKey key)
    (hfree : e.state.lookup key = none) (initializer : Option String) :
    ConstructionStep e (e.withState (e.state.createLocal key initializer))
  /-- A variable that exists is declared with an initializer. -/
  | redeclare {e : Engine C R} {key : String} {id : VariableId}
    (hfound : e.state.lookup key = some id) (initializer : String) :
    ConstructionStep e (e.withState (e.state.redeclare id initializer))
  /-- A simulated variable or the clock is created under a free key. -/
  | attach {e : Engine C R} {key : String} (hkey : VariableName.IsKey key)
    (hfree : e.state.lookup key = none) (generator : Generator) (hbuilt : e.Builds generator) :
    ConstructionStep e (e.withState (e.state.attachGenerator key generator))
  /-- A formula whose parameters are located is created under a free key and
  evaluated. -/
  | createFormula {e e' : Engine C R} {source : String} {formula : C.Formula}
    {parameters : List VariableId} {changed : Bool} (hkey : VariableName.IsKey ("=" ++ source))
    (hfree : e.state.lookup ("=" ++ source) = none) (hcompiled : C.compile source = .ok formula)
    (hlocated : List.Forall₂ (fun name id => e.state.located name = some id)
      (C.parameters formula) parameters)
    (hevaluated : evaluateFormula e.state.formulas.length
      (e.withState (e.state.insertFormula source parameters formula)) = .done (changed, e')) :
    ConstructionStep e (e'.withState (e'.state.markIf changed e.state.nextId))

/-- A chain of small constructions. -/
def Construction : Engine C R → Engine C R → Prop := Relation.ReflTransGen ConstructionStep

/-- The evaluation of a new formula, taken apart: the formula is inserted with
the variable that the evaluation left. -/
theorem evaluateFormula_inserted {e e' : Engine C R} {source : String}
    {parameters : List VariableId} {formula : C.Formula} {changed : Bool}
    (h : evaluateFormula e.state.formulas.length
      (e.withState (e.state.insertFormula source parameters formula)) = .done (changed, e')) :
    ∃ f w errors,
      Evaluation (e.withState (e.state.insertFormula source parameters formula))
        { variableId := e.state.nextId, parameters, formula }
        { name := "=" ++ source, kind := .formula } f w changed ∧
      e' = { e with
        state := (e.state.insertVariable w).addFormula
          { variableId := e.state.nextId, parameters, formula := f }
        errors := e.errors ++ errors } := by
  have hunit : (e.state.insertFormula source parameters formula).formulas[
      e.state.formulas.length]? = some { variableId := e.state.nextId, parameters, formula } := by
    simp [State.insertFormula, State.addFormula, State.insertVariable]
  have hv : (e.state.insertFormula source parameters formula).vars[e.state.nextId]? =
      some { name := "=" ++ source, kind := .formula } := by
    simp [State.insertFormula, State.addFormula, State.insertVariable, State.nextId]
  obtain ⟨f, w, errors, heval, rfl⟩ := evaluateFormula_spec hunit hv h
  refine ⟨f, w, errors, heval, ?_⟩
  have hname : w.name = "=" ++ source := heval.becomes.name
  simp only [afterEvaluation, withState, State.insertFormula, State.addFormula,
    State.insertVariable, State.nextId, set_append_singleton, hname]

/-- A declaration of a variable that exists adds no name. -/
theorem State.lookup_redeclare (s : State C) (id : VariableId) (initializer name : String) :
    (s.redeclare id initializer).lookup name = s.lookup name := by
  rcases s.redeclare_cases id initializer with ⟨he, -⟩ | ⟨v, -, -, ⟨-, he⟩ | ⟨-, he⟩⟩
  · rw [he]
  · rw [he]
    rfl
  · rw [he]
    rfl

/-- A declaration of a variable leaves the formulas alone. -/
theorem State.formulas_redeclare (s : State C) (id : VariableId) (initializer : String) :
    (s.redeclare id initializer).formulas = s.formulas := by
  rcases s.redeclare_cases id initializer with ⟨he, -⟩ | ⟨v, -, -, ⟨-, he⟩ | ⟨-, he⟩⟩
  · rw [he]
  · rw [he]
    rfl
  · rw [he]
    rfl

/-- The new variable of a display has its key and nothing else does. -/
theorem State.lookup_createLocal (s : State C) (key name : String) (initializer : Option String) :
    (s.createLocal key initializer).lookup name =
      if name = key then some s.nextId else s.lookup name := by
  have hlookup := s.lookup_insertVariable (s.newLocal key initializer) name
  rw [newLocal_name] at hlookup
  rw [createLocal_eq, ← hlookup]
  cases initializer <;> rfl

/-- The variable of a new formula has its key and nothing else does. -/
theorem lookup_inserted {e e' : Engine C R} {source : String} {parameters : List VariableId}
    {formula : C.Formula} {changed : Bool}
    (h : evaluateFormula e.state.formulas.length
      (e.withState (e.state.insertFormula source parameters formula)) = .done (changed, e'))
    (name : String) :
    (e'.withState (e'.state.markIf changed e.state.nextId)).state.lookup name =
      if name = "=" ++ source then some e.state.nextId else e.state.lookup name := by
  obtain ⟨f, w, errors, heval, rfl⟩ := evaluateFormula_inserted h
  have hname : w.name = "=" ++ source := heval.becomes.name
  rw [← hname, ← e.state.lookup_insertVariable w name]
  cases changed with
  | true => rfl
  | false => rfl

/-- A construction adds at most one name, which is a key that was free. -/
theorem ConstructionStep.lookup {e e' : Engine C R} (h : ConstructionStep e e') :
    (∀ name, e'.state.lookup name = e.state.lookup name) ∨
      ∃ key, VariableName.IsKey key ∧ e.state.lookup key = none ∧
        ∀ name, e'.state.lookup name =
          if name = key then some e.state.nextId else e.state.lookup name := by
  cases h with
  | @createLocal key hkey hfree initializer =>
    exact Or.inr ⟨key, hkey, hfree, fun name => e.state.lookup_createLocal key name initializer⟩
  | redeclare hfound initializer => exact Or.inl fun name => State.lookup_redeclare ..
  | @attach key hkey hfree generator =>
    exact Or.inr ⟨key, hkey, hfree, fun name => e.state.lookup_insertVariable _ name⟩
  | @createFormula e₁ source formula parameters changed hkey hfree hcompiled hlocated heval =>
    exact Or.inr ⟨"=" ++ source, hkey, hfree, fun name => lookup_inserted heval name⟩

/-- A name that is located stays where it is. -/
theorem ConstructionStep.located {e e' : Engine C R} (h : ConstructionStep e e') {name : String}
    {id : VariableId} (hlocated : e.state.located name = some id) :
    e'.state.located name = some id := by
  rcases h.lookup with hsame | ⟨key, hkey, hfree, hlookup⟩
  · simpa only [State.located, hsame] using hlocated
  · unfold State.located at hlocated ⊢
    rw [hlookup]
    cases htrim : e.state.lookup (Text.trim name) with
    | some found =>
      have hne : Text.trim name ≠ key := by
        intro he
        rw [he, hfree] at htrim
        cases htrim
      rw [htrim] at hlocated
      rw [if_neg hne]
      exact hlocated
    | none =>
      cases hparse : VariableName.parse name with
      | error failure =>
        simp only [htrim, hparse] at hlocated
        cases hlocated
      | ok parsed =>
        simp only [htrim, hparse] at hlocated
        have hkeyne : parsed.key ≠ key := by
          intro he
          rw [he, hfree] at hlocated
          cases hlocated
        -- the spelling itself has not become a key, since its key would then be the new one
        have hne : Text.trim name ≠ key := fun he => hkeyne (hkey.key_eq he hparse)
        rw [if_neg hne]
        simp only [hlookup, if_neg hkeyne]
        exact hlocated

/-- A name that is located stays where it is along a chain. -/
theorem Construction.located {e e' : Engine C R} (h : Construction e e') {name : String}
    {id : VariableId} (hlocated : e.state.located name = some id) :
    e'.state.located name = some id := by
  induction h with
  | refl => exact hlocated
  | tail _ hstep ih => exact hstep.located ih

end Engine

end ProcessDisplay
