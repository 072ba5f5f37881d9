import Mathlib.Tactic.Common
import ProcessDisplay.Proofs.WellFormedSteps

/-!
# Rollback of constructions

A construction adds items behind those that were there, with positions that a
rollback removes again. The one thing it does to older items is to give a
variable of the display its first initializer, and this a rollback does not
undo. So the state after a rollback is the state at the checkpoint with some
variables declared.
-/

namespace ProcessDisplay.Engine

variable {C : FormulaCompiler} {R : ScriptInterpreter}

namespace State

/-- Whether a position is that of a variable of a state. -/
def inRange (t : State C) (id : VariableId) : Bool := decide (id < t.vars.length)

theorem inRange_eq_true {t : State C} {id : VariableId} :
    t.inRange id = true ↔ id < t.vars.length :=
  decide_eq_true_iff

theorem inRange_eq_false {t : State C} {id : VariableId} :
    t.inRange id = false ↔ t.vars.length ≤ id := by
  rw [inRange, decide_eq_false_iff_not]
  exact Nat.not_lt

/-- A state is another one with items added behind, all of them beyond its sizes. -/
structure Extends (t s : State C) : Prop where
  /-- Variables are added behind. -/
  vars : t.vars <+: s.vars
  /-- Added names stand for added variables. -/
  names : s.names.filter (fun entry => t.inRange entry.2) = t.names
  /-- Generators are added behind. -/
  generators : t.generators <+: s.generators
  /-- Formulas are added behind. -/
  formulas : t.formulas <+: s.formulas
  /-- The rules stay. -/
  rules : s.rules = t.rules
  /-- The scripts stay. -/
  scripts : s.scripts = t.scripts
  /-- The traces stay. -/
  traces : s.traces = t.traces
  /-- Added edges have an added end. -/
  triggers : s.triggers.retain t.checkpoint.keeps = t.triggers
  /-- What became pending was added. -/
  pending : s.pending.filter t.inRange = t.pending
  /-- The new units stay. -/
  fresh : s.fresh = t.fresh
  /-- The start of the display stays. -/
  epoch : s.epoch = t.epoch
  /-- The instant of the last tick stays. -/
  now : s.now = t.now

/-- A rollback drops everything that was added. -/
theorem Extends.rollback {t s : State C} (h : Extends t s) (changed : Bool) :
    s.rollback { t.checkpoint with changed } = { t with changed } := by
  have hvars : s.vars.take t.vars.length = t.vars := List.prefix_iff_eq_take.mp h.vars |>.symm
  have hgenerators : s.generators.take t.generators.length = t.generators :=
    List.prefix_iff_eq_take.mp h.generators |>.symm
  have hformulas : s.formulas.take t.formulas.length = t.formulas :=
    List.prefix_iff_eq_take.mp h.formulas |>.symm
  simp only [State.rollback, checkpoint, hvars, hgenerators, hformulas, h.rules, h.scripts,
    h.traces, h.fresh, h.epoch, h.now]
  congr 1
  · exact h.names
  · exact h.triggers
  · exact h.pending

/-- Every edge of a well-formed registry was there at its own checkpoint. -/
theorem WellFormed.retain {s : State C} (h : s.WellFormed) :
    s.triggers.retain s.checkpoint.keeps = s.triggers := by
  have hall : s.triggers.edges.filter (fun edge => s.checkpoint.keeps edge.1 edge.2) =
      s.triggers.edges := by
    rw [List.filter_eq_self]
    intro edge hedge
    obtain ⟨hlt, hhas⟩ := h.ends edge hedge
    obtain ⟨p, u⟩ := edge
    have hsource : s.inRange p = true := inRange_eq_true.mpr hlt
    cases u with
    | formula id =>
      have hid : decide (id < s.formulas.length) = true := decide_eq_true hhas
      exact Bool.and_eq_true_iff.mpr ⟨hsource, hid⟩
    | rule id => exact hsource
    | script id => exact hsource
  rw [TriggerGraph.retain, hall]

/-- Nothing is added. -/
theorem Extends.refl {s : State C} (h : s.WellFormed) : Extends s s := by
  refine ⟨List.prefix_refl _, ?_, List.prefix_refl _, List.prefix_refl _, rfl, rfl, rfl, h.retain,
    ?_, rfl, rfl, rfl⟩
  · rw [List.filter_eq_self]
    intro entry hentry
    obtain ⟨v, hv, -⟩ := h.names entry hentry
    exact inRange_eq_true.mpr (List.getElem?_eq_some_iff.mp hv).1
  · rw [List.filter_eq_self]
    intro p hp
    exact inRange_eq_true.mpr (h.pending p hp)

namespace Extends

variable {t s : State C}

theorem length_le (h : Extends t s) : t.vars.length ≤ s.vars.length := h.vars.length_le

/-- An older variable is found at its place. -/
theorem getElem?_vars (h : Extends t s) {id : VariableId} (hid : id < t.vars.length) :
    s.vars[id]? = t.vars[id]? := by
  obtain ⟨more, hmore⟩ := h.vars
  rw [← hmore, List.getElem?_append_left hid]

/-- A variable is added under a free name, with what drives it. -/
theorem insert (h : Extends t s) {v : Variable} (hfree : s.lookup v.name = none)
    {generators : List GeneratorSlot} (hgenerators : s.generators <+: generators)
    {formulas : List (FormulaUnit C)} (hformulas : s.formulas <+: formulas)
    {triggers : TriggerGraph}
    (htriggers : triggers.retain t.checkpoint.keeps = s.triggers.retain t.checkpoint.keeps) :
    Extends t { s.insertVariable v with generators, formulas, triggers } := by
  refine { h with
    vars := ?_, names := ?_, generators := ?_, formulas := ?_, triggers := ?_ }
  · exact h.vars.trans (List.prefix_append _ _)
  · change (s.insertVariable v).names.filter _ = _
    rw [names_insertVariable hfree, List.filter_cons_of_neg ?_, h.names]
    have hnot : t.inRange s.nextId = false := inRange_eq_false.mpr h.length_le
    rw [hnot]
    exact Bool.false_ne_true
  · exact h.generators.trans hgenerators
  · exact h.formulas.trans hformulas
  · rw [← h.triggers]
    exact htriggers

/-- An added variable becomes pending. -/
theorem markPending (h : Extends t s) (hascending : s.pending.Ascending) {id : VariableId}
    (hid : t.vars.length ≤ id) : Extends t (s.markPending id) := by
  refine { h with pending := ?_ }
  have hnot : ¬t.inRange id = true := by
    rw [inRange_eq_false.mpr hid]
    exact Bool.false_ne_true
  rw [← h.pending]
  change (s.pending.add id).filter _ = _
  rw [hascending.filter_add, if_neg hnot]

theorem markIf (h : Extends t s) (hascending : s.pending.Ascending) (changed : Bool)
    {id : VariableId} (hid : t.vars.length ≤ id) : Extends t (s.markIf changed id) := by
  cases changed with
  | true => exact h.markPending hascending hid
  | false => exact h

/-- An added variable is replaced. -/
theorem setVariable_of_le (h : Extends t s) {id : VariableId} (hid : t.vars.length ≤ id)
    (w : Variable) : Extends t (s.setVariable id w) := by
  refine { h with vars := ?_ }
  obtain ⟨more, hmore⟩ := h.vars
  refine ⟨more.set (id - t.vars.length) w, ?_⟩
  rw [setVariable, ← hmore, List.set_append_right _ _ hid]

/-- An older variable is replaced in both states. -/
theorem setVariable_of_lt (h : Extends t s) {id : VariableId} (hid : id < t.vars.length)
    (w : Variable) : Extends (t.setVariable id w) (s.setVariable id w) := by
  have hlength : (t.setVariable id w).vars.length = t.vars.length := by simp [setVariable]
  have hrange : (t.setVariable id w).inRange = t.inRange := by
    funext p
    rw [inRange, inRange, hlength]
  have hkeeps : (t.setVariable id w).checkpoint.keeps = t.checkpoint.keeps := by
    rw [checkpoint, hlength]
    rfl
  refine { h with vars := ?_, names := ?_, triggers := ?_, pending := ?_ }
  · obtain ⟨more, hmore⟩ := h.vars
    refine ⟨more, ?_⟩
    rw [setVariable, setVariable, ← hmore, List.set_append_left _ _ hid]
  · rw [hrange]
    exact h.names
  · rw [hkeeps]
    exact h.triggers
  · rw [hrange]
    exact h.pending

/-- An older variable becomes pending in both states. -/
theorem markPending_of_lt (h : Extends t s) (hascending : s.pending.Ascending) {id : VariableId}
    (hid : id < t.vars.length) : Extends (t.markPending id) (s.markPending id) := by
  refine { h with pending := ?_ }
  change (s.pending.add id).filter t.inRange = t.pending.add id
  rw [hascending.filter_add, if_pos (inRange_eq_true.mpr hid), h.pending]

/-- A declaration of an added variable is undone with it. -/
theorem redeclare_of_le (h : Extends t s) (hascending : s.pending.Ascending) {id : VariableId}
    (hid : t.vars.length ≤ id) (initializer : String) :
    Extends t (s.redeclare id initializer) := by
  rcases s.redeclare_cases id initializer with ⟨he, -⟩ | ⟨v, hv, hk, ⟨-, he⟩ | ⟨-, he⟩⟩
  · rw [he]
    exact h
  · rw [he]
    exact (h.setVariable_of_le hid _).markPending hascending hid
  · rw [he]
    exact h.setVariable_of_le hid _

/-- A declaration of an older variable happens in both states. -/
theorem redeclare_of_lt (h : Extends t s) (hascending : s.pending.Ascending) {id : VariableId}
    (hid : id < t.vars.length) (initializer : String) :
    Extends (t.redeclare id initializer) (s.redeclare id initializer) := by
  have hsame := h.getElem?_vars hid
  have hdeclared : ∀ v, s.declared v initializer = t.declared v initializer := by
    intro v
    simp only [declared, h.now]
  rcases t.redeclare_cases id initializer with ⟨ht, hnot⟩ | ⟨v, hv, hk, hcase⟩
  · rcases s.redeclare_cases id initializer with ⟨hs, -⟩ | ⟨v, hv, hk, -⟩
    · rw [ht, hs]
      exact h
    · exact absurd hk (hnot v (hsame ▸ hv))
  · rcases s.redeclare_cases id initializer with ⟨-, hnot⟩ | ⟨v', hv', -, hcase'⟩
    · exact absurd hk (hnot v (hsame.trans hv))
    · obtain rfl : v' = v := Option.some.inj (hv'.symm.trans (hsame.trans hv))
      have hset := h.setVariable_of_lt hid (t.declared v' initializer)
      rcases hcase with ⟨hd, ht⟩ | ⟨hd, ht⟩ <;> rcases hcase' with ⟨hd', hs⟩ | ⟨hd', hs⟩
      · rw [ht, hs, hdeclared]
        exact hset.markPending_of_lt hascending (by simpa [setVariable] using hid)
      · rw [hd] at hd'
        cases hd'
      · rw [hd] at hd'
        cases hd'
      · rw [ht, hs, hdeclared]
        exact hset

end Extends

/-- Whether a variable of the display is there and still without an initializer. -/
def IsOpen (s : State C) (id : VariableId) : Prop :=
  ∃ v, s.vars[id]? = some v ∧ v.kind = .localVariable none

/-- The state after declarations with initializers, in order. -/
def redeclareAll (s : State C) (declared : List (VariableId × String)) : State C :=
  declared.foldl (fun s d => s.redeclare d.1 d.2) s

/-- After a declaration the variable has an initializer, and only it. -/
theorem isOpen_redeclare {s : State C} {p id : VariableId} {initializer : String} :
    (s.redeclare p initializer).IsOpen id ↔ s.IsOpen id ∧ id ≠ p := by
  rcases s.redeclare_cases p initializer with ⟨he, hnot⟩ | ⟨v, hv, hk, hcase⟩
  · rw [he]
    constructor
    · intro h
      refine ⟨h, ?_⟩
      rintro rfl
      obtain ⟨v, hv, hk⟩ := h
      exact hnot v hv hk
    · exact And.left
  · have hvars : (s.redeclare p initializer).vars = s.vars.set p (s.declared v initializer) := by
      rcases hcase with ⟨-, he⟩ | ⟨-, he⟩ <;> rw [he] <;> rfl
    have hp : p < s.vars.length := (List.getElem?_eq_some_iff.mp hv).1
    have hdeclared : (s.declared v initializer).kind = .localVariable (some initializer) := by
      unfold declared
      split <;> rfl
    unfold IsOpen
    rw [hvars]
    by_cases hid : p = id
    · subst hid
      simp [hp, hdeclared]
    · rw [List.getElem?_set_ne hid]
      exact ⟨fun h => ⟨h, Ne.symm hid⟩, And.left⟩

/-- After declarations exactly their variables have an initializer in addition. -/
theorem isOpen_redeclareAll {s : State C} {declared : List (VariableId × String)}
    {id : VariableId} :
    (s.redeclareAll declared).IsOpen id ↔ s.IsOpen id ∧ id ∉ declared.map Prod.fst := by
  unfold redeclareAll
  induction declared generalizing s with
  | nil => simp
  | cons first rest ih =>
    rw [List.foldl_cons, ih, isOpen_redeclare, List.map_cons, List.mem_cons]
    tauto

/-- Declarations only change contents. -/
theorem sameShape_redeclareAll (s : State C) (declared : List (VariableId × String)) :
    SameShape s (s.redeclareAll declared) := by
  unfold redeclareAll
  induction declared generalizing s with
  | nil => exact .refl s
  | cons first rest ih => exact (s.sameShape_redeclare first.1 first.2).trans (ih _)

/-- Declarations of different variables of the display, each of which is there
and without an initializer. -/
structure Declares (s : State C) (declared : List (VariableId × String)) : Prop where
  /-- No variable is declared twice. -/
  nodup : (declared.map Prod.fst).Nodup
  /-- Every variable was without an initializer. -/
  isOpen : ∀ d ∈ declared, s.IsOpen d.1

/-- Nothing is declared. -/
theorem Declares.nil (s : State C) : Declares s [] := ⟨.nil, by simp⟩

/-- One more declaration of a variable that is still without an initializer. -/
theorem Declares.append {s : State C} {declared : List (VariableId × String)} {id : VariableId}
    (h : Declares s declared) (hopen : (s.redeclareAll declared).IsOpen id)
    (initializer : String) : Declares s (declared ++ [(id, initializer)]) := by
  obtain ⟨hid, hnot⟩ := isOpen_redeclareAll.mp hopen
  constructor
  · rw [List.map_append, List.map_singleton, ← List.concat_eq_append]
    exact h.nodup.concat hnot
  · intro d hd
    rcases List.mem_append.mp hd with hd | hd
    · exact h.isOpen d hd
    · rw [List.mem_singleton.mp hd]
      exact hid

/-- Declarations that leave every variable without an initializer are none. -/
theorem Declares.eq_nil {s : State C} {declared : List (VariableId × String)}
    (h : Declares s declared) (hopen : ∀ id, s.IsOpen id → (s.redeclareAll declared).IsOpen id) :
    declared = [] := by
  cases declared with
  | nil => rfl
  | cons first rest =>
    have hid := hopen first.1 (h.isOpen first List.mem_cons_self)
    exact absurd List.mem_cons_self (isOpen_redeclareAll.mp hid).2

end State

/-- A small construction adds items behind, or declares an older variable. -/
theorem ConstructionStep.extends {e e' : Engine C R} (h : ConstructionStep e e') {base : State C}
    {declared : List (VariableId × String)} (hs : e.state.WellFormed)
    (hdeclares : base.Declares declared)
    (hextends : (base.redeclareAll declared).Extends e.state) :
    ∃ declared', base.Declares declared' ∧ (base.redeclareAll declared').Extends e'.state := by
  cases h with
  | createLocal hkey hfree initializer =>
    refine ⟨declared, hdeclares, ?_⟩
    rw [withState, State.createLocal_eq]
    exact (hextends.insert (by rw [State.newLocal_name]; exact hfree) (List.prefix_refl _)
      (List.prefix_refl _) rfl).markIf hs.ascending _ hextends.length_le
  | attach hkey hfree generator =>
    exact ⟨declared, hdeclares, hextends.insert hfree (List.prefix_append _ _)
      (List.prefix_refl _) rfl⟩
  | @redeclare key id hfound initializer =>
    by_cases hid : id < (base.redeclareAll declared).vars.length
    · by_cases hopen : (base.redeclareAll declared).IsOpen id
      · refine ⟨declared ++ [(id, initializer)], hdeclares.append hopen initializer, ?_⟩
        have hstep := hextends.redeclare_of_lt hs.ascending hid initializer
        rw [State.redeclareAll, List.foldl_append]
        exact hstep
      · refine ⟨declared, hdeclares, ?_⟩
        rcases e.state.redeclare_cases id initializer with ⟨he, -⟩ | ⟨v, hv, hk, -⟩
        · rw [withState, he]
          exact hextends
        · exact absurd ⟨v, (hextends.getElem?_vars hid).symm.trans hv, hk⟩ hopen
    · exact ⟨declared, hdeclares,
        hextends.redeclare_of_le hs.ascending (Nat.le_of_not_lt hid) initializer⟩
  | @createFormula e₁ source formula parameters changed hkey hfree hcompiled hlocated heval =>
    obtain ⟨f, w, errors, hdone, rfl⟩ := evaluateFormula_inserted heval
    have hfree' : e.state.lookup w.name = none := by
      rw [hdone.becomes.name]
      exact hfree
    have hunit : ∀ p, (base.redeclareAll declared).checkpoint.keeps p
        (.formula e.state.formulas.length) = false := by
      intro p
      have hle := hextends.formulas.length_le
      have hnot : decide (e.state.formulas.length < (base.redeclareAll declared).formulas.length) =
          false := decide_eq_false (Nat.not_lt.mpr hle)
      exact Bool.and_eq_false_iff.mpr (Or.inr hnot)
    have hinserted := hextends.insert hfree' (List.prefix_refl _)
      (List.prefix_append _ [{ variableId := e.state.nextId, parameters, formula := f }])
      (congrArg TriggerGraph.mk (State.filter_connect hunit e.state.triggers parameters))
    exact ⟨declared, hdeclares, hinserted.markIf hs.ascending changed hextends.length_le⟩

/-- What a construction leaves alone besides the state: it only records
failures of formulas. -/
theorem ConstructionStep.engine_eq {e e' : Engine C R} (h : ConstructionStep e e') :
    ∃ errors, e' = { e with state := e'.state, errors := e.errors ++ errors } := by
  cases h with
  | createLocal hkey hfree initializer => exact ⟨[], by simp [withState]⟩
  | redeclare hfound initializer => exact ⟨[], by simp [withState]⟩
  | attach hkey hfree generator => exact ⟨[], by simp [withState]⟩
  | createFormula hkey hfree hcompiled hlocated heval =>
    obtain ⟨f, w, errors, -, rfl⟩ := evaluateFormula_inserted heval
    exact ⟨errors, rfl⟩

theorem Construction.engine_eq {e e' : Engine C R} (h : Construction e e') :
    ∃ errors, e' = { e with state := e'.state, errors := e.errors ++ errors } := by
  induction h with
  | refl => exact ⟨[], by simp⟩
  | tail _ hstep ih =>
    obtain ⟨errors, he⟩ := ih
    obtain ⟨errors', he'⟩ := hstep.engine_eq
    refine ⟨errors ++ errors', ?_⟩
    rw [he', he]
    simp

/-- A construction adds items behind the state with some variables declared. -/
theorem Construction.extends {e e' : Engine C R} (h : Construction e e')
    (hs : e.state.WellFormed) : ∃ declared, e.state.Declares declared ∧
      (e.state.redeclareAll declared).Extends e'.state := by
  induction h with
  | refl => exact ⟨[], .nil _, .refl hs⟩
  | tail hchain hstep ih =>
    obtain ⟨declared, hdeclares, hextends⟩ := ih
    exact hstep.extends (Construction.wellFormed hchain hs) hdeclares hextends

/-- The engine with some variables of the display declared and nothing to be
redrawn for it. -/
def declareSilently (e : Engine C R) (declared : List (VariableId × String)) : Engine C R :=
  e.withState { e.state.redeclareAll declared with changed := e.state.changed }

/-- A refused transaction leaves the engine as it was, but for first
initializers of variables of the display. -/
theorem transaction_refused {α : Type} {build : Action C R α} {e e' : Engine C R}
    {failure : Failure}
    (hs : e.state.WellFormed)
    (hbuild : ∀ result after, build e = .done (result, after) → Construction e after)
    (h : transaction build e = .done (.error failure, e')) :
    ∃ declared, e.state.Declares declared ∧ e' = declareSilently e declared := by
  unfold transaction at h
  split at h
  · next failure' after hrefused =>
    obtain ⟨-, rfl⟩ : failure' = failure ∧ _ = e' := by simpa using h
    have hchain := hbuild _ _ hrefused
    obtain ⟨declared, hdeclares, hextends⟩ := hchain.extends hs
    obtain ⟨errors, hafter⟩ := hchain.engine_eq
    refine ⟨declared, hdeclares, ?_⟩
    have hshape := e.state.sameShape_redeclareAll declared
    have hcheckpoint : e.state.checkpoint =
        { (e.state.redeclareAll declared).checkpoint with changed := e.state.changed } := by
      simp only [State.checkpoint, hshape.length, hshape.generators_length,
        hshape.formulas_length]
    rw [hcheckpoint, hextends.rollback, hafter]
    simp [declareSilently, withState]
  · next hother =>
    exact absurd h (hother failure e')

end ProcessDisplay.Engine
