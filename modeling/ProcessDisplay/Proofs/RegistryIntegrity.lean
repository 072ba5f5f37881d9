import Mathlib.Data.List.Nodup
import Mathlib.Tactic.Common
import ProcessDisplay.Proofs.Transitions

/-!
# Integrity of the registry

Whatever an application does, in whatever order and with whatever refusals,
no position that a display holds dangles. Names are distinct and the name
index knows each of them, slots and formula units drive the variables of
their kind one by one, and formulas read only variables that are older than
their own. What is added here to well-formed registries are the coordinates
of traces, and the statement in the terms of a reader of the registry.
-/

namespace ProcessDisplay.Engine

variable {C : FormulaCompiler} {R : ScriptInterpreter}

/-- A driven variable has exactly one driver, and all others have none. -/
theorem Drives.existsUnique_iff {vars : List Variable}
    {kind : VariableKind} {ids : List VariableId} (h : Drives vars kind ids) (id : VariableId) :
    (∃ v, vars[id]? = some v ∧ v.kind = kind) ↔ ∃! k : Nat, ids[k]? = some id := by
  rw [← h.mem_iff]
  constructor
  · intro hid
    obtain ⟨k, hk⟩ := List.getElem?_of_mem hid
    refine ⟨k, hk, ?_⟩
    intro other hother
    have hlt : other < ids.length := (List.getElem?_eq_some_iff.mp hother).1
    exact (List.getElem?_inj hlt h.nodup).mp (hother.trans hk.symm)
  · rintro ⟨k, hk, -⟩
    exact List.mem_of_getElem? hk

namespace State

/-- The positions of variables that a display holds outside of its name index. -/
inductive Holds (s : State C) : VariableId → Prop where
  /-- A generator drives the variable. -/
  | generator {slot : GeneratorSlot} (h : slot ∈ s.generators) : Holds s slot.variableId
  /-- A formula computes the variable. -/
  | formula {unit : FormulaUnit C} (h : unit ∈ s.formulas) : Holds s unit.variableId
  /-- A formula reads the variable. -/
  | parameter {unit : FormulaUnit C} {p : VariableId} (h : unit ∈ s.formulas)
    (hp : p ∈ unit.parameters) : Holds s p
  /-- A rule reads the variable. -/
  | rule {unit : RuleUnit} {p : VariableId} (h : unit ∈ s.rules) (hp : p ∈ unit.inputs) : Holds s p
  /-- A script reads or writes the variable. -/
  | script {unit : ScriptUnit} {p : VariableId} (h : unit ∈ s.scripts) (hp : p ∈ unit.inputs) :
    Holds s p
  /-- A trace shows the variable. -/
  | trace {t : TraceUnit} {p : VariableId} (h : t ∈ s.traces) (hp : p ∈ t.coordinates) : Holds s p
  /-- The variable triggers a unit. -/
  | edge {p : VariableId} {u : UnitRef} (h : (p, u) ∈ s.triggers.edges) : Holds s p
  /-- The variable has changed since the last tick. -/
  | pending {p : VariableId} (h : p ∈ s.pending) : Holds s p

/-- The positions of units that a display holds. -/
inductive HoldsUnit (s : State C) : UnitRef → Prop where
  /-- A variable triggers the unit. -/
  | edge {p : VariableId} {u : UnitRef} (h : (p, u) ∈ s.triggers.edges) : HoldsUnit s u
  /-- The unit is new since the last tick. -/
  | fresh {u : UnitRef} (h : u ∈ s.fresh) : HoldsUnit s u

/-- The integrity of a registry. -/
structure Sound (s : State C) : Prop where
  /-- Names are pairwise distinct. -/
  distinct : (s.vars.map Variable.name).Nodup
  /-- The name index leads from exactly the name of every variable to its position. -/
  index : ∀ name id, s.lookup name = some id ↔ ∃ v, s.vars[id]? = some v ∧ v.name = name
  /-- Every variable that is held is there. -/
  held : ∀ id, s.Holds id → id < s.vars.length
  /-- Every unit that is held is registered. -/
  units : ∀ u, s.HoldsUnit u → s.Has u
  /-- Exactly the simulated variables have a generator, and each of them has one. -/
  simulated : ∀ id : VariableId, (∃ v, s.vars[id]? = some v ∧ v.kind = .simulated) ↔
    ∃! k : Nat, (s.generators.map GeneratorSlot.variableId)[k]? = some id
  /-- Exactly the formula variables have a formula, and each of them has one. -/
  computed : ∀ id : VariableId, (∃ v, s.vars[id]? = some v ∧ v.kind = .formula) ↔
    ∃! k : Nat, (s.formulas.map FormulaUnit.variableId)[k]? = some id
  /-- A formula reads variables that are older than its own. -/
  older : ∀ unit ∈ s.formulas, ∀ p ∈ unit.parameters, p < unit.variableId

/-- The name index of a well-formed registry, in both directions. -/
theorem WellFormed.lookup_iff {s : State C} (h : s.WellFormed) (name : String) (id : VariableId) :
    s.lookup name = some id ↔ ∃ v, s.vars[id]? = some v ∧ v.name = name := by
  constructor
  · exact h.of_lookup
  · rintro ⟨v, hv, rfl⟩
    exact h.named id v hv

/-- Variables of a well-formed registry have different names. -/
theorem WellFormed.nodup_names {s : State C} (h : s.WellFormed) :
    (s.vars.map Variable.name).Nodup := by
  rw [List.nodup_iff_injective_get]
  intro a b hab
  have ha : a.val < s.vars.length := by simpa using a.isLt
  have hb : b.val < s.vars.length := by simpa using b.isLt
  have hname : s.vars[a.val].name = s.vars[b.val].name := by simpa using hab
  have hfirst := h.named a.val _ (List.getElem?_eq_getElem ha)
  have hsecond := h.named b.val _ (List.getElem?_eq_getElem hb)
  rw [hname, hsecond] at hfirst
  have hsame : b.val = a.val := Option.some.inj hfirst
  exact Fin.ext hsame.symm

/-- The coordinates of every trace are variables of the display. -/
def TracesInRange (s : State C) : Prop :=
  ∀ ids ∈ s.traces.map TraceUnit.coordinates, ∀ p ∈ ids, p < s.vars.length

/-- Traces with the same coordinates stay in range of more variables. -/
theorem TracesInRange.of_map_eq {s s' : State C} (h : s.TracesInRange)
    (htraces : s'.traces.map TraceUnit.coordinates = s.traces.map TraceUnit.coordinates)
    (hlength : s.vars.length ≤ s'.vars.length) : s'.TracesInRange := by
  intro ids hids p hp
  rw [htraces] at hids
  exact Nat.lt_of_lt_of_le (h ids hids p hp) hlength

/-- A well-formed registry whose traces are in range is sound. -/
theorem WellFormed.sound {s : State C} (h : s.WellFormed) (htraces : s.TracesInRange) :
    s.Sound := by
  constructor
  case distinct => exact h.nodup_names
  case index => exact h.lookup_iff
  case held =>
    intro id hid
    cases hid with
    | generator hslot => exact h.generators.lt (List.mem_map_of_mem hslot)
    | formula hunit => exact h.formulas.lt (List.mem_map_of_mem hunit)
    | @parameter unit _ hunit hp =>
      have hown := h.formulas.lt (List.mem_map_of_mem hunit)
      exact Nat.lt_trans (h.parameters unit hunit id hp) hown
    | rule hunit hp => exact h.rules _ hunit id hp
    | script hunit hp => exact h.scripts _ hunit id hp
    | trace ht hp => exact htraces _ (List.mem_map_of_mem ht) id hp
    | edge hedge => exact (h.ends _ hedge).1
    | pending hp => exact h.pending id hp
  case units =>
    intro u hu
    cases hu with
    | edge hedge => exact (h.ends _ hedge).2
    | fresh hfresh => exact (h.fresh u hfresh).2
  case simulated => exact h.generators.existsUnique_iff
  case computed => exact h.formulas.existsUnique_iff
  case older => exact h.parameters

end State

/-- No variable goes away in a move. -/
theorem Moves.length_le {vars after : List Variable} {touched : VariableId → Prop}
    (h : Moves vars after touched) : vars.length ≤ after.length := by
  by_contra hless
  have hlt : after.length < vars.length := by omega
  obtain ⟨w, hw, -⟩ := h after.length vars[after.length] (List.getElem?_eq_getElem hlt)
  have hin := (List.getElem?_eq_some_iff.mp hw).1
  omega

/-- Declarations only change variables, what is pending and the redraw flag. -/
theorem State.untouched_redeclareAll (s : State C) (declared : List (VariableId × String)) :
    s.Untouched (s.redeclareAll declared) := by
  unfold State.redeclareAll
  induction declared generalizing s with
  | nil => exact .refl s
  | cons first rest ih =>
    have hfirst : s.Untouched (s.redeclare first.1 first.2) := by
      rcases s.redeclare_cases first.1 first.2 with ⟨he, -⟩ | ⟨v, -, -, ⟨-, he⟩ | ⟨-, he⟩⟩
      · rw [he]
        exact .refl s
      · rw [he]
        rfl
      · rw [he]
        rfl
    exact hfirst.trans (ih _)

/-- A construction leaves the traces alone and drops no variable. -/
theorem Construction.traces {e e' : Engine C R} (h : Construction e e')
    (hs : e.state.WellFormed) :
    e'.state.traces = e.state.traces ∧ e.state.vars.length ≤ e'.state.vars.length := by
  obtain ⟨declared, -, hextends⟩ := h.extends hs
  have hshape := e.state.sameShape_redeclareAll declared
  have hlength := hextends.length_le
  rw [hshape.length] at hlength
  have hdeclared : (e.state.redeclareAll declared).traces = e.state.traces := by
    rw [e.state.untouched_redeclareAll declared]
  exact ⟨hextends.traces.trans hdeclared, hlength⟩

/-- The traces of a construction are in range. -/
theorem Construction.tracesInRange {e e' : Engine C R} (h : Construction e e')
    (hs : e.state.WellFormed) (htraces : e.state.TracesInRange) : e'.state.TracesInRange := by
  obtain ⟨hsame, hlength⟩ := h.traces hs
  exact htraces.of_map_eq (by rw [hsame]) hlength

/-- A trace is fed without being moved to other variables. -/
theorem map_coordinates_feed (traces : List TraceUnit) (vars : List Variable)
    (dirty : VariableSet) (now wall : Time.Instant) :
    (traces.map fun t => t.feed vars dirty now wall).map TraceUnit.coordinates =
      traces.map TraceUnit.coordinates := by
  rw [List.map_map]
  rfl

/-- A preparation feeds the traces where they are. -/
theorem traces_of_prepare {s : Stage C R} {clock : Time.Clock} {wall : Time.Instant}
    {p : Prepared C R} (hs : s.engine.state.WellFormed) (h : s.prepare clock wall = .done p) :
    p.stage.engine.state.traces.map TraceUnit.coordinates =
      s.engine.state.traces.map TraceUnit.coordinates := by
  obtain ⟨now, generators, hframe⟩ := frame_of_prepare hs h
  rw [hframe]
  exact map_coordinates_feed _ _ _ _ _

/-- A tick keeps the coordinates of traces in range. -/
theorem Ticked.tracesInRange {s s' : Stage C R} {clock : Time.Clock} {wall : Time.Instant}
    {report : TickReport} {p : Prepared C R} (h : Ticked s s' clock wall report p)
    (hs : s.engine.state.WellFormed) (htraces : s.engine.state.TracesInRange) :
    s'.engine.state.TracesInRange := by
  have hprepared := traces_of_prepare hs h.prepared
  have hran : s'.engine.state.traces = p.stage.engine.state.traces := by rw [h.runs.untouched]
  refine htraces.of_map_eq ?_ h.moves.length_le
  rw [hran, hprepared]

/-- A new trace of variables that are located is in range. -/
theorem State.TracesInRange.addTrace {s : State C} (h : s.TracesInRange) (hs : s.WellFormed)
    {name : String} {names : List String} {ids : List VariableId}
    (hlocated : List.Forall₂ (fun name id => s.located name = some id) (name :: names) ids)
    (buffer : Trace.Buffer) :
    (s.addTrace
      { vertical := ids.headD invalidId, horizontal := ids.tail.head?, buffer }).TracesInRange := by
  have hrange := hs.forall_located_lt hlocated
  have hnew : ∀ p ∈ TraceUnit.coordinates
      { vertical := ids.headD invalidId, horizontal := ids.tail.head?, buffer }, p ∈ ids := by
    cases hlocated with
    | @cons _ vertical _ rest hfirst hrest =>
      cases rest with
      | nil => simp [TraceUnit.coordinates]
      | cons horizontal rest => simp [TraceUnit.coordinates]
  intro found hfound p hp
  rw [State.addTrace, List.map_append, List.mem_append] at hfound
  rcases hfound with hold | hlast
  · exact h found hold p hp
  · obtain rfl := List.mem_singleton.mp hlast
    exact hrange p (hnew p hp)

/-- Every operation keeps the coordinates of traces in range. -/
theorem Transition.tracesInRange {s s' : Stage C R} {entry : Operation × Answer}
    (h : Transition s entry s') (hs : s.engine.state.WellFormed)
    (htraces : s.engine.state.TracesInRange) : s'.engine.state.TracesInRange := by
  cases h with
  | @refused operation answer declared memory hrefused hdeclares hmemory =>
    have hshape := s.engine.state.sameShape_redeclareAll declared
    have hsame : (s.engine.state.redeclareAll declared).traces = s.engine.state.traces := by
      rw [s.engine.state.untouched_redeclareAll declared]
    exact htraces.of_map_eq (congrArg (List.map TraceUnit.coordinates) hsame)
      (Nat.le_of_eq hshape.length.symm)
  | created h hlocated => exact h.tracesInRange hs htraces
  | attached hfree => exact htraces.of_map_eq rfl (by simp [State.attachGenerator,
      State.insertVariable, withState])
  | written hwrite =>
    obtain ⟨v, -, -, rfl⟩ := State.write_eq_ok_iff.mp hwrite
    exact htraces.of_map_eq rfl (by simp [withState])
  | ruled hcompiled h hlocated =>
    exact (h.tracesInRange hs htraces).of_map_eq rfl (Nat.le_refl _)
  | scripted h hlocated =>
    exact (h.tracesInRange hs htraces).of_map_eq rfl (Nat.le_refl _)
  | traced h hlocated =>
    exact (h.tracesInRange hs htraces).addTrace (h.wellFormed hs) hlocated _
  | ticked h =>
    obtain ⟨p, hticked⟩ := ticked_of_tick hs h
    exact hticked.tracesInRange hs htraces
  | reset =>
    intro ids hids
    cases hids
  | aside hkind hsettings hmemory hstate hsame =>
    refine htraces.of_map_eq hsame ?_
    rw [hstate]

/-- The coordinates of traces are in range throughout a session. -/
theorem Session.tracesInRange {j : Journal} {s : Stage C R} (h : Session C R j s) :
    s.engine.state.TracesInRange := by
  induction h with
  | start settings epoch panel =>
    intro ids hids
    cases hids
  | step hsession hstep ih =>
    exact (transition_of_perform hsession.wellFormed hstep).tracesInRange hsession.wellFormed ih

/-- The registry of every state that a display reaches is sound. -/
theorem registry_sound {settings : Settings} {epoch : Time.Instant} {panel : Panel}
    {operations : List Operation} {answers : List Answer} {s : Stage C R}
    (hrun : (Stage.mk (Engine.start C R settings epoch) panel).run operations =
      .done (answers, s)) : s.engine.state.Sound := by
  have hsession := session_of_run hrun
  exact hsession.wellFormed.sound hsession.tracesInRange

/-- A display with a formula, a script and a trace that share variables, a name
with a custom generator, and a refused trace. -/
def mixedRun : List Operation :=
  [.create "='loc://in(1)' + 1", .addScript 0 doubling,
    .registerGenerator "my sine" Generator.empty,
    .createTrace { vertical := "my sine", horizontal := some "loc://out" },
    hopelessTrace "loc://in(7)", .tick 1000 0]

/-- The mixed display is sound. -/
theorem registry_sound_mixed : ∃ answers s,
    (bareStage [numberWidget]).run mixedRun = .done (answers, s) ∧
      s.engine.state.counts = ⟨4, 1, 0, 1, 1⟩ ∧ s.engine.state.Sound := by
  obtain ⟨⟨answers, s⟩, hrun, hcheck⟩ := done_of_any
    (fun reached : List Answer × BundledStage =>
      decide (reached.2.engine.state.counts = ⟨4, 1, 0, 1, 1⟩))
    (show ((bareStage [numberWidget]).run mixedRun).value?.any _ = true by decide +kernel)
  exact ⟨answers, s, hrun, of_decide_eq_true hcheck, registry_sound (run_bareStage hrun)⟩

end ProcessDisplay.Engine
