import Mathlib.Tactic.Common
import ProcessDisplay.Proofs.NameIdentity
import ProcessDisplay.Proofs.Readings
import ProcessDisplay.Proofs.TickSurvival

/-!
# Who may change a variable

What a variable reads changes only by the authority that its kind gives: a
simulated variable by a sample of its generator, a formula variable by an
evaluation of its formula, and a variable of the display by a write under one
of its names, a write of a script that has it as an input, or its first
initializer while it has no value.
-/

namespace ProcessDisplay.Engine

variable {C : FormulaCompiler} {R : ScriptInterpreter}

/-- Operations that construct variables and may declare those that exist. -/
def Operation.constructs : Operation → Bool
  | .create _ | .addRule _ _ | .addScript _ _ | .createTrace _ => true
  | _ => false

/-- The changes of the variable at a position that an operation, with what it
answered, has authority for. -/
inductive Authorized (s : Stage C R) (id : VariableId) :
    Operation × Answer → Variable → Variable → Prop where
  /-- A simulated variable gets a sample that its generator emits in a tick. -/
  | sampled {clock : Time.Clock} {wall now : Time.Instant} {report : TickReport} {v : Variable}
    {sample : Sample} (hkind : v.kind = .simulated)
    (hnow : Time.instantAt s.engine.state.epoch clock = .done now)
    (hemits : Emits s.engine.state.generators clock now id sample) :
    Authorized s id (.tick clock wall, .ticked report) v (v.apply sample).1
  /-- A formula variable is as the last evaluation of its formula in a tick left it. -/
  | evaluated {clock : Time.Clock} {wall : Time.Instant} {report : TickReport}
    {v w : Variable} {b : Stage C R} (hkind : v.kind = .formula)
    (hbegin : s.begin clock = .done b) (hevaluates : Evaluates b.engine report.formulas id w) :
    Authorized s id (.tick clock wall, .ticked report) v w
  /-- A variable of the display gets a value from a script that has its turn
  in a tick and has the variable as an input. -/
  | scripted {clock : Time.Clock} {wall : Time.Instant} {report : TickReport} {v : Variable}
    {p : Prepared C R} {turn : Stage C R × UnitRef} {value : Value}
    (hwritable : v.isWritable = true) (hprepared : s.prepare clock wall = .done p)
    (hturn : turn ∈ p.stage.turns p.due) (hwrites : turn.1.WritesTo turn.2 id value) :
    Authorized s id (.tick clock wall, .ticked report) v
      (v.apply { value, time := p.stage.engine.state.now }).1
  /-- A variable of the display gets a value under a name that finds it. -/
  | assigned {name : String} {value : Value} {v : Variable} (hwritable : v.isWritable = true)
    (hfind : s.engine.state.find name = some id) :
    Authorized s id (.setValue name value, .settled (.ok ())) v
      (v.apply { value, time := s.engine.state.now }).1
  /-- A variable of the display without an initializer and without a value
  gets its first initializer, and its value with it. -/
  | initialized {operation : Operation} {answer : Answer} {v : Variable} {initializer : String}
    (hconstructs : operation.constructs = true) (hkind : v.kind = .localVariable none)
    (hvalue : v.value = none) :
    Authorized s id (operation, answer) v (s.engine.state.declared v initializer)

/-- What a variable becomes under an operation: it reads what it read or was
changed with authority, and a recorded initializer stays. -/
structure Permitted (s : Stage C R) (id : VariableId) (entry : Operation × Answer)
    (v w : Variable) : Prop where
  /-- What is read changes with authority only. -/
  reading : w.reading = v.reading ∨ Authorized s id entry v w
  /-- Only a variable of the display without an initializer gets one. -/
  kind : w.kind = v.kind ∨
    v.kind = .localVariable none ∧ ∃ initializer, w.kind = .localVariable (some initializer)

/-- A variable may stay as it is. -/
theorem Permitted.refl (s : Stage C R) (id : VariableId) (entry : Operation × Answer)
    (v : Variable) : Permitted s id entry v v := ⟨Or.inl rfl, Or.inl rfl⟩

/-- A first initializer is permitted, whether or not the variable has a value. -/
theorem permitted_of_inherits {s : Stage C R} {vars : List Variable}
    (h : s.engine.state.Inherits vars) {operation : Operation}
    (hconstructs : operation.constructs = true) (answer : Answer) {id : VariableId} {v : Variable}
    (hv : s.engine.state.vars[id]? = some v) :
    ∃ w, vars[id]? = some w ∧ Permitted s id (operation, answer) v w := by
  rcases h id v hv with hsame | ⟨hkind, initializer, hdeclared⟩
  · exact ⟨v, hsame, .refl s id _ v⟩
  · have hinitialized := s.engine.state.declared_kind v initializer
    refine ⟨_, hdeclared, ?_, Or.inr ⟨hkind, initializer, hinitialized⟩⟩
    by_cases hvalue : v.value = none
    · exact Or.inr (.initialized hconstructs hkind hvalue)
    · exact Or.inl (s.engine.state.reading_declared hvalue initializer)

/-- What a tick prepares changes simulated variables and formula variables
only, each by its own authority. -/
theorem prepare_reading {s : Stage C R} {clock : Time.Clock} {wall : Time.Instant}
    {p : Prepared C R} {report : TickReport} (hs : s.engine.state.WellFormed)
    (h : s.prepare clock wall = .done p) (hformulas : report.formulas = p.formulas)
    {id : VariableId} {v : Variable} (hv : s.engine.state.vars[id]? = some v) :
    ∃ u, p.stage.engine.state.vars[id]? = some u ∧ (u = v ∨
      v.isWritable = false ∧ Authorized s id (.tick clock wall, .ticked report) v u) := by
  obtain ⟨now, hnow, h⟩ := Outcome.bind_eq_done_iff.mp h
  obtain ⟨a, hadvance, h⟩ := Outcome.bind_eq_done_iff.mp h
  obtain ⟨q, hpropagate, h⟩ := Outcome.bind_eq_done_iff.mp h
  obtain rfl := Outcome.done.inj h
  have hadvances := advance_spec hs.generator_kind hadvance
  have hsbegin := wellFormed_beginTick now hs hadvances
  have hbegin := Stage.begin_eq_done hnow hadvance
  obtain ⟨u, hu, hsampled⟩ := advance_reading hadvance hv
  rcases passes_reading hsbegin (Propagation.propagate_passes hpropagate) hu with
    ⟨-, hlast⟩ | ⟨w, hw, hevaluates⟩
  · -- no formula of this variable was evaluated, so only a generator can have changed it
    refine ⟨u, hlast, hsampled.imp_right ?_⟩
    rintro ⟨sample, hemits, rfl⟩
    have hkind : v.kind = .simulated := by
      obtain ⟨slot, hslot, rfl, -⟩ := hemits
      obtain ⟨v', hv', hk⟩ := (hs.generators.mem_iff _).mp (List.mem_map_of_mem hslot)
      obtain rfl := Option.some.inj (hv.symm.trans hv')
      exact hk
    exact ⟨by rw [Variable.isWritable, hkind], .sampled hkind hnow hemits⟩
  · have hkind : v.kind = .formula := by
      obtain ⟨_, run, _, _, _, -, -, -, hcomputed, -⟩ := hevaluates
      rw [(sameShape_beginTick now hadvances).computed?] at hcomputed
      obtain ⟨unit, hunit, rfl⟩ := Option.map_eq_some_iff.mp hcomputed
      obtain ⟨v', hv', hk⟩ := hs.of_formula hunit
      obtain rfl := Option.some.inj (hv.symm.trans hv')
      exact hk
    refine ⟨w, hw, Or.inr ⟨by rw [Variable.isWritable, hkind], .evaluated hkind hbegin ?_⟩⟩
    rw [hformulas]
    exact hevaluates

/-- A tick changes what variables read only as each of them permits. -/
theorem permitted_of_tick {s s' : Stage C R} {clock : Time.Clock} {wall : Time.Instant}
    {report : TickReport} (hs : s.engine.state.WellFormed)
    (h : s.tick clock wall = .done (s', report)) {id : VariableId} {v : Variable}
    (hv : s.engine.state.vars[id]? = some v) :
    ∃ w, s'.engine.state.vars[id]? = some w ∧
      Permitted s id (.tick clock wall, .ticked report) v w := by
  obtain ⟨p, hticked⟩ := ticked_of_tick hs h
  obtain ⟨u, hu, hprepared⟩ := prepare_reading hs hticked.prepared hticked.formulas hv
  obtain ⟨w, hw, hwritten⟩ := runUnits_reading hticked.ran hu
  refine ⟨w, hw, ?_⟩
  have hbecomes : v.Becomes u := by
    obtain ⟨u', hu', hbecomes, -⟩ := hticked.prepares.moves id v hv
    obtain rfl := Option.some.inj (hu.symm.trans hu')
    exact hbecomes
  rcases hprepared with rfl | ⟨hv', hauthorized⟩
  · rcases hwritten with rfl | ⟨_, ⟨hwritable, value, ⟨turn, hturn, hwrites⟩, rfl⟩, rfl⟩
    · exact .refl s id _ w
    · exact ⟨Or.inr (.scripted hwritable hticked.prepared hturn hwrites), Or.inl rfl⟩
  · have hkind := hbecomes.kind_eq hv'
    rcases hwritten with rfl | ⟨_, ⟨hwritable, -⟩, -⟩
    · exact ⟨Or.inr hauthorized, Or.inl hkind⟩
    · rw [Variable.isWritable, hkind] at hwritable
      exact absurd hwritable (Bool.eq_false_iff.mp hv')

/-- A name finds a variable of the display. -/
def State.FindsLocal (s : State C) (name : String) (id : VariableId) (v : Variable) : Prop :=
  s.find name = some id ∧ s.vars[id]? = some v ∧ ∃ initializer, v.kind = .localVariable initializer

/-- A write under a name that finds a variable of the display takes effect;
any other write is refused and changes nothing. -/
theorem perform_setValue (s : Stage C R) (name : String) (value : Value) :
    (∃ id v state, s.engine.state.FindsLocal name id v ∧
      s.engine.state.write id value = .ok state ∧
      s.perform (.setValue name value) =
        .done (.settled (.ok ()), { s with engine := s.engine.withState state })) ∨
    (∀ id v, ¬s.engine.state.FindsLocal name id v) ∧
      ∃ failure, s.perform (.setValue name value) = .done (.settled (.error failure), s) := by
  cases hfind : s.engine.state.find name with
  | none =>
    refine Or.inr ⟨?_, .unknownName name, ?_⟩
    · rintro id v ⟨hfound, -⟩
      rw [hfind] at hfound
      cases hfound
    · simp only [Stage.perform, Stage.act, setValue, hfind, Outcome.done_bind, Outcome.pure_eq]
  | some id =>
    cases hwrite : s.engine.state.write id value with
    | ok state =>
      obtain ⟨v, hv, hwritable, -⟩ := State.write_eq_ok_iff.mp hwrite
      have hlocal := Variable.isWritable_iff.mp hwritable
      refine Or.inl ⟨id, v, state, ⟨hfind, hv, hlocal⟩, hwrite, ?_⟩
      simp only [Stage.perform, Stage.act, setValue, hfind, hwrite, Outcome.done_bind,
        Outcome.pure_eq]
    | error failure =>
      refine Or.inr ⟨?_, failure, ?_⟩
      · rintro id' v ⟨hfound, hv, hlocal⟩
        obtain rfl := Option.some.inj (hfind.symm.trans hfound)
        have hwritable := Variable.isWritable_iff.mpr hlocal
        rw [State.write_eq_ok_iff.mpr ⟨v, hv, hwritable, rfl⟩] at hwrite
        cases hwrite
      · simp only [Stage.perform, Stage.act, setValue, hfind, hwrite, Outcome.done_bind,
          Outcome.pure_eq]

/-- A write under a name changes what variables read only as permitted. -/
theorem permitted_of_setValue {s s' : Stage C R} {name : String} {value : Value} {answer : Answer}
    (h : s.perform (.setValue name value) = .done (answer, s')) {id : VariableId} {v : Variable}
    (hv : s.engine.state.vars[id]? = some v) :
    ∃ w, s'.engine.state.vars[id]? = some w ∧
      Permitted s id (.setValue name value, answer) v w := by
  rcases perform_setValue s name value with
    ⟨p, u, state, ⟨hfind, -⟩, hwrite, hdone⟩ | ⟨-, failure, hdone⟩
  · obtain ⟨rfl, rfl⟩ : .settled (.ok ()) = answer ∧ _ = s' := by simpa using hdone.symm.trans h
    obtain ⟨w, hw, hrewritten⟩ := State.write_reading hwrite hv
    refine ⟨w, hw, ?_⟩
    rcases hrewritten with rfl | ⟨_, ⟨hwritable, _, ⟨rfl, rfl⟩, rfl⟩, rfl⟩
    · exact .refl s id _ w
    · exact ⟨Or.inr (.assigned hwritable hfind), Or.inl rfl⟩
  · obtain ⟨rfl, rfl⟩ : .settled (.error failure) = answer ∧ s = s' := by
      simpa using hdone.symm.trans h
    exact ⟨v, hv, .refl s id _ v⟩

/-- An operation that constructs reaches variables. -/
theorem Operation.isAside_of_constructs {operation : Operation}
    (h : operation.constructs = true) : operation.isAside = false := by
  cases operation with
  | create | addRule | addScript | createTrace => rfl
  | _ => cases h

/-- What reaches neither variables nor units is never refused. -/
theorem Operation.not_isRefused_of_aside {operation : Operation} (h : operation.isAside = true)
    (answer : Answer) : ¬operation.IsRefused answer := by
  cases operation with
  | assign | editTrace | takeErrors | takeMessages => exact id
  | _ => cases h

/-- An operation that constructs gives older variables their first
initializers at most, whether or not it is refused. -/
theorem Transition.inherits {s s' : Stage C R} {operation : Operation} {answer : Answer}
    (h : Transition s (operation, answer) s') (hs : s.engine.state.WellFormed)
    (hconstructs : operation.constructs = true) :
    s.engine.state.Inherits s'.engine.state.vars := by
  cases h with
  | @refused _ _ declared _ hrefused hdeclares hmemory =>
    exact s.engine.state.inherits_redeclareAll declared
  | created h hlocated => exact h.inherits hs
  | ruled hcompiled h hlocated => exact h.inherits hs
  | scripted h hlocated =>
    have hinherits := Construction.inherits h hs
    exact hinherits
  | traced h hlocated => exact h.inherits hs
  | attached hfree => cases hconstructs
  | written hwrite => cases hconstructs
  | ticked h => cases hconstructs
  | reset => cases hconstructs
  | aside hkind =>
    rw [Operation.isAside_of_constructs hconstructs] at hkind
    cases hkind

/-- What reaches neither variables nor units leaves the variables as they are. -/
theorem Transition.vars_aside {s s' : Stage C R} {operation : Operation} {answer : Answer}
    (h : Transition s (operation, answer) s') (hkind : operation.isAside = true) :
    s'.engine.state.vars = s.engine.state.vars := by
  cases h with
  | refused hrefused => exact absurd hrefused (Operation.not_isRefused_of_aside hkind answer)
  | aside hkind hsettings hmemory hstate htraces => rw [hstate]
  | _ => cases hkind

/-- An operation other than a new start keeps every variable and changes what
it reads only as permitted. -/
theorem permitted_of_perform {s s' : Stage C R} {operation : Operation} {answer : Answer}
    (hs : s.engine.state.WellFormed) (h : s.perform operation = .done (answer, s'))
    (hreset : operation.isReset = false) {id : VariableId} {v : Variable}
    (hv : s.engine.state.vars[id]? = some v) :
    ∃ w, s'.engine.state.vars[id]? = some w ∧ Permitted s id (operation, answer) v w := by
  have htransition := transition_of_perform hs h
  have hinherits : operation.constructs = true → ∃ w, s'.engine.state.vars[id]? = some w ∧
      Permitted s id (operation, answer) v w := fun hconstructs =>
    permitted_of_inherits (htransition.inherits hs hconstructs) hconstructs answer hv
  have haside : operation.isAside = true → ∃ w, s'.engine.state.vars[id]? = some w ∧
      Permitted s id (operation, answer) v w := fun hkind =>
    ⟨v, by rw [htransition.vars_aside hkind, hv], .refl s id _ v⟩
  cases operation with
  | registerGenerator name generator =>
    obtain ⟨result, e', haction, rfl, rfl⟩ := act_eq_done h
    refine ⟨v, ?_, .refl s id _ v⟩
    rcases registerGenerator_cases haction with ⟨failure, -, rfl⟩ | ⟨-, -, rfl⟩
    · exact hv
    · exact getElem?_append_singleton.mpr (Or.inl hv)
  | setValue name value => exact permitted_of_setValue h hv
  | tick clock wall =>
    obtain ⟨⟨after, report⟩, htick, h⟩ := Outcome.bind_eq_done_iff.mp h
    obtain ⟨rfl, rfl⟩ : Answer.ticked report = answer ∧ after = s' := by simpa using h
    exact permitted_of_tick hs htick hv
  | reset epoch => cases hreset
  | create | addRule | addScript | createTrace => exact hinherits rfl
  | assign | editTrace | takeErrors | takeMessages => exact haside rfl

/-- The variables of a state are changed with authority only. -/
structure Stage.Governed (s : Stage C R) : Prop where
  /-- Every operation that returns, whether or not it is refused, keeps every
  variable and changes it as permitted, unless it starts the display again. -/
  changes : ∀ operation answer s', s.perform operation = .done (answer, s') →
    operation.isReset = false → ∀ (id : VariableId) (v : Variable),
      s.engine.state.vars[id]? = some v →
        ∃ w, s'.engine.state.vars[id]? = some w ∧ Permitted s id (operation, answer) v w
  /-- A display that is started again has no variables. -/
  reset : ∀ epoch answer s', s.perform (.reset epoch) = .done (answer, s') →
    s'.engine.state.vars = []
  /-- A write under a name succeeds if and only if the name finds a variable of
  the display. Then the value is read under the name and no other variable
  has changed; otherwise nothing has changed. -/
  assignments : ∀ name value, ∃ result s',
    s.perform (.setValue name value) = .done (.settled result, s') ∧
      (result = .ok () ↔ ∃ id v, s.engine.state.FindsLocal name id v) ∧
      (result = .ok () → s'.engine.value? name = some value ∧
        ∀ id, s.engine.state.find name ≠ some id →
          s'.engine.state.vars[id]? = s.engine.state.vars[id]?) ∧
      (result ≠ .ok () → s' = s)

/-- What a write under a name does to the variable that it finds and to the others. -/
theorem read_of_write {e : Engine C R} {name : String} {value : Value} {id : VariableId}
    {v : Variable} {state : State C} (hfinds : e.state.FindsLocal name id v)
    (hwrite : e.state.write id value = .ok state) :
    (e.withState state).value? name = some value ∧
      ∀ other, e.state.find name ≠ some other → state.vars[other]? = e.state.vars[other]? := by
  obtain ⟨hfind, hv, -⟩ := hfinds
  obtain ⟨u, hu, -, hstate⟩ := State.write_eq_ok_iff.mp hwrite
  have hvars : state.vars = e.state.vars.set id (u.apply { value, time := e.state.now }).1 := by
    rw [hstate]
  have hlater : state.find name = some id := by
    have hnames : state.names = e.state.names := by rw [hstate]
    simpa only [State.find, State.lookup, hnames] using hfind
  have hwritten : state.vars[id]? = some (u.apply { value, time := e.state.now }).1 := by
    rw [hvars]
    exact List.getElem?_set_self (List.getElem?_eq_some_iff.mp hu).1
  refine ⟨?_, fun other hother => ?_⟩
  · simp [value?, variableNamed, withState, hlater, hwritten, Variable.apply]
  · rw [hvars]
    refine List.getElem?_set_ne ?_
    rintro rfl
    exact hother hfind

/-- In every state that is reached, whatever is done with the engine changes
what a variable reads only by the authority of its kind, and writes under a
name reach exactly the variables of the display. -/
theorem changes_authorized {settings : Settings} {epoch : Time.Instant} {panel : Panel}
    {operations : List Operation} {answers : List Answer} {s : Stage C R}
    (hrun : (Stage.mk (Engine.start C R settings epoch) panel).run operations =
      .done (answers, s)) : s.Governed := by
  have hs := (session_of_run hrun).wellFormed
  constructor
  case changes =>
    intro operation answer s' h hreset id v hv
    exact permitted_of_perform hs h hreset hv
  case reset =>
    intro epoch answer s' h
    obtain ⟨-, rfl⟩ : _ = answer ∧ _ = s' := by simpa [Stage.perform] using h
    rfl
  case assignments =>
    intro name value
    rcases perform_setValue s name value with
      ⟨id, v, state, hfinds, hwrite, hdone⟩ | ⟨hnone, failure, hdone⟩
    · refine ⟨.ok (), _, hdone, iff_of_true rfl ⟨id, v, hfinds⟩, fun _ => ?_, fun h => absurd rfl h⟩
      exact read_of_write hfinds hwrite
    · have hrefused : Except.error failure ≠ Except.ok () := by
        intro h
        cases h
      have hmisses : ¬∃ id v, s.engine.state.FindsLocal name id v := by
        rintro ⟨id, v, hfinds⟩
        exact hnone id v hfinds
      exact ⟨.error failure, s, hdone, iff_of_false hrefused hmisses,
        fun h => absurd h hrefused, fun _ => rfl⟩

/-- A name finds a variable of the display if the variable of the name is of that kind. -/
theorem findsLocal_iff {e : Engine C R} {name : String} :
    (∃ id v, e.state.FindsLocal name id v) ↔
      ∃ initializer,
        (e.variableNamed name).map Variable.kind = some (.localVariable initializer) := by
  constructor
  · rintro ⟨id, v, hfind, hv, initializer, hkind⟩
    exact ⟨initializer, by simp [variableNamed, hfind, hv, hkind]⟩
  · rintro ⟨initializer, hnamed⟩
    obtain ⟨v, hv, hkind⟩ := Option.map_eq_some_iff.mp hnamed
    obtain ⟨id, hfind, hv⟩ := Option.bind_eq_some_iff.mp hv
    exact ⟨id, v, hfind, hv, initializer, hkind⟩

/-- A variable of the display, a formula of it and a clock. -/
def threeKindsRun : List Operation :=
  [.create "='loc://in(1)' + 1", .create "sys://time", .tick 0 0]

/-- The variable of the display is written under another spelling of its name;
a write to the formula variable or to the clock is refused and changes nothing. -/
theorem changes_authorized_kinds : ∃ answers s,
    (bareStage []).run threeKindsRun = .done (answers, s) ∧ s.Governed ∧
      (∃ s', s.perform (.setValue "loc://in(7)" (.number 4)) = .done (.settled (.ok ()), s') ∧
        s'.engine.value? "loc://in(7)" = some (.number 4)) ∧
      ∀ name ∈ ["='loc://in(1)' + 1", "sys://time"], ∃ result,
        s.perform (.setValue name (.number 4)) = .done (.settled result, s) ∧ result ≠ .ok () := by
  obtain ⟨⟨answers, s⟩, hrun, hcheck⟩ := done_of_any
    (fun reached : List Answer × BundledStage =>
      decide ((["loc://in(7)", "='loc://in(1)' + 1", "sys://time"].map fun name =>
        (reached.2.engine.variableNamed name).map Variable.kind) =
          [some (.localVariable (some "1")), some .formula, some .simulated]))
    (show ((bareStage []).run threeKindsRun).value?.any _ = true by decide +kernel)
  have hgoverned : s.Governed := changes_authorized (run_bareStage hrun)
  have hkinds := of_decide_eq_true hcheck
  simp only [List.map_cons, List.map_nil, List.cons.injEq] at hkinds
  obtain ⟨hlocal, hformula, hclock, -⟩ := hkinds
  refine ⟨answers, s, hrun, hgoverned, ?_, fun name hname => ?_⟩
  · obtain ⟨result, s', hperform, hiff, hok, -⟩ :=
      hgoverned.assignments "loc://in(7)" (.number 4)
    obtain rfl := hiff.mpr (findsLocal_iff.mpr ⟨_, hlocal⟩)
    exact ⟨s', hperform, (hok rfl).1⟩
  · obtain ⟨result, s', hperform, hiff, -, hrefused⟩ := hgoverned.assignments name (.number 4)
    have hother : result ≠ .ok () := by
      intro hsucceeded
      obtain ⟨initializer, hkind⟩ := findsLocal_iff.mp (hiff.mp hsucceeded)
      rcases List.mem_pair.mp hname with rfl | rfl
      · rw [hformula] at hkind
        cases hkind
      · rw [hclock] at hkind
        cases hkind
    obtain rfl := hrefused hother
    exact ⟨result, hperform, hother⟩

end ProcessDisplay.Engine
