import Mathlib.Tactic.Common
import ProcessDisplay.Proofs.Transitions

/-!
# Identity of names

A name that was found or created is found again at any later time, until the
display is started again. It is found at the same place, with one exception:
a spelling that is not the key of its name is still free as a name of its
own, and a custom generator that is registered under it takes the spelling
away from the variable that it stood for.
-/

namespace ProcessDisplay.Engine

variable {C : FormulaCompiler} {R : ScriptInterpreter}

/-- Whether an operation starts the display again. -/
def Operation.isReset : Operation → Bool
  | .reset _ => true
  | _ => false

/-- The variable that an operation registered under the spelling of a name. -/
def takenBy (name : String) : Operation × Answer → Option VariableId
  | (.registerGenerator spelling _, .position (.ok id)) =>
    if Text.trim spelling = Text.trim name then some id else none
  | _ => none

/-- A refused operation takes no spelling. -/
theorem takenBy_of_refused {operation : Operation} {answer : Answer}
    (h : operation.IsRefused answer) (name : String) : takenBy name (operation, answer) = none := by
  cases operation with
  | registerGenerator spelling generator =>
    cases answer with
    | position result =>
      cases result with
      | ok id => exact h.elim
      | error failure => rfl
    | _ => rfl
  | _ => rfl

/-- Operations that reach no variable take no spelling. -/
theorem takenBy_of_aside {operation : Operation} (h : operation.isAside = true) (answer : Answer)
    (name : String) : takenBy name (operation, answer) = none := by
  cases operation with
  | registerGenerator spelling generator => cases h
  | _ => rfl

/-- What an operation does to the name index: it extends the index by a
construction, or it registers a custom generator under a free name. -/
theorem Transition.names_cases {s s' : Stage C R} {entry : Operation × Answer}
    (h : Transition s entry s') (hs : s.engine.state.WellFormed)
    (hreset : entry.1.isReset = false) :
    (∃ e₀ e₁ : Engine C R, Construction e₀ e₁ ∧ e₀.state = s.engine.state ∧
      s'.engine.state.names = e₁.state.names ∧ ∀ name, takenBy name entry = none) ∨
    ∃ name generator,
      entry = (.registerGenerator name generator, .position (.ok s.engine.state.nextId)) ∧
      s.engine.state.lookup (Text.trim name) = none ∧
      s'.engine.state = s.engine.state.attachGenerator (Text.trim name) generator := by
  cases h with
  | @refused operation answer declared memory hrefused hdeclares hmemory =>
    have hnames : (s.engine.state.redeclareAll declared).names = s.engine.state.names :=
      (s.engine.state.sameShape_redeclareAll declared).names
    exact Or.inl ⟨s.engine, s.engine, .refl, rfl, hnames, takenBy_of_refused hrefused⟩
  | created h hlocated => exact Or.inl ⟨_, _, h, rfl, rfl, fun _ => rfl⟩
  | attached hfree => exact Or.inr ⟨_, _, rfl, hfree, rfl⟩
  | written hwrite =>
    obtain ⟨v, -, -, rfl⟩ := State.write_eq_ok_iff.mp hwrite
    exact Or.inl ⟨s.engine, s.engine, .refl, rfl, rfl, fun _ => rfl⟩
  | ruled hcompiled h hlocated => exact Or.inl ⟨_, _, h, rfl, rfl, fun _ => rfl⟩
  | scripted h hlocated => exact Or.inl ⟨_, _, h, rfl, rfl, fun _ => rfl⟩
  | traced h hlocated => exact Or.inl ⟨_, _, h, rfl, rfl, fun _ => rfl⟩
  | ticked h =>
    obtain ⟨p, hticked⟩ := ticked_of_tick hs h
    have hnames : s'.engine.state.names = s.engine.state.names := by
      rw [hticked.runs.untouched]
      exact hticked.prepares.shape.names
    exact Or.inl ⟨s.engine, s.engine, .refl, rfl, hnames, fun _ => rfl⟩
  | reset => cases hreset
  | aside hkind hsettings hmemory hstate htraces =>
    have hnames : s'.engine.state.names = s.engine.state.names := by rw [hstate]
    exact Or.inl ⟨s.engine, s.engine, .refl, rfl, hnames, takenBy_of_aside hkind _⟩

/-- A registered name stays registered along a chain of constructions. -/
theorem Construction.lookup {e e' : Engine C R} (h : Construction e e') {name : String}
    {id : VariableId} (hname : e.state.lookup name = some id) :
    e'.state.lookup name = some id := by
  induction h with
  | refl => exact hname
  | tail _ hstep ih =>
    rcases hstep.lookup with hsame | ⟨key, -, hfree, hlookup⟩
    · rw [hsame]
      exact ih
    · have hne : name ≠ key := by
        intro he
        rw [he, hfree] at ih
        cases ih
      rw [hlookup, if_neg hne]
      exact ih

/-- The name index alone decides where a name is located. -/
theorem State.located_congr {s s' : State C} (h : s'.names = s.names) (name : String) :
    s'.located name = s.located name := by
  unfold State.located State.lookup
  rw [h]

/-- A registered name stays registered until the display is started again. -/
theorem Transition.lookup {s s' : Stage C R} {entry : Operation × Answer}
    (h : Transition s entry s') (hs : s.engine.state.WellFormed)
    (hreset : entry.1.isReset = false) {name : String} {id : VariableId}
    (hname : s.engine.state.lookup name = some id) :
    s'.engine.state.lookup name = some id := by
  rcases h.names_cases hs hreset with ⟨e₀, e₁, hchain, hstate, hnames, -⟩ |
    ⟨spelling, generator, -, hfree, hstate⟩
  · have hlast : e₁.state.lookup name = some id := hchain.lookup (hstate ▸ hname)
    rw [State.lookup, hnames]
    exact hlast
  · have hne : name ≠ Text.trim spelling := by
      intro he
      rw [he, hfree] at hname
      cases hname
    have hattached := s.engine.state.lookup_insertVariable
      { name := Text.trim spelling, kind := .simulated, limits := generator.source.limits.getD {} }
      name
    rw [if_neg hne] at hattached
    rw [hstate]
    exact hattached.trans hname

/-- A spelling that is registered is taken by no operation. -/
theorem Transition.takenBy_of_lookup {s s' : Stage C R} {entry : Operation × Answer}
    (h : Transition s entry s') (hs : s.engine.state.WellFormed)
    (hreset : entry.1.isReset = false) {name : String} {id : VariableId}
    (hname : s.engine.state.lookup (Text.trim name) = some id) : takenBy name entry = none := by
  rcases h.names_cases hs hreset with ⟨-, -, -, -, -, hnone⟩ | ⟨spelling, generator, rfl, hfree, -⟩
  · exact hnone name
  · have hne : Text.trim spelling ≠ Text.trim name := by
      intro he
      rw [he, hname] at hfree
      cases hfree
    exact if_neg hne

/-- A name that is located stays located, at the variable that an operation
registered under its spelling, if there is one, and at its own otherwise. -/
theorem Transition.located {s s' : Stage C R} {entry : Operation × Answer}
    (h : Transition s entry s') (hs : s.engine.state.WellFormed)
    (hreset : entry.1.isReset = false) {name : String} {id : VariableId}
    (hlocated : s.engine.state.located name = some id) :
    s'.engine.state.located name = some ((takenBy name entry).getD id) := by
  rcases h.names_cases hs hreset with ⟨e₀, e₁, hchain, hstate, hnames, hnone⟩ |
    ⟨spelling, generator, rfl, hfree, hstate⟩
  · have hlast : e₁.state.located name = some id := hchain.located (hstate ▸ hlocated)
    rw [State.located_congr hnames, hnone name, hlast]
    rfl
  · have hlookup : ∀ other, s'.engine.state.lookup other =
        if other = Text.trim spelling then some s.engine.state.nextId
        else s.engine.state.lookup other := by
      intro other
      rw [hstate]
      exact s.engine.state.lookup_insertVariable _ other
    by_cases hsame : Text.trim spelling = Text.trim name
    · have htaken : takenBy name (.registerGenerator spelling generator,
          .position (.ok s.engine.state.nextId)) = some s.engine.state.nextId := if_pos hsame
      rw [htaken]
      simp only [State.located, hlookup, hsame, if_true, Option.getD_some]
    · have htaken : takenBy name (.registerGenerator spelling generator,
          .position (.ok s.engine.state.nextId)) = none := if_neg hsame
      have hne : Text.trim name ≠ Text.trim spelling := Ne.symm hsame
      rw [htaken, Option.getD_none]
      unfold State.located at hlocated ⊢
      rw [hlookup, if_neg hne]
      cases htrim : s.engine.state.lookup (Text.trim name) with
      | some found =>
        rw [htrim] at hlocated
        exact hlocated
      | none =>
        cases hparse : VariableName.parse name with
        | error failure =>
          simp only [htrim, hparse] at hlocated
          cases hlocated
        | ok parsed =>
          simp only [htrim, hparse] at hlocated
          -- the key of the name is registered, so the new name is not its key
          have hkey : parsed.key ≠ Text.trim spelling := by
            intro he
            rw [he, hfree] at hlocated
            cases hlocated
          simp only [hlookup, if_neg hkey]
          exact hlocated

/-- What an operation takes is a new variable, and the spelling stands for it. -/
theorem Transition.of_takenBy {s s' : Stage C R} {entry : Operation × Answer}
    (h : Transition s entry s') (hs : s.engine.state.WellFormed)
    (hreset : entry.1.isReset = false) {name : String} {taken : VariableId}
    (htaken : takenBy name entry = some taken) :
    s.engine.state.vars.length ≤ taken ∧
      s'.engine.state.lookup (Text.trim name) = some taken := by
  rcases h.names_cases hs hreset with ⟨-, -, -, -, -, hnone⟩ | ⟨spelling, generator, rfl, -, hstate⟩
  · rw [hnone name] at htaken
    cases htaken
  · have hpair : Text.trim spelling = Text.trim name ∧ s.engine.state.nextId = taken := by
      simpa [takenBy] using htaken
    obtain ⟨hsame, rfl⟩ := hpair
    have hattached := s.engine.state.lookup_insertVariable
      { name := Text.trim spelling, kind := .simulated, limits := generator.source.limits.getD {} }
      (Text.trim name)
    rw [if_pos hsame.symm] at hattached
    refine ⟨Nat.le_refl _, ?_⟩
    rw [hstate]
    exact hattached

/-- No operation of a run takes a spelling that is registered. -/
theorem run_untaken {j : Journal} {s s' : Stage C R} {operations : List Operation}
    {answers : List Answer} (hsession : Session C R j s)
    (hrun : s.run operations = .done (answers, s'))
    (hreset : ∀ operation ∈ operations, operation.isReset = false) {name : String}
    {id : VariableId} (hname : s.engine.state.lookup (Text.trim name) = some id) :
    (operations.zip answers).findSome? (takenBy name) = none := by
  induction operations generalizing j s answers with
  | nil => rfl
  | cons operation rest ih =>
    obtain ⟨answer, s₁, more, hfirst, hrest, rfl⟩ := run_cons_eq_done_iff.mp hrun
    have hs := hsession.wellFormed
    have hstep := transition_of_perform hs hfirst
    have hnow := hreset operation List.mem_cons_self
    have hlater := fun other hother => hreset other (List.mem_cons_of_mem operation hother)
    rw [List.zip_cons_cons, List.findSome?_cons, hstep.takenBy_of_lookup hs hnow hname]
    exact ih (hsession.step hfirst) hrest hlater (hstep.lookup hs hnow hname)

/-- Where a name is located after a run: at the variable that an operation of
the run registered under its spelling, which is another one then, and at its
own if there is none. -/
theorem run_located {j : Journal} {s s' : Stage C R} {operations : List Operation}
    {answers : List Answer} (hsession : Session C R j s)
    (hrun : s.run operations = .done (answers, s'))
    (hreset : ∀ operation ∈ operations, operation.isReset = false) {name : String}
    {id : VariableId} (hlocated : s.engine.state.located name = some id) :
    s'.engine.state.located name =
        some (((operations.zip answers).findSome? (takenBy name)).getD id) ∧
      (operations.zip answers).findSome? (takenBy name) ≠ some id := by
  induction operations generalizing j s answers id with
  | nil =>
    obtain ⟨rfl, rfl⟩ := run_nil_eq_done_iff.mp hrun
    exact ⟨hlocated, by simp⟩
  | cons operation rest ih =>
    obtain ⟨answer, s₁, more, hfirst, hrest, rfl⟩ := run_cons_eq_done_iff.mp hrun
    have hs := hsession.wellFormed
    have hstep := transition_of_perform hs hfirst
    have hnow := hreset operation List.mem_cons_self
    have hlater := fun other hother => hreset other (List.mem_cons_of_mem operation hother)
    have hnext := hsession.step hfirst
    have hlocated₁ := hstep.located hs hnow hlocated
    rw [List.zip_cons_cons, List.findSome?_cons]
    cases htaken : takenBy name (operation, answer) with
    | none =>
      rw [htaken] at hlocated₁
      exact ih hnext hrest hlater hlocated₁
    | some taken =>
      -- from here on the spelling is registered itself, so no later operation takes it again
      rw [htaken] at hlocated₁
      obtain ⟨hnew, hname⟩ := hstep.of_takenBy hs hnow htaken
      have hnone := run_untaken hnext hrest hlater hname
      obtain ⟨hlast, -⟩ := ih hnext hrest hlater hlocated₁
      rw [hnone] at hlast
      refine ⟨hlast, ?_⟩
      intro hsame
      have hold := hs.located_lt hlocated
      rw [Option.some.inj hsame] at hnew
      exact absurd hold (Nat.not_lt.mpr hnew)

/-- Finding a variable under its key only changes contents. -/
theorem State.sameShape_revisit (s : State C) (parsed : VariableName) (id : VariableId) :
    SameShape s (s.revisit parsed id) := by
  unfold revisit
  cases parsed.initializer? with
  | none => exact .refl s
  | some initializer => exact s.sameShape_redeclare id initializer

/-- A name that is located is found by a creation, which returns its position
and adds nothing. -/
theorem create_revisits {e : Engine C R} {name : String} {id : VariableId}
    (hlocated : e.state.located name = some id) :
    ∃ e', create name e = .done (.ok id, e') ∧ State.SameShape e.state e'.state := by
  have hresolve : ∃ e', resolve (C.nesting + 1) name e = .done (.ok id, e') ∧
      State.SameShape e.state e'.state := by
    unfold State.located at hlocated
    cases htrim : e.state.lookup (Text.trim name) with
    | some found =>
      simp only [htrim] at hlocated
      obtain rfl := Option.some.inj hlocated
      exact ⟨e, resolve_of_lookup htrim, .refl _⟩
    | none =>
      cases hparse : VariableName.parse name with
      | error failure =>
        simp only [htrim, hparse] at hlocated
        cases hlocated
      | ok parsed =>
        simp only [htrim, hparse] at hlocated
        exact ⟨_, resolve_of_key htrim hparse hlocated, e.state.sameShape_revisit parsed id⟩
  obtain ⟨e', he', hshape⟩ := hresolve
  exact ⟨e', by rw [create, transaction, he'], hshape⟩

/-- A name that is located is found by a creation, which returns its position. -/
theorem create_of_located {e : Engine C R} {name : String} {id : VariableId}
    (hlocated : e.state.located name = some id) :
    ∃ e', create name e = .done (.ok id, e') :=
  (create_revisits hlocated).imp fun _ => And.left

/-- A name that is spelled as its key is registered under its spelling where
it is located. -/
theorem State.lookup_of_located {s : State C} {name : String} {id : VariableId}
    (hkey : VariableName.IsKey (Text.trim name)) (hlocated : s.located name = some id) :
    s.lookup (Text.trim name) = some id := by
  unfold State.located at hlocated
  cases htrim : s.lookup (Text.trim name) with
  | some found =>
    rw [htrim] at hlocated
    exact hlocated
  | none =>
    cases hparse : VariableName.parse name with
    | error failure =>
      simp only [htrim, hparse] at hlocated
      cases hlocated
    | ok parsed =>
      simp only [htrim, hparse] at hlocated
      rw [hkey.key_eq rfl hparse, htrim] at hlocated
      cases hlocated

/-- After a name was created, every later creation of the name succeeds, as
long as the display is not started again, whatever else was created,
registered, refused or written meanwhile. It returns the same position if and
only if no custom generator was registered under the spelling of the name
meanwhile, and the position of that generator otherwise. For a spelling that
is the key of its name this never happens. -/
theorem create_again {settings : Settings} {epoch : Time.Instant} {panel : Panel}
    {operations later : List Operation} {answers laterAnswers : List Answer}
    {s s₁ s₂ : Stage C R} {name : String} {id : VariableId}
    (hrun : (Stage.mk (Engine.start C R settings epoch) panel).run operations =
      .done (answers, s))
    (hcreate : s.perform (.create name) = .done (.position (.ok id), s₁))
    (hlater : s₁.run later = .done (laterAnswers, s₂))
    (hreset : ∀ operation ∈ later, operation.isReset = false) :
    ∃ again s₃, s₂.perform (.create name) = .done (.position (.ok again), s₃) ∧
      again = ((later.zip laterAnswers).findSome? (takenBy name)).getD id ∧
      (again = id ↔ ∀ spelling generator taken,
        (Operation.registerGenerator spelling generator, Answer.position (.ok taken)) ∈
          later.zip laterAnswers → Text.trim spelling ≠ Text.trim name) ∧
      (VariableName.IsKey (Text.trim name) → again = id) := by
  have hsession := session_of_run hrun
  have hnext := hsession.step hcreate
  have hlocated : s₁.engine.state.located name = some id := by
    obtain ⟨result, e', haction, hanswer, rfl⟩ := act_eq_done hcreate
    obtain rfl : Except.ok id = result := by simpa using hanswer
    exact located_of_resolve (transaction_ok haction)
  obtain ⟨hlast, hne⟩ := run_located hnext hlater hreset hlocated
  obtain ⟨e', he'⟩ := create_of_located hlast
  refine ⟨_, { s₂ with engine := e' }, ?_, rfl, ?_, ?_⟩
  · simp only [Stage.perform, Stage.act, he', Outcome.done_bind, Outcome.pure_eq]
  · have hnone : ((later.zip laterAnswers).findSome? (takenBy name)).getD id = id ↔
        (later.zip laterAnswers).findSome? (takenBy name) = none := by
      cases hfound : (later.zip laterAnswers).findSome? (takenBy name) with
      | none => simp
      | some taken =>
        rw [hfound] at hne
        simpa using hne
    rw [hnone, List.findSome?_eq_none_iff]
    constructor
    · intro hall spelling generator taken hmember hsame
      have htaken := hall _ hmember
      simp [takenBy, hsame] at htaken
    · rintro hall ⟨operation, answer⟩ hmember
      unfold takenBy
      split
      · next spelling generator taken he =>
        obtain ⟨rfl, rfl⟩ := Prod.mk.inj he
        exact if_neg (hall spelling generator taken hmember)
      · rfl
  · intro hkey
    rw [run_untaken hnext hlater hreset (State.lookup_of_located hkey hlocated)]
    rfl

/-- The position that an answer tells. -/
def Answer.position? : Answer → Option Nat
  | .position (.ok id) => some id
  | _ => none

/-- An answer that tells a position is that position. -/
theorem Answer.eq_of_position? {answer : Answer} {id : Nat} (h : answer.position? = some id) :
    answer = .position (.ok id) := by
  cases answer with
  | position result =>
    cases result with
    | ok found => rw [Option.some.inj h]
    | error failure => cases h
  | _ => cases h

/-- Another spelling, a refused trace, a custom generator under another name
and a write. -/
def interlude : List Operation :=
  [.create "loc://x", hopelessTrace "loc://y", .registerGenerator "loc://x(6)" Generator.empty,
    .setValue "loc://x" (.number 7)]

/-- After the interlude a name is found where it was. -/
theorem create_again_interlude : ∃ s₁ answers s₂ s₃,
    (bareStage []).perform (.create "loc://x(5)") = .done (.position (.ok 0), s₁) ∧
      s₁.run interlude = .done (answers, s₂) ∧
      s₂.perform (.create "loc://x(5)") = .done (.position (.ok 0), s₃) := by
  have hrun : (Stage.mk (Engine.start (.expressions .standard {} 1000)
      (.bundled .standard {}) {} 0) []).run [] = .done ([], bareStage []) := rfl
  obtain ⟨⟨answer, s₁⟩, hcreate, hcheck⟩ := done_of_any
    (fun told : Answer × BundledStage =>
      decide (told.1.position? = some 0) && (told.2.run interlude).value?.isSome)
    (show ((bareStage []).perform (.create "loc://x(5)")).value?.any _ = true by decide +kernel)
  obtain ⟨hposition, hreturns⟩ := Bool.and_eq_true_iff.mp hcheck
  obtain rfl := Answer.eq_of_position? (of_decide_eq_true hposition)
  obtain ⟨⟨answers, s₂⟩, hlater, -⟩ := done_of_any (fun _ => true)
    (show (s₁.run interlude).value?.any _ = true by simpa using hreturns)
  obtain ⟨again, s₃, hagain, -, hsame, -⟩ := create_again hrun hcreate hlater (by decide)
  refine ⟨s₁, answers, s₂, s₃, hcreate, hlater, ?_⟩
  rw [hagain, hsame.mpr]
  intro spelling generator taken hmember
  have hin := (List.of_mem_zip hmember).1
  obtain ⟨rfl, -⟩ : spelling = "loc://x(6)" ∧ generator = Generator.empty := by
    simpa [interlude, hopelessTrace] using hin
  decide +kernel

/-- A custom generator under the spelling of a name takes the spelling away:
the name is found at another place. -/
theorem create_again_taken : ∃ s₁ s₂ s₃,
    (bareStage []).perform (.create "loc://x(5)") = .done (.position (.ok 0), s₁) ∧
      s₁.perform (.registerGenerator "loc://x(5)" Generator.empty) =
        .done (.position (.ok 1), s₂) ∧
      s₂.perform (.create "loc://x(5)") = .done (.position (.ok 1), s₃) := by
  obtain ⟨⟨first, s₁⟩, hfirst, hcheck⟩ := done_of_any
    (fun told : Answer × BundledStage => decide (told.1.position? = some 0) &&
      (told.2.perform (.registerGenerator "loc://x(5)" Generator.empty)).value?.any
        fun taken : Answer × BundledStage => decide (taken.1.position? = some 1) &&
          (taken.2.perform (.create "loc://x(5)")).value?.any
            fun again : Answer × BundledStage => decide (again.1.position? = some 1))
    (show ((bareStage []).perform (.create "loc://x(5)")).value?.any _ = true by decide +kernel)
  obtain ⟨hposition, hcheck⟩ := Bool.and_eq_true_iff.mp hcheck
  obtain rfl := Answer.eq_of_position? (of_decide_eq_true hposition)
  obtain ⟨⟨second, s₂⟩, hsecond, hcheck⟩ := done_of_any _ hcheck
  obtain ⟨hposition, hcheck⟩ := Bool.and_eq_true_iff.mp hcheck
  obtain rfl := Answer.eq_of_position? (of_decide_eq_true hposition)
  obtain ⟨⟨third, s₃⟩, hthird, hposition⟩ := done_of_any _ hcheck
  obtain rfl := Answer.eq_of_position? (of_decide_eq_true hposition)
  exact ⟨s₁, s₂, s₃, hfirst, hsecond, hthird⟩

end ProcessDisplay.Engine
