import Mathlib.Tactic.Common
import ProcessDisplay.Proofs.NameIdentity

/-!
# Looking names up

A lookup reads a name as it is spelled and then under its key; a creation
first takes the blanks around the name away. Registered names have no blanks
around them, so under the trimmed spelling both find the same variable.
Under another spelling they differ exactly where the trimmed spelling is
registered and is not the key of the name.
-/

namespace ProcessDisplay.Engine

variable {C : FormulaCompiler} {R : ScriptInterpreter}

/-- An operation does not start the display again, or does so at some instant. -/
theorem Operation.isReset_cases (operation : Operation) :
    operation.isReset = false ∨ ∃ epoch, operation = .reset epoch := by
  cases operation with
  | reset epoch => exact Or.inr ⟨epoch, rfl⟩
  | _ => exact Or.inl rfl

namespace State

/-- Whether no registered name has blanks around it. -/
def IsTrimmed (s : State C) : Prop := ∀ name id, s.lookup name = some id → Text.trim name = name

/-- One more name without blanks around it. -/
theorem IsTrimmed.of_lookup {s s' : State C} {key : String} {id : VariableId} (h : s.IsTrimmed)
    (hkey : Text.trim key = key)
    (hlookup : ∀ name, s'.lookup name = if name = key then some id else s.lookup name) :
    s'.IsTrimmed := by
  intro name found hfound
  rw [hlookup] at hfound
  split at hfound
  · next hname =>
    rw [hname]
    exact hkey
  · exact h name found hfound

/-- The name index alone decides which names are registered. -/
theorem IsTrimmed.congr {s s' : State C} (h : s.IsTrimmed) (hnames : s'.names = s.names) :
    s'.IsTrimmed := by
  intro name id hname
  rw [lookup, hnames] at hname
  exact h name id hname

end State

/-- A construction registers keys only. -/
theorem Construction.isTrimmed {e e' : Engine C R} (h : Construction e e')
    (hs : e.state.IsTrimmed) : e'.state.IsTrimmed := by
  induction h with
  | refl => exact hs
  | tail _ hstep ih =>
    rcases hstep.lookup with hsame | ⟨key, hkey, -, hlookup⟩
    · intro name id hname
      rw [hsame] at hname
      exact ih name id hname
    · exact ih.of_lookup hkey.trim_eq hlookup

/-- No operation registers a name with blanks around it. -/
theorem Transition.isTrimmed {s s' : Stage C R} {entry : Operation × Answer}
    (h : Transition s entry s') (hs : s.engine.state.WellFormed)
    (hreset : entry.1.isReset = false) (htrimmed : s.engine.state.IsTrimmed) :
    s'.engine.state.IsTrimmed := by
  rcases h.names_cases hs hreset with ⟨e₀, e₁, hchain, hstate, hnames, -⟩ |
    ⟨spelling, generator, -, -, hstate⟩
  · have hlast : e₁.state.IsTrimmed := hchain.isTrimmed (hstate ▸ htrimmed)
    exact hlast.congr hnames
  · have hlookup : ∀ name, s'.engine.state.lookup name =
        if name = Text.trim spelling then some s.engine.state.nextId
        else s.engine.state.lookup name := by
      intro name
      rw [hstate]
      exact s.engine.state.lookup_insertVariable _ name
    exact htrimmed.of_lookup (Text.trim_trim spelling) hlookup

/-- Throughout a session no registered name has blanks around it. -/
theorem Session.isTrimmed {j : Journal} {s : Stage C R} (h : Session C R j s) :
    s.engine.state.IsTrimmed := by
  induction h with
  | start settings epoch panel =>
    intro name id hname
    cases hname
  | @step j s s' operation answer hsession hstep ih =>
    rcases operation.isReset_cases with hreset | ⟨epoch, rfl⟩
    · exact (transition_of_perform hsession.wellFormed hstep).isTrimmed hsession.wellFormed
        hreset ih
    · obtain ⟨-, rfl⟩ : _ = answer ∧ _ = s' := by simpa [Stage.perform] using hstep
      intro name id hname
      cases hname

/-- A construction that adds no variable leaves the name index as it is. -/
theorem Construction.names_eq {e e' : Engine C R} (h : Construction e e')
    (hs : e.state.WellFormed) (hlength : e'.state.vars.length = e.state.vars.length) :
    e'.state.names = e.state.names := by
  obtain ⟨declared, -, hextends⟩ := h.extends hs
  have hshape := e.state.sameShape_redeclareAll declared
  have hkept : e'.state.names.filter
      (fun entry => (e.state.redeclareAll declared).inRange entry.2) = e'.state.names := by
    rw [List.filter_eq_self]
    intro entry hentry
    obtain ⟨v, hv, -⟩ := (h.wellFormed hs).names entry hentry
    rw [State.inRange_eq_true, hshape.length, ← hlength]
    exact (List.getElem?_eq_some_iff.mp hv).1
  rw [← hkept, hextends.names, hshape.names]

/-- A creation of a name would find a variable that is registered already: it
would return its position and add no variable. -/
def Stage.Reaches (s : Stage C R) (name : String) (id : VariableId) : Prop :=
  ∃ s', s.perform (.create name) = .done (.position (.ok id), s') ∧
    s'.engine.state.vars.length = s.engine.state.vars.length

/-- A creation finds a variable where its name is located. -/
theorem Stage.reaches_iff {s : Stage C R} (hs : s.engine.state.WellFormed) {name : String}
    {id : VariableId} : s.Reaches name id ↔ s.engine.state.located name = some id := by
  constructor
  · rintro ⟨s', hperform, hlength⟩
    obtain ⟨result, e', haction, hanswer, rfl⟩ := act_eq_done hperform
    obtain rfl : Except.ok id = result := by simpa using hanswer
    have hresolved := transaction_ok haction
    have hchain := construction_of_resolve_alone hresolved
    rw [← State.located_congr (hchain.names_eq hs hlength) name]
    exact located_of_resolve hresolved
  · intro hlocated
    obtain ⟨e', hcreate, hshape⟩ := create_revisits hlocated
    refine ⟨{ s with engine := e' }, ?_, hshape.length⟩
    simp only [Stage.perform, Stage.act, hcreate, Outcome.done_bind, Outcome.pure_eq]

namespace State

/-- A lookup finds the spelling of a name, or else its key. -/
theorem find_eq_some_iff {s : State C} {name : String} {id : VariableId} :
    s.find name = some id ↔ s.lookup name = some id ∨
      s.lookup name = none ∧
        ∃ parsed, VariableName.parse name = .ok parsed ∧ s.lookup parsed.key = some id := by
  unfold find
  cases hspelled : s.lookup name with
  | some found => simp
  | none => cases hparse : VariableName.parse name <;> simp

/-- A name is located where its trimmed spelling is registered, or else its key. -/
theorem located_eq_some_iff {s : State C} {name : String} {id : VariableId} :
    s.located name = some id ↔ s.lookup (Text.trim name) = some id ∨
      s.lookup (Text.trim name) = none ∧
        ∃ parsed, VariableName.parse name = .ok parsed ∧ s.lookup parsed.key = some id := by
  unfold located
  cases hspelled : s.lookup (Text.trim name) with
  | some found => simp
  | none => cases hparse : VariableName.parse name <;> simp

/-- Under the trimmed spelling a lookup finds what a creation finds. -/
theorem find_trim (s : State C) (name : String) : s.find (Text.trim name) = s.located name := by
  have hparse : ∀ parsed, VariableName.parse (Text.trim name) = .ok parsed ↔
      VariableName.parse name = .ok parsed := by
    intro parsed
    rw [VariableName.parse_eq_ok_iff, VariableName.parse_eq_ok_iff, Text.toList_trim,
      Text.trimmed_trimmed]
  refine Option.ext fun id => ?_
  rw [find_eq_some_iff, located_eq_some_iff]
  simp only [hparse]

/-- No variable is registered under a name that is free. -/
theorem WellFormed.lookup_eq_none_iff {s : State C} (h : s.WellFormed) {name : String} :
    s.lookup name = none ↔ ∀ v ∈ s.vars, v.name ≠ name := by
  constructor
  · rintro hfree v hv rfl
    obtain ⟨id, hid⟩ := List.getElem?_of_mem hv
    rw [h.named id v hid] at hfree
    cases hfree
  · intro hnone
    cases hfound : s.lookup name with
    | none => rfl
    | some id =>
      obtain ⟨v, hv, hname⟩ := h.of_lookup hfound
      exact absurd hname (hnone v (List.mem_of_getElem? hv))

/-- A lookup under a spelling with blanks around it finds what a creation
finds, unless the trimmed spelling is registered and is not the key of the name. -/
theorem find_eq_located_iff {s : State C} (h : s.WellFormed) (htrimmed : s.IsTrimmed)
    (name : String) : s.find name = s.located name ↔
      Text.trim name = name ∨ (∀ v ∈ s.vars, v.name ≠ Text.trim name) ∨
        ∃ parsed, VariableName.parse name = .ok parsed ∧ parsed.key = Text.trim name := by
  by_cases hblank : Text.trim name = name
  · have hsame : s.find name = s.located name := by
      rw [← s.find_trim, hblank]
    exact iff_of_true hsame (Or.inl hblank)
  -- a spelling with blanks around it is not registered itself, so a lookup reads its key
  have hspelled : s.lookup name = none := by
    cases hfound : s.lookup name with
    | none => rfl
    | some id => exact absurd (htrimmed name id hfound) hblank
  rw [← h.lookup_eq_none_iff]
  constructor
  · intro hsame
    refine Or.inr ?_
    cases hfound : s.lookup (Text.trim name) with
    | none => exact Or.inl rfl
    | some id =>
      have hfind : s.find name = some id := by
        rw [hsame, located_eq_some_iff]
        exact Or.inl hfound
      rcases find_eq_some_iff.mp hfind with hraw | ⟨-, parsed, hparse, hkey⟩
      · rw [hspelled] at hraw
        cases hraw
      · obtain ⟨v, hv, hname⟩ := h.of_lookup hfound
        obtain ⟨w, hw, hname'⟩ := h.of_lookup hkey
        obtain rfl := Option.some.inj (hv.symm.trans hw)
        exact Or.inr ⟨parsed, hparse, hname'.symm.trans hname⟩
  · intro hcases
    refine Option.ext fun id => ?_
    rw [find_eq_some_iff, located_eq_some_iff]
    rcases hcases with hsame | hfree | ⟨parsed, hparse, hkey⟩
    · exact absurd hsame hblank
    · simp [hspelled, hfree]
    · cases hfound : s.lookup parsed.key <;> simp [hspelled, hparse, ← hkey, hfound]

end State

/-- What is done under a spelling reaches one variable. -/
structure Serves (e : Engine C R) (spelling : String) (id : VariableId) (v : Variable) : Prop where
  /-- The spelling finds the variable. -/
  named : e.variableNamed spelling = some v
  /-- Its value is read. -/
  value : e.value? spelling = v.value
  /-- The units that it triggers are read. -/
  dependents : e.dependents spelling = e.state.triggers.dependents id
  /-- A write goes to the variable. -/
  write : ∀ (value : Value) (state : State C), e.state.write id value = .ok state →
    setValue spelling value e = .done (.ok (), e.withState state)

/-- A spelling that finds a position reaches the variable there. -/
theorem State.WellFormed.serves {e : Engine C R} (h : e.state.WellFormed) {spelling : String}
    {id : VariableId} (hfind : e.state.find spelling = some id) :
    ∃ v, e.state.vars[id]? = some v ∧ e.Serves spelling id v := by
  have hvariable : ∃ v, e.state.vars[id]? = some v := by
    rcases State.find_eq_some_iff.mp hfind with hname | ⟨-, parsed, -, hname⟩
    · exact (h.of_lookup hname).imp fun _ => And.left
    · exact (h.of_lookup hname).imp fun _ => And.left
  obtain ⟨v, hv⟩ := hvariable
  have hnamed : e.variableNamed spelling = some v := by
    simp [variableNamed, hfind, hv]
  refine ⟨v, hv, hnamed, ?_, ?_, ?_⟩
  · simp [value?, hnamed]
  · simp only [Engine.dependents, hfind]
  · intro value state hwrite
    simp only [setValue, hfind, hwrite]

/-- In every state that is reached, a lookup under the trimmed spelling of a
name finds exactly the variable that a creation of the name would find, and
everything under a spelling that finds a variable reaches this variable. Under
the name as it is spelled a lookup and a creation agree if and only if the
name has no blanks around it, or no variable is registered under the trimmed
spelling, or the trimmed spelling is the key of the name. -/
theorem find_agrees_iff {settings : Settings} {epoch : Time.Instant} {panel : Panel}
    {operations : List Operation} {answers : List Answer} {s : Stage C R}
    (hrun : (Stage.mk (Engine.start C R settings epoch) panel).run operations =
      .done (answers, s)) (name : String) :
    (∀ id, s.engine.state.find (Text.trim name) = some id ↔ s.Reaches name id) ∧
      (∀ id, s.engine.state.find name = some id →
        ∃ v, s.engine.state.vars[id]? = some v ∧ s.engine.Serves name id v) ∧
      ((∀ id, s.engine.state.find name = some id ↔ s.Reaches name id) ↔
        Text.trim name = name ∨ (∀ v ∈ s.engine.state.vars, v.name ≠ Text.trim name) ∨
          ∃ parsed, VariableName.parse name = .ok parsed ∧ parsed.key = Text.trim name) := by
  have hsession := session_of_run hrun
  have hs := hsession.wellFormed
  refine ⟨?_, fun id => hs.serves, ?_⟩
  · intro id
    rw [Stage.reaches_iff hs, State.find_trim]
  · rw [← State.find_eq_located_iff hs hsession.isTrimmed]
    constructor
    · intro hall
      refine Option.ext fun id => ?_
      rw [hall, Stage.reaches_iff hs]
    · intro hsame id
      rw [hsame, Stage.reaches_iff hs]

/-- A variable with a custom generator and a variable of the display. -/
def customRun : List Operation :=
  [.registerGenerator "my sine" Generator.empty, .create "loc://x(5)"]

/-- Whether a creation of a name would find a position, by computation. -/
def Stage.finds (s : Stage C R) (name : String) (id : VariableId) : Bool :=
  (s.perform (.create name)).value?.any fun told =>
    told.1.position? = some id && told.2.engine.state.vars.length = s.engine.state.vars.length

/-- A position that is computed is reached. -/
theorem Stage.reaches_of_finds {s : Stage C R} {name : String} {id : VariableId}
    (h : s.finds name id = true) : s.Reaches name id := by
  obtain ⟨⟨answer, s'⟩, hperform, hcheck⟩ := done_of_any _ h
  obtain ⟨hposition, hlength⟩ := Bool.and_eq_true_iff.mp hcheck
  obtain rfl := Answer.eq_of_position? (of_decide_eq_true hposition)
  exact ⟨s', hperform, of_decide_eq_true hlength⟩

/-- Blanks around a name and another initializer do no harm where the name is
in the grammar; a custom name is found without its blanks. -/
theorem find_agrees_custom : ∃ answers s,
    (bareStage []).run customRun = .done (answers, s) ∧
      (∀ id, s.engine.state.find " loc://x( 7 ) " = some id ↔ s.Reaches " loc://x( 7 ) " id) ∧
      s.engine.state.find "my sine" = some 0 ∧ s.Reaches " my sine " 0 := by
  obtain ⟨⟨answers, s⟩, hrun, hcheck⟩ := done_of_any
    (fun reached : List Answer × BundledStage =>
      reached.2.engine.state.vars.all (fun v => v.name ≠ "loc://x( 7 )") &&
        reached.2.engine.state.find "my sine" = some 0)
    (show ((bareStage []).run customRun).value?.any _ = true by decide +kernel)
  obtain ⟨hfree, hfound⟩ := Bool.and_eq_true_iff.mp hcheck
  have hfound : s.engine.state.find "my sine" = some 0 := of_decide_eq_true hfound
  obtain ⟨-, -, hagrees⟩ := find_agrees_iff hrun " loc://x( 7 ) "
  obtain ⟨hreaches, -, -⟩ := find_agrees_iff hrun " my sine "
  have htrim : Text.trim " loc://x( 7 ) " = "loc://x( 7 )" := by decide
  refine ⟨answers, s, hrun, hagrees.mpr (Or.inr (Or.inl ?_)), hfound, ?_⟩
  · intro v hv
    rw [htrim]
    exact of_decide_eq_true (List.all_eq_true.mp hfree v hv)
  · exact (hreaches 0).mp hfound

/-- With blanks around it a custom name is not found, although a creation
finds its variable; and where a custom name looks like another spelling of a
variable of the display, a lookup finds this variable and a creation the custom one. -/
theorem find_misses_custom :
    (∃ answers s, (bareStage []).run customRun = .done (answers, s) ∧
      s.engine.state.find " my sine " = none ∧ s.Reaches " my sine " 0) ∧
    ∃ answers s, (bareStage []).run
        (customRun ++ [.registerGenerator "loc://x(5)" Generator.empty]) = .done (answers, s) ∧
      s.engine.state.find " loc://x(5) " = some 1 ∧ s.Reaches " loc://x(5) " 2 := by
  constructor
  · obtain ⟨⟨answers, s⟩, hrun, hcheck⟩ := done_of_any
      (fun reached : List Answer × BundledStage =>
        reached.2.engine.state.find " my sine " = none && reached.2.finds " my sine " 0)
      (show ((bareStage []).run customRun).value?.any _ = true by decide +kernel)
    obtain ⟨hnone, hreaches⟩ := Bool.and_eq_true_iff.mp hcheck
    exact ⟨answers, s, hrun, of_decide_eq_true hnone, Stage.reaches_of_finds hreaches⟩
  · obtain ⟨⟨answers, s⟩, hrun, hcheck⟩ := done_of_any
      (fun reached : List Answer × BundledStage =>
        reached.2.engine.state.find " loc://x(5) " = some 1 && reached.2.finds " loc://x(5) " 2)
      (show ((bareStage []).run
        (customRun ++ [.registerGenerator "loc://x(5)" Generator.empty])).value?.any _ = true
        by decide +kernel)
    obtain ⟨hfound, hreaches⟩ := Bool.and_eq_true_iff.mp hcheck
    exact ⟨answers, s, hrun, of_decide_eq_true hfound, Stage.reaches_of_finds hreaches⟩

end ProcessDisplay.Engine
