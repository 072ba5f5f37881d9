import Mathlib.Tactic.Common
import ProcessDisplay.Engine.Registration
import ProcessDisplay.Proofs.Actions
import ProcessDisplay.Proofs.Constructions

/-!
# Resolution of names

Finding or creating the variable of a name is a construction, whether it
succeeds or is refused halfway. A formula is inserted only after all of its
parameters, and its own key is still free then: formulas that mention each
other in a cycle nest until the program ends, so a resolution that returns
has met no cycle.
-/

namespace ProcessDisplay

/-- A key that begins like that of a formula is the key of that formula. -/
theorem VariableName.eq_formula_of_key {parsed : VariableName} {source : String}
    (h : parsed.key = "=" ++ source) : parsed = .formula source := by
  have hfirst := congrArg (fun text : String => text.toList.head?) h
  have hsource : ("=" ++ source).toList.head? = some '=' := by simp
  cases parsed with
  | localVariable id initializer =>
    simp [key, localScheme] at hfirst
  | simulated function arguments =>
    cases arguments <;> simp [key, simulatedScheme] at hfirst
  | clock =>
    simp [key, clockName] at hfirst
  | formula expression =>
    have hlist := congrArg String.toList h
    simp only [key, String.toList_append, List.append_cancel_left_eq] at hlist
    rw [String.toList_injective hlist]

/-- The initializer that a name carries. -/
def VariableName.initializer? : VariableName → Option String
  | localVariable _ initializer => initializer
  | _ => none

namespace Engine

variable {C : FormulaCompiler} {R : ScriptInterpreter}

/-- The state after a variable was found under the key of a name: it is
declared with the initializer that the name carries. -/
def State.revisit (s : State C) (parsed : VariableName) (id : VariableId) : State C :=
  parsed.initializer?.elim s (s.redeclare id)

/-- A name that is registered as it is spelled is found with nothing done. -/
theorem resolve_of_lookup {depth : Nat} {name : String} {e : Engine C R} {id : VariableId}
    (hspelled : e.state.lookup (Text.trim name) = some id) :
    resolve (depth + 1) name e = .done (.ok id, e) := by
  rw [resolve, Action.current_bind]
  simp only [hspelled]
  rfl

/-- A name that is registered under its key is found there and declares its
initializer. -/
theorem resolve_of_key {depth : Nat} {name : String} {parsed : VariableName} {e : Engine C R}
    {id : VariableId} (hspelled : e.state.lookup (Text.trim name) = none)
    (hparse : VariableName.parse name = .ok parsed) (hkey : e.state.lookup parsed.key = some id) :
    resolve (depth + 1) name e = .done (.ok id, e.withState (e.state.revisit parsed id)) := by
  rw [resolve, Action.current_bind]
  simp only [hspelled, hparse, Action.ofExcept_ok_bind, hkey]
  cases parsed with
  | localVariable key initializer => cases initializer <;> rfl
  | simulated function arguments => rfl
  | clock => rfl
  | formula expression => rfl

/-- The four ways in which a resolution returns: the name is a key, or it is
no name, or its key is registered, or its variable is created. -/
theorem resolve_cases {depth : Nat} {name : String} {e e' : Engine C R}
    {result : Except Failure VariableId} (h : resolve (depth + 1) name e = .done (result, e')) :
    (∃ id, e.state.lookup (Text.trim name) = some id ∧ result = .ok id ∧ e' = e) ∨
    (e.state.lookup (Text.trim name) = none ∧
      ∃ failure, VariableName.parse name = .error failure ∧ result = .error failure ∧ e' = e) ∨
    (e.state.lookup (Text.trim name) = none ∧
      ∃ parsed id, VariableName.parse name = .ok parsed ∧ e.state.lookup parsed.key = some id ∧
        result = .ok id ∧
        (e' = e ∨ ∃ initializer, e' = e.withState (e.state.redeclare id initializer))) ∨
    (e.state.lookup (Text.trim name) = none ∧
      ∃ parsed, VariableName.parse name = .ok parsed ∧ e.state.lookup parsed.key = none ∧
        createNamed (resolve depth) parsed e = .done (result, e')) := by
  rw [resolve, Action.current_bind] at h
  cases htrim : e.state.lookup (Text.trim name) with
  | some id =>
    rw [htrim] at h
    obtain ⟨rfl, rfl⟩ : Except.ok id = result ∧ e = e' := by simpa using h
    exact Or.inl ⟨id, rfl, rfl, rfl⟩
  | none =>
    simp only [htrim] at h
    rcases Action.of_ofExcept_bind_done h with ⟨parsed, hparse, hrest⟩ | ⟨failure, hparse, hr, he⟩
    · cases hkey : e.state.lookup parsed.key with
      | some id =>
        refine Or.inr (Or.inr (Or.inl ⟨rfl, parsed, id, hparse, hkey, ?_⟩))
        simp only [hkey] at hrest
        split at hrest
        · next initializer =>
          obtain ⟨rfl, rfl⟩ : Except.ok id = result ∧
              e.withState (e.state.redeclare id initializer) = e' := by simpa using hrest
          exact ⟨rfl, Or.inr ⟨initializer, rfl⟩⟩
        · obtain ⟨rfl, rfl⟩ : Except.ok id = result ∧ e = e' := by simpa using hrest
          exact ⟨rfl, Or.inl rfl⟩
      | none =>
        simp only [hkey] at hrest
        exact Or.inr (Or.inr (Or.inr ⟨rfl, parsed, hparse, hkey, hrest⟩))
    · exact Or.inr (Or.inl ⟨rfl, failure, hparse, hr, he⟩)

/-- The ways in which the creation of a formula returns: it is refused before
anything happens, or a parameter is refused, or the formula is inserted
behind its parameters and evaluated. -/
theorem createFormula_cases {find : String → Action C R VariableId} {source : String}
    {e e' : Engine C R} {result : Except Failure VariableId}
    (h : createFormula find ("=" ++ source) source e = .done (result, e')) :
    (∃ failure, result = .error failure ∧ e' = e) ∨
    ∃ formula, C.compile source = .ok formula ∧
      ((∃ failure, result = .error failure ∧
          ((C.parameters formula).mapM find) e = .done (.error failure, e')) ∨
        ∃ parameters e₁ changed e₂,
          ((C.parameters formula).mapM find) e = .done (.ok parameters, e₁) ∧
          evaluateFormula e₁.state.formulas.length
            (e₁.withState (e₁.state.insertFormula source parameters formula)) =
              .done (changed, e₂) ∧
          result = .ok e₁.state.nextId ∧
          e' = e₂.withState (e₂.state.markIf changed e₁.state.nextId)) := by
  unfold createFormula at h
  rcases Action.of_ofExcept_bind_done h with ⟨formula, hcompile, h⟩ | ⟨failure, -, hr, he⟩
  · have hcompiled : C.compile source = .ok formula := by
      cases hc : C.compile source with
      | ok f =>
        rw [hc] at hcompile
        exact hcompile
      | error failure =>
        rw [hc] at hcompile
        cases hcompile
    rw [Action.current_bind] at h
    rcases Action.of_ofExcept_bind_done h with ⟨-, -, h⟩ | ⟨failure, -, hr, he⟩
    · refine Or.inr ⟨formula, hcompiled, ?_⟩
      rcases Action.of_bind_done h with ⟨parameters, e₁, hparameters, h⟩ | ⟨failure, hrefused, hr⟩
      · refine Or.inr ⟨parameters, e₁, ?_⟩
        rw [Action.current_bind, Action.update_bind] at h
        obtain ⟨changed, e₂, heval, h⟩ := Action.of_ofOutcome_bind_done h
        refine ⟨changed, e₂, hparameters, heval, ?_⟩
        cases changed with
        | true =>
          change Outcome.done (Except.ok e₁.state.nextId,
            e₂.withState (e₂.state.markPending e₁.state.nextId)) = .done (result, e') at h
          obtain ⟨rfl, rfl⟩ : Except.ok e₁.state.nextId = result ∧
              e₂.withState (e₂.state.markPending e₁.state.nextId) = e' := by simpa using h
          exact ⟨rfl, rfl⟩
        | false =>
          obtain ⟨rfl, rfl⟩ : Except.ok e₁.state.nextId = result ∧ e₂ = e' := by simpa using h
          exact ⟨rfl, rfl⟩
      · exact Or.inl ⟨failure, hr, hrefused⟩
    · exact Or.inl ⟨failure, hr, he⟩
  · exact Or.inl ⟨failure, hr, he⟩

/-- One new variable under a key, of the display or with a generator. -/
def Places (key : String) (e e' : Engine C R) : Prop :=
  (∃ initializer, e' = e.withState (e.state.createLocal key initializer)) ∨
    ∃ generator, e.Builds generator ∧ e' = e.withState (e.state.attachGenerator key generator)

/-- A new variable is found under its key, all others where they were. -/
theorem Places.lookup {key : String} {e e' : Engine C R} (h : Places key e e') (other : String) :
    e'.state.lookup other =
      if other = key then some e.state.nextId else e.state.lookup other := by
  rcases h with ⟨initializer, rfl⟩ | ⟨generator, -, rfl⟩
  · exact e.state.lookup_createLocal key other initializer
  · exact e.state.lookup_insertVariable _ other

/-- A new variable under a free key is a step of a construction. -/
theorem Places.step {key : String} {e e' : Engine C R} (h : Places key e e')
    (hiskey : VariableName.IsKey key) (hfree : e.state.lookup key = none) :
    ConstructionStep e e' := by
  rcases h with ⟨initializer, rfl⟩ | ⟨generator, hbuilt, rfl⟩
  · exact .createLocal hiskey hfree initializer
  · exact .attach hiskey hfree generator hbuilt

/-- The ways in which the creation of a variable returns: one variable under
its key, or a formula. -/
theorem createNamed_cases {find : String → Action C R VariableId} {parsed : VariableName}
    {e e' : Engine C R} {result : Except Failure VariableId}
    (h : createNamed find parsed e = .done (result, e')) :
    (result = .ok e.state.nextId ∧ Places parsed.key e e' ∧
      ∀ source, parsed ≠ .formula source) ∨
    ∃ source, parsed = .formula source ∧
      createFormula find ("=" ++ source) source e = .done (result, e') := by
  cases parsed with
  | localVariable id initializer =>
    rw [createNamed, Action.current_bind, Action.update_bind] at h
    obtain ⟨rfl, rfl⟩ : Except.ok e.state.nextId = result ∧ e.withState (e.state.createLocal
        (VariableName.localVariable id initializer).key initializer) = e' := by simpa using h
    exact Or.inl ⟨rfl, Or.inl ⟨initializer, rfl⟩, by simp⟩
  | simulated function arguments =>
    rw [createNamed, Action.current_bind, attach, Action.current_bind, Action.update_bind] at h
    have hbuilt := Builds.signal (e := e) function arguments
    generalize generatorOf function arguments _ = generator at h hbuilt
    obtain ⟨rfl, rfl⟩ : Except.ok e.state.nextId = result ∧ e.withState (e.state.attachGenerator
        (VariableName.simulated function arguments).key generator) = e' := by simpa using h
    exact Or.inl ⟨rfl, Or.inr ⟨generator, hbuilt, rfl⟩, by simp⟩
  | clock =>
    rw [createNamed, Action.current_bind, attach, Action.current_bind, Action.update_bind] at h
    have hbuilt := Builds.clock (e := e)
    generalize Generator.clock _ _ = generator at h hbuilt
    obtain ⟨rfl, rfl⟩ : Except.ok e.state.nextId = result ∧ e.withState (e.state.attachGenerator
        VariableName.clock.key generator) = e' := by simpa using h
    exact Or.inl ⟨rfl, Or.inr ⟨generator, hbuilt, rfl⟩, by simp⟩
  | formula source => exact Or.inr ⟨source, rfl, h⟩

/-- A name is located where its key is, unless its spelling is another key. -/
theorem State.located_of_key {s : State C} {name : String} {parsed : VariableName}
    {id : VariableId} (hparse : VariableName.parse name = .ok parsed)
    (hkey : s.lookup parsed.key = some id)
    (hspelled : s.lookup (Text.trim name) = none ∨ Text.trim name = parsed.key) :
    s.located name = some id := by
  unfold located
  rcases hspelled with hnone | hsame
  · simp only [hnone, hparse, hkey]
  · simp only [hsame, hkey]

/-- A name that was resolved is located at its variable. -/
theorem located_of_resolve {depth : Nat} {name : String} {e e' : Engine C R} {id : VariableId}
    (h : resolve depth name e = .done (.ok id, e')) : e'.state.located name = some id := by
  cases depth with
  | zero => cases h
  | succ depth =>
    rcases resolve_cases h with ⟨found, hfound, hr, rfl⟩ | ⟨-, failure, -, hr, -⟩ |
      ⟨htrim, parsed, found, hparse, hkey, hr, he⟩ | ⟨htrim, parsed, hparse, -, hcreate⟩
    · obtain rfl := Except.ok.inj hr
      simp only [State.located, hfound]
    · cases hr
    · obtain rfl := Except.ok.inj hr
      rcases he with rfl | ⟨initializer, rfl⟩
      · exact State.located_of_key hparse hkey (Or.inl htrim)
      · refine State.located_of_key hparse ?_ (Or.inl ?_)
        · rw [withState, State.lookup_redeclare, hkey]
        · rw [withState, State.lookup_redeclare, htrim]
    · rcases createNamed_cases hcreate with ⟨hr, hplaces, -⟩ | ⟨source, rfl, hformula⟩
      · obtain rfl := Except.ok.inj hr
        refine State.located_of_key hparse (by rw [hplaces.lookup, if_pos rfl]) ?_
        by_cases hsame : Text.trim name = parsed.key
        · exact Or.inr hsame
        · exact Or.inl (by rw [hplaces.lookup, if_neg hsame, htrim])
      · rcases createFormula_cases hformula with ⟨failure, hr, -⟩ | ⟨formula, -, hcase⟩
        · cases hr
        · rcases hcase with ⟨failure, hr, -⟩ | ⟨parameters, e₁, changed, e₂, -, heval, hr, rfl⟩
          · cases hr
          · obtain rfl := Except.ok.inj hr
            have hkey := lookup_inserted heval ("=" ++ source)
            rw [if_pos rfl] at hkey
            exact State.located_of_key hparse hkey
              (Or.inr (VariableName.trim_eq_key_of_formula hparse))

/-- The formula of one key has a parameter with another key. -/
def Mentions (C : FormulaCompiler) (a b : String) : Prop :=
  ∃ source formula name parsed, a = "=" ++ source ∧ C.compile source = .ok formula ∧
    name ∈ C.parameters formula ∧ VariableName.parse name = .ok parsed ∧ parsed.key = b

/-- None of some keys is registered. -/
def Free (keys : String → Prop) (e : Engine C R) : Prop :=
  ∀ key, keys key → e.state.lookup key = none

/-- A new key that is none of some free keys leaves them free. -/
theorem Free.of_lookup {keys : String → Prop} {e e' : Engine C R} (hfree : Free keys e)
    {new : String} {id : VariableId} (hnew : ¬keys new)
    (hlookup : ∀ key, e'.state.lookup key = if key = new then some id else e.state.lookup key) :
    Free keys e' := by
  intro key hkey
  have hne : key ≠ new := fun he => hnew (he ▸ hkey)
  rw [hlookup, if_neg hne]
  exact hfree key hkey

/-- A new initializer leaves free keys free. -/
theorem Free.redeclare {keys : String → Prop} {e : Engine C R} (hfree : Free keys e)
    (id : VariableId) (initializer : String) :
    Free keys (e.withState (e.state.redeclare id initializer)) := by
  intro key hkey
  rw [withState, State.lookup_redeclare]
  exact hfree key hkey

/-- A list of actions that succeeded, each of which keeps a property, performed
every single action from an engine with the property. -/
theorem visits_of_mapM {α β : Type} {f : α → Action C R β} {P : Engine C R → Prop}
    (hkeep : ∀ item e e' b, P e → f item e = .done (.ok b, e') → P e') {items : List α}
    {e e' : Engine C R} {bs : List β} (hP : P e) (h : (items.mapM f) e = .done (.ok bs, e')) :
    P e' ∧ ∀ item ∈ items, ∃ e₁ b e₂, f item e₁ = .done (.ok b, e₂) ∧ P e₂ := by
  induction items generalizing e bs with
  | nil =>
    obtain ⟨-, rfl⟩ : [] = bs ∧ e = e' := by simpa using h
    exact ⟨hP, by simp⟩
  | cons item rest ih =>
    rcases Action.of_mapM_cons_done h with ⟨b, e₁, hitem, hrest⟩ | ⟨failure, -, hr⟩
    · rcases hrest with ⟨bs', hrest, -⟩ | ⟨failure, -, hr⟩
      · have hP₁ := hkeep item e e₁ b hP hitem
        obtain ⟨hlast, hall⟩ := ih hP₁ hrest
        refine ⟨hlast, ?_⟩
        intro other hother
        rcases List.mem_cons.mp hother with rfl | hother
        · exact ⟨e, b, e₁, hitem, hP₁⟩
        · exact hall other hother
      · cases hr
    · cases hr

/-- Only a formula has a key that mentions another one. -/
theorem Mentions.eq_formula {parsed : VariableName} {b : String} (h : Mentions C parsed.key b) :
    ∃ source, parsed = .formula source := by
  obtain ⟨source, -, -, -, hsource, -⟩ := h
  exact ⟨source, VariableName.eq_formula_of_key hsource⟩

/-- A formula that was resolved is registered under its key. -/
theorem lookup_of_resolve_formula {depth : Nat} {name source : String} {e e' : Engine C R}
    {id : VariableId} (hparse : VariableName.parse name = .ok (.formula source))
    (h : resolve depth name e = .done (.ok id, e')) :
    e'.state.lookup (VariableName.formula source).key = some id := by
  have hlocated := located_of_resolve h
  unfold State.located at hlocated
  rw [VariableName.trim_eq_key_of_formula hparse] at hlocated
  change e'.state.lookup ("=" ++ source) = some id
  cases hkey : e'.state.lookup ("=" ++ source) with
  | some found =>
    simp only [hkey] at hlocated
    exact hlocated
  | none =>
    simp only [hkey, hparse] at hlocated
    exact absurd (hkey.symm.trans hlocated) (by simp)

/-- Keys that all mention one of them stay free: the construction of any of
them would have to register another one first. -/
theorem cycle_stays_free {keys : String → Prop}
    (hcycle : ∀ a, keys a → ∃ b, keys b ∧ Mentions C a b) {depth : Nat} {name : String}
    {e e' : Engine C R} {id : VariableId} (hfree : Free keys e)
    (h : resolve depth name e = .done (.ok id, e')) : Free keys e' := by
  induction depth generalizing name e e' id with
  | zero => cases h
  | succ depth ih =>
    rcases resolve_cases h with ⟨found, -, -, rfl⟩ | ⟨-, failure, -, hr, -⟩ |
      ⟨-, parsed, found, -, -, -, he⟩ | ⟨-, parsed, hparse, -, hcreate⟩
    · exact hfree
    · cases hr
    · rcases he with rfl | ⟨initializer, rfl⟩
      · exact hfree
      · exact hfree.redeclare found initializer
    · rcases createNamed_cases hcreate with ⟨-, hplaces, hother⟩ | ⟨source, rfl, hformula⟩
      · refine hfree.of_lookup ?_ hplaces.lookup
        intro hmember
        obtain ⟨b, -, hmentions⟩ := hcycle _ hmember
        obtain ⟨source, hsource⟩ := hmentions.eq_formula
        exact hother source hsource
      · rcases createFormula_cases hformula with ⟨failure, hr, -⟩ | ⟨formula, hcompiled, hcase⟩
        · cases hr
        · rcases hcase with ⟨failure, hr, -⟩ | ⟨parameters, e₁, changed, e₂, hall, heval, -, rfl⟩
          · cases hr
          · obtain ⟨hfree₁, hvisits⟩ :=
              visits_of_mapM (P := Free keys) (fun _ _ _ _ hP hitem => ih hP hitem) hfree hall
            refine hfree₁.of_lookup ?_ (lookup_inserted heval)
            -- a key of the cycle can not be the new one: it mentions a key of the cycle, which
            -- has then been resolved as a parameter and yet is free
            intro hmember
            obtain ⟨b, hb, source', formula', parameter, parsed, hsource, hcompiled', hin,
              hparse', rfl⟩ := hcycle _ hmember
            obtain rfl : source = source' := by simpa using hsource
            obtain rfl := Except.ok.inj (hcompiled.symm.trans hcompiled')
            obtain ⟨e₃, found, e₄, hfound, hfree₄⟩ := hvisits parameter hin
            obtain ⟨other, -, hmentions⟩ := hcycle _ hb
            obtain ⟨inner, rfl⟩ := hmentions.eq_formula
            have hregistered := lookup_of_resolve_formula hparse' hfound
            rw [hfree₄ _ hb] at hregistered
            cases hregistered

/-- Keys under construction wait for a name: each of them mentions another one
of them or the key of the name. -/
def Waiting (C : FormulaCompiler) (keys : String → Prop) (name : String) : Prop :=
  ∀ parsed, VariableName.parse name = .ok parsed → ∀ a, keys a →
    ∃ b, Mentions C a b ∧ (keys b ∨ parsed.key = b)

/-- While a parameter of a formula is resolved, the key of the formula waits
with the others. -/
theorem Waiting.parameter {keys : String → Prop} {name source parameter : String}
    {formula : C.Formula} (h : Waiting C keys name)
    (hparse : VariableName.parse name = .ok (.formula source))
    (hcompiled : C.compile source = .ok formula) (hparameter : parameter ∈ C.parameters formula) :
    Waiting C (fun key => keys key ∨ key = "=" ++ source) parameter := by
  rintro parsed hparsed a (hmember | rfl)
  · obtain ⟨b, hmentions, hb⟩ := h _ hparse a hmember
    rcases hb with hb | rfl
    · exact ⟨b, hmentions, Or.inl (Or.inl hb)⟩
    · exact ⟨_, hmentions, Or.inl (Or.inr rfl)⟩
  · exact ⟨parsed.key, ⟨source, formula, parameter, parsed, rfl, hcompiled, hparameter,
      hparsed, rfl⟩, Or.inr rfl⟩

/-- Keys that wait for the name of one of them are a cycle. -/
theorem Waiting.cycle {keys : String → Prop} {name : String} {parsed : VariableName}
    (h : Waiting C keys name) (hparse : VariableName.parse name = .ok parsed)
    (hmember : keys parsed.key) : ∀ a, keys a → ∃ b, keys b ∧ Mentions C a b := by
  intro a ha
  obtain ⟨b, hmentions, hb⟩ := h _ hparse a ha
  rcases hb with hb | rfl
  · exact ⟨b, hb, hmentions⟩
  · exact ⟨_, hmember, hmentions⟩

/-- A list of actions each of which is a construction that locates its name
and leaves some keys free is a construction as a whole. -/
theorem construction_of_mapM {find : String → Action C R VariableId} {keys : String → Prop}
    {names : List String}
    (hfind : ∀ name ∈ names, ∀ e e' result, Free keys e → find name e = .done (result, e') →
      Construction e e' ∧
        ∀ id, result = .ok id → e'.state.located name = some id ∧ Free keys e')
    {e e' : Engine C R} {result : Except Failure (List VariableId)} (hfree : Free keys e)
    (h : (names.mapM find) e = .done (result, e')) :
    Construction e e' ∧ ∀ ids, result = .ok ids →
      List.Forall₂ (fun name id => e'.state.located name = some id) names ids ∧
        Free keys e' := by
  induction names generalizing e result with
  | nil =>
    obtain ⟨rfl, rfl⟩ : Except.ok [] = result ∧ e = e' := by simpa using h
    refine ⟨.refl, ?_⟩
    intro ids hids
    obtain rfl := Except.ok.inj hids
    exact ⟨.nil, hfree⟩
  | cons name rest ih =>
    have hrest := fun other hother => hfind other (List.mem_cons_of_mem name hother)
    rcases Action.of_mapM_cons_done h with ⟨id, e₁, hname, htail⟩ | ⟨failure, hname, rfl⟩
    · obtain ⟨hfirst, hok⟩ := hfind name List.mem_cons_self e e₁ _ hfree hname
      obtain ⟨hlocated, hfree₁⟩ := hok id rfl
      rcases htail with ⟨ids, htail, rfl⟩ | ⟨failure, htail, rfl⟩
      · obtain ⟨hchain, hids⟩ := ih hrest hfree₁ htail
        refine ⟨hfirst.trans hchain, ?_⟩
        intro all hall
        obtain rfl := Except.ok.inj hall
        obtain ⟨hforall, hfree'⟩ := hids ids rfl
        exact ⟨.cons (hchain.located hlocated) hforall, hfree'⟩
      · obtain ⟨hchain, -⟩ := ih hrest hfree₁ htail
        exact ⟨hfirst.trans hchain, fun ids hids => by cases hids⟩
    · obtain ⟨hfirst, -⟩ := hfind name List.mem_cons_self e e' _ hfree hname
      exact ⟨hfirst, fun ids hids => by cases hids⟩

/-- A resolution that returns is a construction, also where it is refused,
and keys under construction stay free. -/
theorem construction_of_resolve {depth : Nat} {keys : String → Prop} {name : String}
    {e e' : Engine C R} {result : Except Failure VariableId} (hfree : Free keys e)
    (hwaiting : Waiting C keys name) (h : resolve depth name e = .done (result, e')) :
    Construction e e' ∧ ∀ id, result = .ok id → Free keys e' := by
  induction depth generalizing keys name e e' result with
  | zero => cases h
  | succ depth ih =>
    rcases resolve_cases h with ⟨found, -, -, rfl⟩ | ⟨-, failure, -, -, rfl⟩ |
      ⟨-, parsed, found, -, hkey, -, he⟩ | ⟨-, parsed, hparse, hkeyfree, hcreate⟩
    · exact ⟨.refl, fun _ _ => hfree⟩
    · exact ⟨.refl, fun _ _ => hfree⟩
    · rcases he with rfl | ⟨initializer, rfl⟩
      · exact ⟨.refl, fun _ _ => hfree⟩
      · exact ⟨.single (.redeclare hkey initializer), fun _ _ => hfree.redeclare found initializer⟩
    · have hiskey : VariableName.IsKey parsed.key := ⟨name, parsed, hparse, rfl⟩
      rcases createNamed_cases hcreate with ⟨-, hplaces, hother⟩ | ⟨source, rfl, hformula⟩
      · refine ⟨.single (hplaces.step hiskey hkeyfree), fun _ _ => ?_⟩
        refine hfree.of_lookup ?_ hplaces.lookup
        intro hmember
        obtain ⟨b, hmentions, -⟩ := hwaiting parsed hparse _ hmember
        obtain ⟨source, hsource⟩ := hmentions.eq_formula
        exact hother source hsource
      · rcases createFormula_cases hformula with ⟨failure, rfl, rfl⟩ | ⟨formula, hcompiled, hcase⟩
        · exact ⟨.refl, fun _ hr => by cases hr⟩
        · have hfree₀ : Free (fun key => keys key ∨ key = "=" ++ source) e := by
            rintro key (hmember | rfl)
            · exact hfree key hmember
            · exact hkeyfree
          have hparameter : ∀ parameter ∈ C.parameters formula, ∀ (e₁ e₂ : Engine C R) result,
              Free (fun key => keys key ∨ key = "=" ++ source) e₁ →
              resolve depth parameter e₁ = .done (result, e₂) →
                Construction e₁ e₂ ∧ ∀ id, result = .ok id →
                  e₂.state.located parameter = some id ∧
                    Free (fun key => keys key ∨ key = "=" ++ source) e₂ := by
            intro parameter hin e₁ e₂ result hfree₁ hresolve
            obtain ⟨hchain, hkeeps⟩ :=
              ih hfree₁ (hwaiting.parameter hparse hcompiled hin) hresolve
            refine ⟨hchain, ?_⟩
            rintro id rfl
            exact ⟨located_of_resolve hresolve, hkeeps id rfl⟩
          rcases hcase with ⟨failure, rfl, hrefused⟩ |
            ⟨parameters, e₁, changed, e₂, hall, heval, rfl, rfl⟩
          · exact ⟨(construction_of_mapM hparameter hfree₀ hrefused).1, fun _ hr => by cases hr⟩
          · obtain ⟨hchain, hok⟩ := construction_of_mapM hparameter hfree₀ hall
            obtain ⟨hlocated, hfree₁⟩ := hok parameters rfl
            have hstep := ConstructionStep.createFormula hiskey (hfree₁ _ (Or.inr rfl)) hcompiled
              hlocated heval
            refine ⟨hchain.tail hstep, fun _ _ => ?_⟩
            by_cases hmember : keys ("=" ++ source)
            · exact cycle_stays_free (hwaiting.cycle hparse hmember) hfree h
            · have hkeys : Free keys e₁ := fun key hkey => hfree₁ key (Or.inl hkey)
              exact hkeys.of_lookup hmember (lookup_inserted heval)

/-- The resolution of names in order is a construction that locates them. -/
theorem construction_of_resolveAll {names : List String} {e e' : Engine C R}
    {result : Except Failure (List VariableId)} (h : resolveAll names e = .done (result, e')) :
    Construction e e' ∧ ∀ ids, result = .ok ids →
      List.Forall₂ (fun name id => e'.state.located name = some id) names ids := by
  have hnone : ∀ e : Engine C R, Free (fun _ => False) e := fun _ _ hkey => hkey.elim
  refine (construction_of_mapM (fun name _ e₁ e₂ result _ hresolve => ?_) (hnone e) h).imp_right
    fun hall ids hids => (hall ids hids).1
  have hwaiting : Waiting C (fun _ => False) name := fun _ _ _ hkey => hkey.elim
  refine ⟨(construction_of_resolve (hnone e₁) hwaiting hresolve).1, ?_⟩
  rintro id rfl
  exact ⟨located_of_resolve hresolve, hnone e₂⟩

end Engine

end ProcessDisplay
