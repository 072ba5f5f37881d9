import Mathlib.Tactic.Common
import ProcessDisplay.Proofs.Evolutions
import ProcessDisplay.Proofs.Propagations

/-!
# Formulas that follow their parameters

A formula that was faithfully compiled follows its parameters when its
variable has no value as long as one of them has none, and otherwise shows
the result of one execution on their present data, unless a parameter is
stale. Variables that move make themselves stale at most, and an evaluation
makes one formula current again.
-/

namespace ProcessDisplay.Engine

variable {C : FormulaCompiler} {R : ScriptInterpreter}

namespace State

/-- The variables that a formula reads, in the order of its parameters. -/
def readBy (s : State C) (unit : FormulaUnit C) : List Variable :=
  unit.parameters.filterMap fun p => s.vars[p]?

/-- A variable shows what a formula computes from the present data of its
parameters, with the greatest of their severities. -/
def Shows (s : State C) (unit : FormulaUnit C) (v : Variable) : Prop :=
  ∃ result f, C.execute (s.supplied unit) = .done (result, f) ∧
    v.Reflects (Severity.worst ((s.readBy unit).map Variable.severity)) result

/-- How a variable depends on the parameters of its formula. -/
structure Follows (s : State C) (unit : FormulaUnit C) (v : Variable) (isStale : Prop) :
    Prop where
  /-- Without a value of every parameter there has been no value. -/
  dormant : (∃ w ∈ s.readBy unit, w.value = none) → v.value = none
  /-- With a value of every parameter the formula is shown. -/
  current : ¬ isStale → (∀ w ∈ s.readBy unit, w.value.isSome = true) → s.Shows unit v

/-- Where a formula comes from, and the variable that it computes. -/
structure Stems (s : State C) (unit : FormulaUnit C) (source : String) (origin : C.Formula)
    (v : Variable) : Prop where
  /-- The source was compiled. -/
  compiled : C.compile source = .ok origin
  /-- The formula computes a variable. -/
  computes : s.vars[unit.variableId]? = some v
  /-- The variable spells the source. -/
  name : v.name = "=" ++ source
  /-- Supplies and executions led from the compiled formula to the present one. -/
  derives : C.Derives origin unit.formula
  /-- Each name among the parameters stands for one variable. -/
  parameters : ∃ place : String → VariableId,
    unit.parameters = (C.parameters origin).map place
  /-- The names of the parameters spell these variables. -/
  resolves : s.Resolves (C.parameters origin) unit.parameters

/-- A formula follows its parameters if it was faithfully compiled. -/
def Tracks (s : State C) (unit : FormulaUnit C) (isStale : Prop) : Prop :=
  ∃ source origin v, s.Stems unit source origin v ∧
    (C.Faithful origin → s.Follows unit v isStale)

/-- Every formula follows its parameters, but for those that are stale to it. -/
def UpToDate (s : State C) (isStale : Nat → VariableId → Prop) : Prop :=
  ∀ i unit, s.formulas[i]? = some unit → s.Tracks unit (∃ p ∈ unit.parameters, isStale i p)

/-- A variable that a formula reads. -/
theorem mem_readBy {s : State C} {unit : FormulaUnit C} {w : Variable} :
    w ∈ s.readBy unit ↔ ∃ p ∈ unit.parameters, s.vars[p]? = some w :=
  List.mem_filterMap

/-- What a formula reads depends on its parameters only. -/
theorem readBy_congr {s s' : State C} {unit unit' : FormulaUnit C}
    (hparameters : unit'.parameters = unit.parameters)
    (hvars : ∀ p ∈ unit.parameters, s'.vars[p]? = s.vars[p]?) :
    s'.readBy unit' = s.readBy unit := by
  unfold readBy
  rw [hparameters]
  exact List.filterMap_congr hvars

/-- The data of variables with values carry the severities of the variables. -/
theorem severities_eq {s : State C} {ids : List VariableId}
    (h : ∀ p ∈ ids, ∃ w, s.vars[p]? = some w ∧ w.value.isSome = true) :
    (ids.map fun p => (s.dataAt p).severity) =
      (ids.filterMap fun p => s.vars[p]?).map Variable.severity := by
  induction ids with
  | nil => rfl
  | cons p rest ih =>
    obtain ⟨w, hw, hvalue⟩ := h p List.mem_cons_self
    have hrest := ih fun q hq => h q (List.mem_cons_of_mem p hq)
    rw [List.map_cons, List.filterMap_cons_some hw, List.map_cons, hrest, dataAt_of_some hw,
      DataSource.severity_ofVariable hvalue]

/-- The data of a variable are ready if it has a value. -/
theorem isReady_dataAt {s : State C} {p : VariableId} {w : Variable} (hw : s.vars[p]? = some w) :
    (s.dataAt p).isReady = w.value.isSome := by
  rw [dataAt_of_some hw, DataSource.isReady_ofVariable]

section Faithful

variable {s s' : State C} {unit : FormulaUnit C} {source : String} {origin : C.Formula}
  {v : Variable}

/-- A faithful formula is supplied with the data of its parameters by name. -/
theorem Stems.supplied_eq (h : s.Stems unit source origin v) (hfaithful : C.Faithful origin)
    (hrange : ∀ p ∈ unit.parameters, ∃ w, s.vars[p]? = some w) {place : String → VariableId}
    (hplace : unit.parameters = (C.parameters origin).map place) :
    s.supplied unit = C.supplyAll unit.formula fun name => s.dataAt (place name) := by
  refine supplied_eq_supplyAll ?_ hrange
  rw [hfaithful.parameters _ h.derives]
  exact hplace

/-- A faithful formula is ready when every variable that it reads has a value. -/
theorem Stems.isReady_iff (h : s.Stems unit source origin v) (hfaithful : C.Faithful origin)
    (hrange : ∀ p ∈ unit.parameters, ∃ w, s.vars[p]? = some w) :
    C.isReady (s.supplied unit) = true ↔ ∀ w ∈ s.readBy unit, w.value.isSome = true := by
  obtain ⟨place, hplace⟩ := h.parameters
  rw [h.supplied_eq hfaithful hrange hplace, hfaithful.isReady _ h.derives, List.all_eq_true]
  constructor
  · intro hready w hw
    obtain ⟨p, hp, hvar⟩ := mem_readBy.mp hw
    rw [hplace] at hp
    obtain ⟨name, hname, rfl⟩ := List.mem_map.mp hp
    rw [← isReady_dataAt hvar]
    exact hready name hname
  · intro hvalues name hname
    have hp : place name ∈ unit.parameters := by
      rw [hplace]
      exact List.mem_map_of_mem hname
    obtain ⟨w, hw⟩ := hrange _ hp
    rw [isReady_dataAt hw]
    exact hvalues w (mem_readBy.mpr ⟨_, hp, hw⟩)

/-- Every parameter in range has a value when all variables read have one. -/
theorem valued_of_readBy (hrange : ∀ p ∈ unit.parameters, ∃ w, s.vars[p]? = some w)
    (hvalues : ∀ w ∈ s.readBy unit, w.value.isSome = true) :
    ∀ p ∈ unit.parameters, ∃ w, s.vars[p]? = some w ∧ w.value.isSome = true := by
  intro p hp
  obtain ⟨w, hw⟩ := hrange p hp
  exact ⟨w, hw, hvalues w (mem_readBy.mpr ⟨p, hp, hw⟩)⟩

/-- A faithful formula that is ready has the greatest severity of what it reads. -/
theorem Stems.severity_eq (h : s.Stems unit source origin v) (hfaithful : C.Faithful origin)
    (hrange : ∀ p ∈ unit.parameters, ∃ w, s.vars[p]? = some w)
    (hvalues : ∀ w ∈ s.readBy unit, w.value.isSome = true) :
    C.severity (s.supplied unit) =
      Severity.worst ((s.readBy unit).map Variable.severity) := by
  obtain ⟨place, hplace⟩ := h.parameters
  have hvalued := valued_of_readBy hrange hvalues
  have hready : ∀ name ∈ C.parameters origin, (s.dataAt (place name)).isReady = true := by
    intro name hname
    obtain ⟨w, hw, hvalue⟩ := hvalued (place name) (by
      rw [hplace]
      exact List.mem_map_of_mem hname)
    rw [isReady_dataAt hw]
    exact hvalue
  rw [h.supplied_eq hfaithful hrange hplace, hfaithful.severity _ h.derives _ hready, readBy,
    ← severities_eq hvalued, hplace, List.map_map]
  rfl

/-- Executions of one formula on parameters that agree return results that agree. -/
theorem Stems.execute_agrees {f : C.Formula} (h : s.Stems unit source origin v)
    (hfaithful : C.Faithful origin) (hf : C.Derives origin f)
    (hvalued : ∀ p ∈ unit.parameters, ∃ w, s.vars[p]? = some w ∧ w.value.isSome = true)
    (hagree : ∀ p ∈ unit.parameters, ∀ w, s.vars[p]? = some w →
      ∃ w', s'.vars[p]? = some w' ∧ w.Agrees w') :
    ExecutionsAgree (C.execute (s.supplied unit))
      (C.execute (s'.supplied { unit with formula := f })) := by
  obtain ⟨place, hplace⟩ := h.parameters
  have hrange : ∀ p ∈ unit.parameters, ∃ w, s.vars[p]? = some w := by
    intro p hp
    obtain ⟨w, hw, -⟩ := hvalued p hp
    exact ⟨w, hw⟩
  have hrange' : ∀ p ∈ unit.parameters, ∃ w, s'.vars[p]? = some w := by
    intro p hp
    obtain ⟨w, hw⟩ := hrange p hp
    obtain ⟨w', hw', -⟩ := hagree p hp w hw
    exact ⟨w', hw'⟩
  have hsupplied : s'.supplied { unit with formula := f } =
      C.supplyAll f fun name => s'.dataAt (place name) := by
    refine supplied_eq_supplyAll ?_ hrange'
    rw [hfaithful.parameters _ hf]
    exact hplace
  have hmem : ∀ name ∈ C.parameters origin, place name ∈ unit.parameters := by
    intro name hname
    rw [hplace]
    exact List.mem_map_of_mem hname
  rw [h.supplied_eq hfaithful hrange hplace, hsupplied]
  refine hfaithful.execute _ _ h.derives hf _ _ ?_ ?_
  · intro name hname
    obtain ⟨w, hw, hvalue⟩ := hvalued _ (hmem name hname)
    rw [isReady_dataAt hw]
    exact hvalue
  · intro name hname
    obtain ⟨w, hw, -⟩ := hvalued _ (hmem name hname)
    obtain ⟨w', hw', hww⟩ := hagree _ (hmem name hname) w hw
    rw [dataAt_of_some hw, dataAt_of_some hw']
    exact DataSource.agrees_ofVariable hww

end Faithful

/-- Variables that agree have the same severities. -/
theorem severities_of_agrees {s s' : State C} {ids : List VariableId}
    (hrange : ∀ p ∈ ids, ∃ w, s.vars[p]? = some w)
    (hagree : ∀ p ∈ ids, ∀ w, s.vars[p]? = some w →
      ∃ w', s'.vars[p]? = some w' ∧ w.Agrees w') :
    (ids.filterMap fun p => s'.vars[p]?).map Variable.severity =
      (ids.filterMap fun p => s.vars[p]?).map Variable.severity := by
  induction ids with
  | nil => rfl
  | cons p rest ih =>
    obtain ⟨w, hw⟩ := hrange p List.mem_cons_self
    obtain ⟨w', hw', hww⟩ := hagree p List.mem_cons_self w hw
    have hrest := ih (fun q hq => hrange q (List.mem_cons_of_mem p hq))
      (fun q hq => hagree q (List.mem_cons_of_mem p hq))
    rw [List.filterMap_cons_some hw, List.filterMap_cons_some hw', List.map_cons, List.map_cons,
      hrest, hww.severity]

section Changes

variable {s s' : State C} {unit : FormulaUnit C} {source : String} {origin : C.Formula}
  {v : Variable}

/-- A formula follows its parameters through moves that leave its variable
alone; moves that touch a parameter make it stale. -/
theorem Stems.follows_of_moves {touched : VariableId → Prop} {isStale isStale' : Prop}
    (h : s.Stems unit source origin v) (hfaithful : C.Faithful origin)
    (hrange : ∀ p ∈ unit.parameters, ∃ w, s.vars[p]? = some w)
    (hmoves : Moves s.vars s'.vars touched)
    (hstale : isStale ∨ (∃ p ∈ unit.parameters, touched p) → isStale')
    (hfollows : s.Follows unit v isStale) : s'.Follows unit v isStale' := by
  constructor
  case dormant =>
    rintro ⟨w', hw', hnone⟩
    obtain ⟨p, hp, hvar'⟩ := mem_readBy.mp hw'
    obtain ⟨w, hw⟩ := hrange p hp
    obtain ⟨w₁, hw₁, hbecomes, -⟩ := hmoves p w hw
    obtain rfl := Option.some.inj (hvar'.symm.trans hw₁)
    refine hfollows.dormant ⟨w, mem_readBy.mpr ⟨p, hp, hw⟩, ?_⟩
    -- a value that was there before would still be there
    by_contra hsome
    have hvalued := hbecomes.valued (Option.isSome_iff_ne_none.mpr hsome)
    rw [hnone] at hvalued
    cases hvalued
  case current =>
    intro hfresh hvalues
    have hagree : ∀ p ∈ unit.parameters, ∀ w, s.vars[p]? = some w →
        ∃ w', s'.vars[p]? = some w' ∧ w.Agrees w' := by
      intro p hp w hw
      obtain ⟨w', hw', -, htouched⟩ := hmoves p w hw
      rcases htouched with ht | hww
      · exact absurd (hstale (Or.inr ⟨p, hp, ht⟩)) hfresh
      · exact ⟨w', hw', hww⟩
    have hvalued : ∀ p ∈ unit.parameters, ∃ w, s.vars[p]? = some w ∧ w.value.isSome = true := by
      intro p hp
      obtain ⟨w, hw⟩ := hrange p hp
      obtain ⟨w', hw', hww⟩ := hagree p hp w hw
      refine ⟨w, hw, ?_⟩
      rw [hww.value.isSome_eq]
      exact hvalues w' (mem_readBy.mpr ⟨p, hp, hw'⟩)
    have hvalues₀ : ∀ w ∈ s.readBy unit, w.value.isSome = true := by
      intro w hw
      obtain ⟨p, hp, hvar⟩ := mem_readBy.mp hw
      obtain ⟨w₀, hw₀, hvalue⟩ := hvalued p hp
      obtain rfl := Option.some.inj (hvar.symm.trans hw₀)
      exact hvalue
    obtain ⟨result, f, hrun, hreflects⟩ :=
      hfollows.current (fun hold => hfresh (hstale (Or.inl hold))) hvalues₀
    have hexecutions := h.execute_agrees hfaithful h.derives hvalued hagree
    rw [hrun] at hexecutions
    obtain ⟨result', f', hrun', hresult⟩ := hexecutions.of_done
    refine ⟨result', f', hrun', ?_⟩
    rw [readBy, severities_of_agrees hrange hagree]
    exact hreflects.of_agrees hresult

/-- A formula that was evaluated follows its parameters, none of which moved. -/
theorem Stems.follows_of_evaluation {e : Engine C R} {f : C.Formula} {w : Variable}
    {changed : Bool} {isStale : Prop} (h : e.state.Stems unit source origin v)
    (hfaithful : C.Faithful origin)
    (hrange : ∀ p ∈ unit.parameters, ∃ u, e.state.vars[p]? = some u)
    (heval : Evaluation e unit v f w changed)
    (hdormant : (∃ u ∈ e.state.readBy unit, u.value = none) → v.value = none)
    (hsame : ∀ p ∈ unit.parameters, s'.vars[p]? = e.state.vars[p]?) :
    s'.Follows { unit with formula := f } w isStale := by
  have hready := h.isReady_iff hfaithful hrange
  have hread : s'.readBy { unit with formula := f } = e.state.readBy unit :=
    readBy_congr rfl hsame
  constructor
  case dormant =>
    rw [hread]
    rintro ⟨u, hu, hnone⟩
    have hwaiting : C.isReady (e.state.supplied unit) = false := by
      rw [Bool.eq_false_iff]
      intro hyes
      have hvalued := hready.mp hyes u hu
      rw [hnone] at hvalued
      cases hvalued
    rw [heval.waiting hwaiting]
    exact hdormant ⟨u, hu, hnone⟩
  case current =>
    intro _ hvalues
    rw [hread] at hvalues
    obtain ⟨result, hrun, hreflects⟩ := heval.executed (hready.mpr hvalues)
    have hagree : ∀ p ∈ unit.parameters, ∀ u, e.state.vars[p]? = some u →
        ∃ u', s'.vars[p]? = some u' ∧ u.Agrees u' :=
      fun p hp u hu => ⟨u, (hsame p hp).trans hu, .refl u⟩
    have hexecutions := h.execute_agrees hfaithful (h.derives.trans heval.derives)
      (valued_of_readBy hrange hvalues) hagree
    rw [hrun] at hexecutions
    obtain ⟨result', f', hrun', hresult⟩ := hexecutions.of_done
    refine ⟨result', f', hrun', ?_⟩
    rw [hread, ← h.severity_eq hfaithful hrange hvalues]
    exact hreflects.of_agrees hresult

/-- A formula stays on the track of its parameters through moves that leave
its variable alone. -/
theorem Tracks.of_moves {touched : VariableId → Prop} {isStale isStale' : Prop}
    (h : s.Tracks unit isStale) (hrange : ∀ p ∈ unit.parameters, ∃ w, s.vars[p]? = some w)
    (hmoves : Moves s.vars s'.vars touched)
    (hsame : s'.vars[unit.variableId]? = s.vars[unit.variableId]?)
    (hstale : isStale ∨ (∃ p ∈ unit.parameters, touched p) → isStale') :
    s'.Tracks unit isStale' := by
  obtain ⟨source, origin, v, hstems, hfollows⟩ := h
  refine ⟨source, origin, v, { hstems with
    computes := hsame.trans hstems.computes, resolves := hstems.resolves.of_moves hmoves }, ?_⟩
  intro hfaithful
  exact hstems.follows_of_moves hfaithful hrange hmoves hstale (hfollows hfaithful)

/-- A formula that may be stale more often stays on the track. -/
theorem Tracks.mono {isStale isStale' : Prop} (h : s.Tracks unit isStale)
    (hstale : isStale → isStale') : s.Tracks unit isStale' := by
  obtain ⟨source, origin, v, hstems, hfollows⟩ := h
  refine ⟨source, origin, v, hstems, fun hfaithful => ?_⟩
  exact ⟨(hfollows hfaithful).dormant, fun hfresh =>
    (hfollows hfaithful).current fun hold => hfresh (hstale hold)⟩

/-- An evaluation puts its formula on the track of its parameters. -/
theorem Tracks.of_evaluation {e : Engine C R} {f : C.Formula} {w : Variable}
    {changed : Bool} {isStale isStale' : Prop} (h : e.state.Tracks unit isStale)
    (hv : e.state.vars[unit.variableId]? = some v)
    (hrange : ∀ p ∈ unit.parameters, ∃ u, e.state.vars[p]? = some u)
    (heval : Evaluation e unit v f w changed)
    (hsame : ∀ p ∈ unit.parameters, s'.vars[p]? = e.state.vars[p]?)
    (hcomputes : s'.vars[unit.variableId]? = some w) :
    s'.Tracks { unit with formula := f } isStale' := by
  obtain ⟨source, origin, v₀, hstems, hfollows⟩ := h
  obtain rfl := Option.some.inj (hv.symm.trans hstems.computes)
  refine ⟨source, origin, w, ⟨hstems.compiled, hcomputes, heval.becomes.name.trans hstems.name,
    hstems.derives.trans heval.derives, hstems.parameters, hstems.resolves.congr hsame⟩, ?_⟩
  intro hfaithful
  exact hstems.follows_of_evaluation hfaithful hrange heval (hfollows hfaithful).dormant hsame

end Changes

/-- The parameters of a formula in a well-formed registry are in range. -/
theorem WellFormed.range_parameters {s : State C} (h : s.WellFormed) {unit : FormulaUnit C}
    (hunit : unit ∈ s.formulas) : ∀ p ∈ unit.parameters, ∃ w, s.vars[p]? = some w := by
  intro p hp
  have hvariable : unit.variableId < s.vars.length :=
    h.formulas.lt (List.mem_map_of_mem hunit)
  have hlt : p < s.vars.length := Nat.lt_trans (h.parameters unit hunit p hp) hvariable
  exact ⟨s.vars[p], List.getElem?_eq_getElem hlt⟩

/-- No variable is computed by two formulas. -/
theorem WellFormed.formula_unique {s : State C} (h : s.WellFormed) {i j : Nat}
    {unit other : FormulaUnit C} (hi : s.formulas[i]? = some unit)
    (hj : s.formulas[j]? = some other) (hsame : unit.variableId = other.variableId) : i = j := by
  have hi' : (s.formulas.map FormulaUnit.variableId)[i]? = some unit.variableId := by
    rw [List.getElem?_map, hi]
    rfl
  have hj' : (s.formulas.map FormulaUnit.variableId)[j]? = some unit.variableId := by
    rw [List.getElem?_map, hj, hsame]
    rfl
  have hlt := (List.getElem?_eq_some_iff.mp hi').1
  exact (List.getElem?_inj hlt h.formulas.nodup).mp (hi'.trans hj'.symm)

/-- Formulas stay up to date through moves that leave all of them alone, and
new formulas join them; parameters that are touched become stale. -/
theorem UpToDate.of_moves {s s' : State C} {isStale isStale' : Nat → VariableId → Prop}
    {touched : VariableId → Prop} (h : s.UpToDate isStale) (hs : s.WellFormed)
    (hformulas : ∀ (i : Nat) (unit : FormulaUnit C), s'.formulas[i]? = some unit →
      s.formulas[i]? = some unit ∨
      s'.Tracks unit (∃ p ∈ unit.parameters, isStale' i p))
    (hmoves : Moves s.vars s'.vars touched) (hkeeps : KeepsFormulas s.vars s'.vars)
    (hstale : ∀ i p, isStale i p ∨ touched p → isStale' i p) : s'.UpToDate isStale' := by
  intro i unit hunit
  rcases hformulas i unit hunit with hold | hnew
  · have hmem := List.mem_of_getElem? hold
    obtain ⟨v, hv, hkind⟩ := hs.of_formula hold
    refine (h i unit hold).of_moves (hs.range_parameters hmem) hmoves ?_ ?_
    · rw [hkeeps _ v hv hkind, hv]
    · rintro (⟨p, hp, hbefore⟩ | ⟨p, hp, ht⟩)
      · exact ⟨p, hp, hstale i p (Or.inl hbefore)⟩
      · exact ⟨p, hp, hstale i p (Or.inr ht)⟩
  · exact hnew

/-- Formulas stay up to date when every change is recorded. -/
theorem UpToDate.of_records {s s' : State C} (h : s.UpToDate fun _ p => p ∈ s.pending)
    (hs : s.WellFormed)
    (hformulas : ∀ (i : Nat) (unit : FormulaUnit C), s'.formulas[i]? = some unit →
      s.formulas[i]? = some unit ∨
      s'.Tracks unit (∃ p ∈ unit.parameters, p ∈ s'.pending))
    (hrecords : Records s s') : s'.UpToDate fun _ p => p ∈ s'.pending := by
  refine h.of_moves hs hformulas hrecords.moves hrecords.formulas ?_
  rintro i p (hp | hp)
  · exact hrecords.pending p hp
  · exact hp

end State

end ProcessDisplay.Engine
