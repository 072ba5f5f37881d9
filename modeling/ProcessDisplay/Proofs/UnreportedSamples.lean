import ProcessDisplay.Proofs.Sessions
import ProcessDisplay.Proofs.UntimedRuns
import ProcessDisplay.Proofs.ZeroSigns

/-!
# Samples that a variable does not report

A variable reports a sample unless its value compares equal to the present
one and comes with the same severity. Such a sample goes unnoticed by all
that looks at the variable, but for one thing: it may turn a zero into the
other one. The number and the text of a zero show its sign, a script or
formula can compute with it, and no unit runs for it.
-/

namespace ProcessDisplay

variable {v : Variable} {sample : Sample}

namespace Variable

/-- The present value is known to equal another one if there is one that
compares equal to it. -/
theorem holds_iff {value : Value} :
    v.holds value = true ↔ ∃ present, v.value = some present ∧ (present == value) = true := by
  unfold holds
  cases v.value <;> simp

/-- A sample goes unreported if its value compares equal to the present one and
its severity is the present one. -/
theorem apply_eq_false_iff : (v.apply sample).2 = false ↔
    (∃ present, v.value = some present ∧ (present == sample.value) = true) ∧
      v.severity = sample.severity := by
  rw [← holds_iff]
  simp [apply]

end Variable

namespace Engine

variable {C : FormulaCompiler}

/-- Units that run in two states do the same in both. -/
structure State.Indistinct (L : Script.Language) (limits : Script.Limits)
    (before after : State C) : Prop where
  /-- A formula is supplied with the same states of its parameters. -/
  formulas : ∀ unit : FormulaUnit C, after.supplied unit = before.supplied unit
  /-- A rule does the same to its widget, or fails alike. -/
  rules : ∀ (s : Stage C (.bundled L limits)) (unit : RuleUnit),
    s.runRule unit (after.snapshots unit.inputs) = s.runRule unit (before.snapshots unit.inputs)
  /-- A script does the same to its inputs and its widget, says the same and
  fails alike. -/
  scripts : ∀ (s : Stage C (.bundled L limits)) (unit : ScriptUnit),
    s.runScript unit (after.snapshots unit.inputs) =
      s.runScript unit (before.snapshots unit.inputs)

/-- What a formula is supplied with rests on the states of the parameters alone. -/
theorem supplied_congr {before after : State C}
    (h : ∀ id : VariableId, after.vars[id]?.map DataSource.ofVariable =
      before.vars[id]?.map DataSource.ofVariable) (unit : FormulaUnit C) :
    after.supplied unit = before.supplied unit := by
  have hsupplied : ∀ s : State C, s.supplied unit =
      ((C.parameters unit.formula).zip unit.parameters).foldl (fun f parameter =>
        (s.vars[parameter.2]?.map DataSource.ofVariable).elim f (C.supply f parameter.1))
        unit.formula := by
    intro s
    unfold State.supplied
    congr 1
    funext f parameter
    cases s.vars[parameter.2]? <;> rfl
  rw [hsupplied, hsupplied]
  simp only [h]

/-- The snapshots of variables without times rest on those of each of them. -/
theorem untimed_snapshots_congr {before after : State C}
    (h : ∀ id : VariableId, after.vars[id]?.map (Snapshot.untimed ∘ Variable.snapshot) =
      before.vars[id]?.map (Snapshot.untimed ∘ Variable.snapshot)) (ids : List VariableId) :
    (after.snapshots ids).map Snapshot.untimed = (before.snapshots ids).map Snapshot.untimed := by
  unfold State.snapshots
  rw [List.map_filterMap, List.map_filterMap]
  simp only [Option.map_map, h]

/-- A variable that looks the same, but for its time, makes no difference to units. -/
theorem indistinct_setVariable {L : Script.Language} {limits : Script.Limits} {s : State C}
    {id : VariableId} {w : Variable} (hv : s.vars[id]? = some v)
    (hsource : DataSource.ofVariable w = DataSource.ofVariable v)
    (hsnapshot : w.snapshot.untimed = v.snapshot.untimed) :
    State.Indistinct L limits s (s.setVariable id w) := by
  have hviews : ∀ {α : Type} (view : Variable → α), view w = view v → ∀ other : VariableId,
      (s.setVariable id w).vars[other]?.map view = s.vars[other]?.map view := by
    intro α view hview other
    by_cases hother : other = id
    · subst hother
      have hset : (s.setVariable other w).vars[other]? = some w :=
        List.getElem?_set_self (List.getElem?_eq_some_iff.mp hv).1
      rw [hset, hv, Option.map_some, Option.map_some, hview]
    · have hset : (s.setVariable id w).vars[other]? = s.vars[other]? :=
        List.getElem?_set_ne (Ne.symm hother)
      rw [hset]
  have huntimed := untimed_snapshots_congr (hviews (Snapshot.untimed ∘ Variable.snapshot) hsnapshot)
  exact ⟨supplied_congr (hviews _ hsource),
    fun stage unit => stage.runRule_of_untimed unit (huntimed unit.inputs),
    fun stage unit => stage.runScript_of_untimed unit (huntimed unit.inputs)⟩

/-- What an unreported sample does to a variable with a value. -/
structure Unreported (v : Variable) (value : Value) (sample : Sample) : Prop where
  /-- The value before the sample. -/
  present : v.value = some value
  /-- The integer view stays the same. -/
  integer : (v.apply sample).1.snapshot.integer = v.snapshot.integer
  /-- The code of the severity stays the same. -/
  severity : (v.apply sample).1.snapshot.severity.code = v.snapshot.severity.code
  /-- The numeric view stays the same unless it becomes the other zero. -/
  number : (v.apply sample).1.snapshot.number = v.snapshot.number ↔
    ¬OppositeZeros value.toNumber sample.value.toNumber
  /-- The text view stays the same unless a zero becomes the other one. -/
  text : (v.apply sample).1.snapshot.text = v.snapshot.text ↔ ¬value.FlipsZero sample.value
  /-- So does the value that scripts receive. -/
  datum : Script.valueDatum (v.apply sample).1.snapshot = Script.valueDatum v.snapshot ↔
    ¬value.FlipsZero sample.value
  /-- So does what formulas receive. -/
  source : DataSource.ofVariable (v.apply sample).1 = DataSource.ofVariable v ↔
    ¬value.FlipsZero sample.value
  /-- And unless a zero becomes the other one, units do the same afterwards. -/
  units : ¬value.FlipsZero sample.value →
    ∀ (C : FormulaCompiler) (L : Script.Language) (limits : Script.Limits) (s : State C)
      (id : VariableId), s.vars[id]? = some v →
        State.Indistinct L limits s (s.apply id sample).1

/-- A sample that a variable does not report is invisible but for the signs
of zeros. -/
theorem unreported_sample (h : (v.apply sample).2 = false) :
    ∃ value, Unreported v value sample := by
  obtain ⟨⟨value, hvalue, hbeq⟩, hseverity⟩ := Variable.apply_eq_false_iff.mp h
  have hsame : value = sample.value ↔ ¬value.FlipsZero sample.value := Value.eq_iff_of_beq hbeq
  have hnumber : v.snapshot.number = value.toNumber := by
    unfold Snapshot.number Variable.snapshot
    rw [hvalue]
  have hinteger : v.snapshot.integer = value.toInteger := by
    unfold Snapshot.integer Variable.snapshot
    rw [hvalue]
  have htext : v.snapshot.text = value.toText v.precision := by
    unfold Snapshot.text Variable.snapshot
    rw [hvalue]
  have hdatum : Script.valueDatum v.snapshot = Script.Datum.ofValue value := by
    unfold Script.valueDatum Variable.snapshot
    rw [hvalue]
  have hsource : DataSource.ofVariable v = ⟨some value, v.severity, true⟩ := by
    unfold DataSource.ofVariable
    rw [hvalue]
  have hsource' : DataSource.ofVariable (v.apply sample).1 =
      ⟨some sample.value, v.severity, true⟩ := by
    rw [hseverity]
    rfl
  have hsources : DataSource.ofVariable (v.apply sample).1 = DataSource.ofVariable v ↔
      value = sample.value := by
    rw [hsource, hsource']
    exact ⟨fun heq => (Option.some.inj (congrArg DataSource.value heq)).symm,
      fun heq => by rw [heq]⟩
  refine ⟨value, hvalue, ?_, ?_, ?_, ?_, ?_, hsources.trans hsame, ?_⟩
  · exact (Value.toInteger_eq_of_beq hbeq).symm.trans hinteger.symm
  · exact congrArg Severity.code hseverity.symm
  · rw [hnumber]
    rcases Value.overlooked_toNumber hbeq with heq | hzeros
    · exact iff_of_true heq.symm fun hzeros => hzeros.ne heq
    · exact iff_of_false (Ne.symm hzeros.ne) (not_not_intro hzeros)
  · rw [htext]
    exact eq_comm.trans ((Value.toText_eq_iff_of_beq hbeq v.precision).trans hsame)
  · rw [hdatum]
    exact eq_comm.trans (Value.ofValue_inj.trans hsame)
  · intro hkept C L limits s id hv
    have heq : value = sample.value := hsame.mpr hkept
    have hafter : (s.apply id sample).1 = s.setVariable id (v.apply sample).1 := by
      unfold State.apply
      rw [hv]
    rw [hafter]
    refine indistinct_setVariable hv (hsources.mpr heq) ?_
    unfold Snapshot.untimed Variable.snapshot
    rw [hvalue, heq, hseverity]
    rfl

/-- A zero that is replaced by the other one is not reported. -/
theorem unreported_sample_zero :
    let v : Variable :=
      { name := "loc://x", kind := .localVariable none, value := some (.number 0.0) }
    let sample : Sample := { value := .number (-0.0), time := 0, severity := .undefined }
    (v.apply sample).2 = false ∧ ∃ value, Unreported v value sample := by
  intro v sample
  have h : (v.apply sample).2 = false := by decide +kernel
  exact ⟨h, unreported_sample h⟩

/-- A number and its reciprocal. -/
def reciprocalRun : List Operation :=
  [.create "loc://x(0)", .create "=1.0/'loc://x'", .tick 0 0]

/-- The other zero. -/
def otherZero : Sample := { value := .number (-0.0), time := 1000 }

/-- The result of a formula with the present states of its parameters. -/
def State.result {C : FormulaCompiler} (s : State C) (unit : FormulaUnit C) :
    Outcome (Except Failure Value) :=
  Prod.fst <$> C.execute (s.supplied unit)

/-- A variable does not report that its zero becomes the other one, although its
number, its text and its datum change. A formula with its reciprocal would
have another result, but the next tick leaves the old one in its variable. -/
theorem other_zero_unreported : ∃ answers s answers' s' v unit,
    (bareStage []).run reciprocalRun = .done (answers, s) ∧
      s.run [.setValue "loc://x" otherZero.value, .tick 1000 0] = .done (answers', s') ∧
      s.engine.state.vars[0]? = some v ∧ s.engine.state.formulas[0]? = some unit ∧
      (v.apply otherZero).2 = false ∧
      (v.apply otherZero).1.snapshot.number ≠ v.snapshot.number ∧
      (v.apply otherZero).1.snapshot.text ≠ v.snapshot.text ∧
      Script.valueDatum (v.apply otherZero).1.snapshot ≠ Script.valueDatum v.snapshot ∧
      s.engine.state.result unit = .done (.ok (.number (1.0 / 0.0))) ∧
      (s.engine.state.apply 0 otherZero).1.result unit = .done (.ok (.number (1.0 / -0.0))) ∧
      (1.0 / 0.0 : Float) ≠ 1.0 / -0.0 ∧
      s'.engine.value? "loc://x" = some (.number (-0.0)) ∧
      s'.engine.value? "=1.0/'loc://x'" = some (.number (1.0 / 0.0)) := by
  obtain ⟨⟨answers, s⟩, hrun, hcheck⟩ := done_of_any
    (fun reached : List Answer × BundledStage =>
      (reached.2.engine.state.vars[0]?.any fun v : Variable =>
        decide (v.value = some (.number 0.0) ∧ (v.apply otherZero).2 = false ∧
          (v.apply otherZero).1.snapshot.number ≠ v.snapshot.number ∧
          (v.apply otherZero).1.snapshot.text ≠ v.snapshot.text)) &&
      (reached.2.engine.state.formulas[0]?.any fun unit =>
        decide (reached.2.engine.state.result unit = .done (.ok (.number (1.0 / 0.0))) ∧
          (reached.2.engine.state.apply 0 otherZero).1.result unit =
            .done (.ok (.number (1.0 / -0.0))))) &&
      (reached.2.run [.setValue "loc://x" otherZero.value, .tick 1000 0]).value?.any
        fun ended : List Answer × BundledStage =>
          decide (ended.2.engine.value? "loc://x" = some (.number (-0.0)) ∧
            ended.2.engine.value? "=1.0/'loc://x'" = some (.number (1.0 / 0.0))))
    (show ((bareStage []).run reciprocalRun).value?.any _ = true by decide +kernel)
  obtain ⟨hcheck, hended⟩ := Bool.and_eq_true_iff.mp hcheck
  obtain ⟨hvariable, hformula⟩ := Bool.and_eq_true_iff.mp hcheck
  obtain ⟨v, hv, hviews⟩ := (Option.any_eq_true _ _).mp hvariable
  obtain ⟨unit, hunit, hresults⟩ := (Option.any_eq_true _ _).mp hformula
  obtain ⟨⟨answers', s'⟩, hrun', hvalues⟩ := done_of_any _ hended
  obtain ⟨hvalue, hunreported, hnumber, htext⟩ := of_decide_eq_true hviews
  obtain ⟨hbefore, hafter⟩ := of_decide_eq_true hresults
  have hdatum : Script.valueDatum (v.apply otherZero).1.snapshot ≠
      Script.valueDatum v.snapshot := by
    unfold Script.valueDatum Variable.snapshot
    rw [hvalue]
    intro heq
    exact OppositeZeros.ne (.inr ⟨rfl, rfl⟩) (Value.number.inj (Value.ofValue_inj.mp heq))
  exact ⟨answers, s, answers', s', v, unit, hrun, hrun', hv, hunit, hunreported, hnumber, htext,
    hdatum, hbefore, hafter, by decide +kernel, of_decide_eq_true hvalues⟩

end Engine

end ProcessDisplay
