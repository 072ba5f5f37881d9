import Mathlib.Data.List.Nodup
import Mathlib.Tactic.Common
import ProcessDisplay.Proofs.FailingComputations
import ProcessDisplay.Proofs.FormulaContract
import ProcessDisplay.Proofs.SteadyRuns
import ProcessDisplay.Script.Standard

/-!
# The contract of the bundled compiler

A formula of the bundled compiler keeps its source, its references and its
expression through every supply and execution; only the data of its
parameters change. It is faithful if its executions return results that
agree for data that agree, which a formula of one reference does.
-/

namespace ProcessDisplay

namespace Formula

/-- A name is registered once. -/
theorem register_nodup {names : List String} (h : names.Nodup) (name : String) :
    (register names name).1.Nodup := by
  unfold register
  cases hfound : names.idxOf? name with
  | some index => exact h
  | none =>
    have hnew : name ∉ names := List.idxOf?_eq_none_iff.mp hfound
    change (names ++ [name]).Nodup
    rw [← List.concat_eq_append]
    exact h.concat hnew

/-- The names found by what follows are those found with something before it. -/
theorem nodup_of_map {found : List String} {out : List Char}
    {following : Except FormulaFault (List Char × List String)}
    {add : List Char × List String → List Char × List String}
    (h : following.map add = .ok (out, found)) (hadd : ∀ pair, (add pair).2 = pair.2)
    (hfollowing : ∀ out names, following = .ok (out, names) → names.Nodup) : found.Nodup := by
  cases following with
  | error fault => cases h
  | ok pair =>
    have hfound : found = pair.2 := by
      rw [← hadd pair, Except.ok.inj h]
    rw [hfound]
    exact hfollowing pair.1 pair.2 rfl

/-- The references of a formula have different names. -/
theorem replaceFrom_nodup {source : String} {names found : List String} {region : Region}
    {chars out : List Char} (h : names.Nodup)
    (hdone : replaceFrom source names region chars = .ok (out, found)) : found.Nodup := by
  induction chars generalizing names region out found with
  | nil =>
    cases region with
    | expression =>
      obtain ⟨-, rfl⟩ : [] = out ∧ names = found := by simpa [replaceFrom] using hdone
      exact h
    | text isProtected =>
      obtain ⟨-, rfl⟩ : [] = out ∧ names = found := by simpa [replaceFrom] using hdone
      exact h
    | reference read => cases hdone
  | cons c rest ih =>
    cases region with
    | expression =>
      rw [replaceFrom] at hdone
      split at hdone
      · exact ih h hdone
      · exact nodup_of_map hdone (fun _ => rfl) fun _ _ hrest => ih h hrest
    | text isProtected =>
      exact nodup_of_map hdone (fun _ => rfl) fun _ _ hrest => ih h hrest
    | reference read =>
      rw [replaceFrom] at hdone
      split at hdone
      · dsimp only at hdone
        split at hdone
        · cases hdone
        · have hnodup := register_nodup h (String.ofList (Text.trimmed read.reverse))
          exact nodup_of_map hdone (fun _ => rfl) fun _ _ hrest => ih hnodup hrest
      · exact ih h hdone

namespace ExpressionFormula

/-- A formula has data for each of its parameters, which have different names. -/
structure Filled (f : ExpressionFormula) : Prop where
  /-- The names differ. -/
  nodup : f.parameters.Nodup
  /-- There are data for every name. -/
  length : f.inputs.length = f.parameters.length

/-- A compiled formula has the names that its source quotes, the expression of
what replaces them, and no data yet. -/
theorem exists_of_compile {L : Script.Language} {limits : Script.Limits} {source : String}
    {f : ExpressionFormula} (h : compile L limits source = .ok f) :
    ∃ text, replaceReferences source = .ok (text, f.parameters) ∧
      L.expression limits text = .ok f.expression ∧ f.inputs = f.parameters.map fun _ => {} := by
  unfold compile at h
  split at h
  · cases h
  · next text names hreplace =>
    split at h
    · cases h
    · next expression hexpression =>
      obtain rfl := Except.ok.inj h
      exact ⟨text, hreplace, hexpression, rfl⟩

/-- A compiled formula has a place for the data of every parameter. -/
theorem filled_of_compile {L : Script.Language} {limits : Script.Limits} {source : String}
    {f : ExpressionFormula} (h : compile L limits source = .ok f) : f.Filled := by
  obtain ⟨text, hreplace, -, hinputs⟩ := exists_of_compile h
  obtain ⟨⟨out, names⟩, hfrom, hpair⟩ := exceptMap_eq_ok_iff.mp hreplace
  obtain ⟨-, hnames⟩ := Prod.mk.inj hpair
  constructor
  · rw [← hnames]
    exact replaceFrom_nodup List.nodup_nil hfrom
  · rw [hinputs, List.length_map]

/-- A supply changes the data of one parameter at most. -/
theorem supply_eq (f : ExpressionFormula) (name : String) (data : DataSource) :
    f.supply name data = { f with inputs := (f.supply name data).inputs } ∧
      (f.supply name data).inputs.length = f.inputs.length := by
  unfold supply
  split
  · exact ⟨rfl, List.length_set⟩
  · exact ⟨rfl, rfl⟩

/-- The data of a parameter go to its place among the parameters. -/
theorem supply_at {f : ExpressionFormula} (hnodup : f.parameters.Nodup) {before after : List String}
    {name : String} (hparameters : f.parameters = before ++ name :: after) (data : DataSource) :
    f.supply name data = { f with inputs := f.inputs.set before.length data } := by
  have hindex : f.parameters.idxOf? name = some before.length := by
    rw [hparameters] at hnodup ⊢
    clear hparameters
    induction before with
    | nil => simp [List.idxOf?_cons]
    | cons first rest ih =>
      rw [List.cons_append, List.nodup_cons] at hnodup
      have hne : first ≠ name := by
        rintro rfl
        exact hnodup.1 (List.mem_append_right _ List.mem_cons_self)
      rw [List.cons_append, List.idxOf?_cons, ih hnodup.2]
      simp [hne]
  rw [supply, hindex]

end ExpressionFormula

end Formula

open Formula ExpressionFormula

namespace FormulaCompiler

variable {L : Script.Language} {limits : Script.Limits} {nesting : Nat}

/-- Supplies and executions change nothing but the data of the parameters. -/
theorem derives_expressions {origin f : ExpressionFormula}
    (h : (expressions L limits nesting).Derives origin f) :
    f = { origin with inputs := f.inputs } ∧ f.inputs.length = origin.inputs.length := by
  refine h.preserves (P := fun g : ExpressionFormula =>
    g = { origin with inputs := g.inputs } ∧ g.inputs.length = origin.inputs.length)
    ⟨rfl, rfl⟩ ?_ ?_
  · intro g name data hg
    obtain ⟨hsame, hlength⟩ := ExpressionFormula.supply_eq g name data
    refine ⟨?_, hlength.trans hg.2⟩
    change g.supply name data = { origin with inputs := (g.supply name data).inputs }
    rw [hsame, hg.1]
  · intro g g' result hg run
    obtain ⟨result', -, hdone⟩ := Outcome.bind_eq_done_iff.mp run
    obtain ⟨-, rfl⟩ := Prod.mk.inj (Outcome.done.inj hdone)
    exact hg

/-- A formula whose parameters are all supplied has these data, in order. -/
theorem supplyAll_expressions {f : ExpressionFormula} (h : f.Filled)
    (data : String → DataSource) :
    (expressions L limits nesting).supplyAll f data =
      { f with inputs := f.parameters.map data } := by
  -- the induction is on the names still to come, after those that have their data
  have hall : ∀ (after before : List String) (inputs : List DataSource),
      f.parameters = before ++ after → inputs.length = after.length →
      after.foldl (fun g name => ExpressionFormula.supply g name (data name))
        { f with inputs := before.map data ++ inputs } =
          { f with inputs := (before ++ after).map data } := by
    intro after
    induction after with
    | nil =>
      intro before inputs hparameters hlength
      rw [List.length_eq_zero_iff.mp hlength]
      simp
    | cons name rest ih =>
      intro before inputs hparameters hlength
      cases inputs with
      | nil => cases hlength
      | cons first inputs =>
        rw [List.foldl_cons]
        have hsupply : ExpressionFormula.supply
            { f with inputs := before.map data ++ first :: inputs } name (data name) =
              { f with inputs := (before ++ [name]).map data ++ inputs } := by
          refine (ExpressionFormula.supply_at
            (f := { f with inputs := before.map data ++ first :: inputs }) h.nodup hparameters
            (data name)).trans ?_
          have hset : (before.map data ++ first :: inputs).set before.length (data name) =
              (before ++ [name]).map data ++ inputs := by
            rw [List.set_append_right _ _ (by simp)]
            simp
          rw [hset]
        rw [hsupply, ih (before ++ [name]) inputs (by simp [hparameters])
          (Nat.succ.inj hlength)]
        simp
  exact hall f.parameters [] f.inputs rfl h.length

/-- A compiled formula is faithful if its executions return results that
agree for data that agree. -/
theorem faithful_expressions {source : String} {origin : ExpressionFormula}
    (hcompiled : (expressions L limits nesting).compile source = .ok origin)
    (hexecute : ∀ data data' : String → DataSource,
      (∀ name ∈ origin.parameters, (data name).isReady = true) →
      (∀ name ∈ origin.parameters, (data name).Agrees (data' name)) →
        ExecutionsAgree
          ((expressions L limits nesting).execute
            { origin with inputs := origin.parameters.map data })
          ((expressions L limits nesting).execute
            { origin with inputs := origin.parameters.map data' })) :
    (expressions L limits nesting).Faithful origin := by
  have hfilled : origin.Filled := ExpressionFormula.filled_of_compile hcompiled
  have hsupplied : ∀ f, (expressions L limits nesting).Derives origin f → ∀ data,
      (expressions L limits nesting).supplyAll f data =
        { origin with inputs := origin.parameters.map data } := by
    intro f hf data
    obtain ⟨hsame, hlength⟩ := derives_expressions hf
    have hparameters : f.parameters = origin.parameters := by rw [hsame]
    have hf : f.Filled := by
      refine ⟨?_, ?_⟩
      · rw [hparameters]
        exact hfilled.nodup
      · rw [hparameters, hlength]
        exact hfilled.length
    rw [supplyAll_expressions hf, hparameters, hsame]
  constructor
  case parameters =>
    intro f hf
    change f.parameters = origin.parameters
    rw [(derives_expressions hf).1]
  case isReady =>
    intro f hf data
    rw [hsupplied f hf data]
    exact List.all_map
  case severity =>
    intro f hf data _
    rw [hsupplied f hf data]
    change Severity.worst ((origin.parameters.map data).map DataSource.severity) = _
    rw [List.map_map]
    rfl
  case execute =>
    intro f g hf hg data data' hready hagree
    rw [hsupplied f hf data, hsupplied g hg data']
    exact hexecute data data' hready hagree

end FormulaCompiler

section References

open Script

/-- A value is back after it was a datum. -/
@[simp] theorem value?_ofValue (v : Value) : (Datum.ofValue v).value? = some v := by
  cases v with
  | number x => rfl
  | bool b => rfl
  | text s => rfl
  | array xs =>
    simp [Datum.ofValue, Datum.value?, Datum.elementNumber, Function.comp_def]

/-- A formula consists of one reference. -/
structure Formula.ExpressionFormula.IsReference (f : ExpressionFormula) : Prop where
  /-- There is one parameter. -/
  parameters : ∃ name, f.parameters = [name]
  /-- The expression has the value of the variable of the reference. -/
  value : ∀ d, (f.expression.evaluate [⟨referenceName 0, false, d⟩]).1 = .done (.ok d)

/-- A formula of one reference has the value of its parameter. -/
theorem Formula.ExpressionFormula.IsReference.execute {f : ExpressionFormula}
    (h : f.IsReference) {data : DataSource} {value : Value} (hvalue : data.value = some value) :
    ExpressionFormula.execute { f with inputs := [data] } = .done (.ok value) := by
  obtain ⟨name, hname⟩ := h.parameters
  have hslots : slots 0 ([name].zip [data]) =
      .ok [⟨referenceName 0, false, Datum.ofValue value⟩] := by
    simp [slots, hvalue, Except.map]
  have hrun := h.value (Datum.ofValue value)
  unfold ExpressionFormula.execute
  simp only [hname, hslots, hrun]
  rw [Outcome.done_bind]
  simp

/-- A formula of one reference is faithful. -/
theorem FormulaCompiler.faithful_reference {L : Language} {limits : Script.Limits} {nesting : Nat}
    {source : String} {origin : ExpressionFormula}
    (hcompiled : (expressions L limits nesting).compile source = .ok origin)
    (h : origin.IsReference) : (expressions L limits nesting).Faithful origin := by
  obtain ⟨name, hname⟩ := h.parameters
  refine faithful_expressions hcompiled ?_
  intro data data' hready hagree
  rw [hname] at hready hagree ⊢
  have hisReady := hready name (by simp)
  have hagrees := (hagree name (by simp)).value
  obtain ⟨value, hvalue⟩ := Option.isSome_iff_exists.mp (Bool.and_eq_true_iff.mp hisReady).2
  obtain ⟨value', hvalue'⟩ : ∃ value', (data' name).value = some value' := by
    rw [← Option.isSome_iff_exists, ← hagrees.isSome_eq, hvalue]
    rfl
  have hexecute : ∀ d v, d.value = some v →
      (expressions L limits nesting).execute
          { origin with parameters := [name], inputs := [d] } =
        .done (.ok v, { origin with parameters := [name], inputs := [d] }) := by
    intro d v hv
    have hdone := h.execute hv
    rw [hname] at hdone
    exact Outcome.bind_eq_done_iff.mpr ⟨_, hdone, rfl⟩
  rw [hvalue, hvalue'] at hagrees
  have hfirst := hexecute _ _ hvalue
  have hsecond := hexecute _ _ hvalue'
  rw [List.map_singleton, List.map_singleton, hfirst, hsecond]
  exact hagrees

/-- The bound of the nesting admits the outermost term. -/
theorem evaluationDepth_pos (limits : Script.Limits) (size : Nat) :
    0 < evaluationDepth limits size := by
  unfold evaluationDepth
  exact Nat.mul_pos (Nat.mul_pos (by decide) (Nat.succ_pos _)) (Nat.succ_pos _)

/-- A single operation is within every limit. -/
theorem exceeds_one (limit : Nat) : exceeds (0 + 1) limit = false := by
  cases limit with
  | zero => rfl
  | succ n => simp [exceeds]

/-- A variable in scope is found. -/
theorem slot_eq {name : String} {m : Machine} {s : Slot}
    (h : m.scope.find? (fun t => t.name = name) = some s) :
    Run.slot name m = .ends (.ok s, m) := by
  have hget : (get : Run Machine) m = .ends (.ok m, m) := rfl
  rw [Run.slot, Run.bind_apply, hget, Course.ends_bind]
  dsimp only [Run.continued]
  rw [h]
  rfl

/-- The name of the innermost variable evaluates to its value. -/
theorem evaluate_name (fuel : Nat) (env : Environment) (s : Slot) (rest : List Slot) :
    evaluate (fuel + 1) env (.name s.name) { scope := s :: rest } =
      .ends (.ok s.value, { scope := s :: rest, operations := 1 }) := by
  have hslot : Run.slot s.name { scope := s :: rest, operations := 1 } =
      .ends (.ok s, { scope := s :: rest, operations := 1 }) := slot_eq (by simp)
  have hcounts : counts (.name s.name) = true := rfl
  rw [evaluate, evaluateWith, if_pos hcounts, Run.bind_apply, Run.charge_apply,
    exceeds_one env.limits.operations, Course.ends_bind]
  change (Run.slot s.name >>= fun found => pure found.value : Run Datum) _ = _
  rw [Run.bind_apply, hslot]
  rfl

/-- Whether a program consists of one name. -/
def Script.Program.isName (name : String) (program : Program) : Bool :=
  match program.statements with
  | [.name found] => found == name
  | _ => false

/-- A program that consists of one name has the value of its variable. -/
theorem Script.Program.evaluate_expression {program : Program} {name : String}
    (h : program.isName name = true) (limits : Script.Limits) (d : Datum) :
    ((program.expression limits).evaluate [⟨name, false, d⟩]).1 = .done (.ok d) := by
  have hstatements : program.statements = [.name name] := by
    unfold isName at h
    split at h
    · next found hfound => rw [hfound, beq_iff_eq.mp h]
    · cases h
  obtain ⟨fuel, hfuel⟩ := Nat.exists_eq_succ_of_ne_zero (Nat.ne_of_gt
    (evaluationDepth_pos limits program.size))
  have hcourse : (program.expression limits).course [⟨name, false, d⟩] =
      .ends (.ok d, [⟨name, false, d⟩]) := by
    unfold Program.expression Program.course
    rw [hstatements, hfuel]
    simp only [Script.sequence]
    rw [evaluate_name fuel _ ⟨name, false, d⟩ []]
    rfl
  rw [Expression.evaluate, hcourse]
  rfl

/-- A formula of the standard language with one quoted name is a reference if
nothing is left of it but the name. -/
theorem FormulaCompiler.isReference_of_compile {limits : Script.Limits} {nesting : Nat}
    {source text name : String} {origin : ExpressionFormula}
    (hcompiled : (expressions .standard limits nesting).compile source = .ok origin)
    (hsource : replaceReferences source = .ok (text, [name]))
    (hprogram : (Program.parseExpression limits text).toOption.any
      (Program.isName (referenceName 0)) = true) : origin.IsReference := by
  obtain ⟨found, hreplaced, hexpression, -⟩ := ExpressionFormula.exists_of_compile hcompiled
  obtain ⟨rfl, hnames⟩ := Prod.mk.inj (Except.ok.inj (hsource.symm.trans hreplaced))
  obtain ⟨program, hparse, hread⟩ := exceptMap_eq_ok_iff.mp hexpression
  rw [hparse] at hprogram
  refine ⟨⟨name, hnames.symm⟩, fun d => ?_⟩
  rw [← hread]
  exact Program.evaluate_expression hprogram limits d

end References

end ProcessDisplay
