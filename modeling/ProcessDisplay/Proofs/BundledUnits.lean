import Mathlib.Data.List.Forall2
import Mathlib.Tactic.Common
import ProcessDisplay.Proofs.FailingComputations
import ProcessDisplay.Proofs.FormulaCurrency
import ProcessDisplay.Proofs.HostActions
import ProcessDisplay.Proofs.LanguageLaws
import ProcessDisplay.Proofs.TickReturns

/-!
# Units of the bundled languages

Formulas, rules and scripts of a display are compiled in its language. If the
evaluations of the language return, each of them returns whatever its inputs
are, with a result or with a failure, unless it clamps a number between bounds
that are not in order.
-/

namespace ProcessDisplay

open Script

/-- Every evaluation of an expression returns and clamps nothing between bounds
that are not in order. -/
def Script.Expression.IsSafe (e : Script.Expression) : Prop :=
  ∀ scope, (e.course scope).Holds (fun name arguments => ¬Crossed name arguments) False
    fun _ => True

namespace Script.Expression

/-- An expression that was compiled returns if it crosses no bounds. -/
theorem isSafe_of_compile {L : Language} {limits : Limits} (hreturns : L.ReturnsErrors limits)
    {source : String} {e : Script.Expression} (h : L.expression limits source = .ok e)
    (havoids : ∀ scope, (e.course scope).Avoids Crossed) : e.IsSafe :=
  fun scope => (hreturns.expressions source e h scope).avoiding (havoids scope)

/-- The evaluation of a safe expression returns. -/
theorem IsSafe.evaluate_eq_done {e : Script.Expression} (h : e.IsSafe) (scope : List Slot) :
    ∃ result, (e.evaluate scope).1 = .done result := by
  obtain ⟨⟨⟨result, after⟩, state⟩, hrun⟩ :=
    (h scope).exists_run (fun _ _ _ => expressionHost_answers) ()
  exact ⟨result, by rw [evaluate, hrun]⟩

end Script.Expression

/-- The execution of a formula with a safe expression returns. -/
theorem Formula.ExpressionFormula.execute_eq_done {f : Formula.ExpressionFormula}
    (h : f.expression.IsSafe) : ∃ result, f.execute = .done result := by
  unfold execute
  split
  · exact ⟨_, rfl⟩
  · next scope _ =>
    obtain ⟨result, hresult⟩ := h.evaluate_eq_done scope
    rw [hresult, Outcome.done_bind]
    cases result with
    | error fault => exact ⟨_, rfl⟩
    | ok d =>
      dsimp only
      split <;> exact ⟨_, rfl⟩

namespace Rule

/-- The expressions of an output. -/
def Action.expressions {ε : Type} : Action ε → List ε
  | .literal _ => []
  | .expression e => [e]

/-- The expressions of a branch. -/
def Branch.expressions {ε : Type} (b : Branch ε) : List ε := b.condition :: b.action.expressions

/-- The expressions of a rule. -/
def expressions {ε : Type} (r : Rule ε) : List ε := r.branches.flatMap Branch.expressions

/-- The evaluation of an expression of a rule returns. -/
theorem expressionEvaluation_eq_done {e : Script.Expression} (h : e.IsSafe) (scope : List Slot) :
    ∃ result, (expressionEvaluation scope e).1 = .done result := by
  obtain ⟨result, hresult⟩ := h.evaluate_eq_done scope
  refine ⟨result.map Datum.value?, ?_⟩
  unfold expressionEvaluation
  dsimp only
  rw [hresult]
  rfl

/-- A result of an expression that returned is a result for its rule. -/
theorem resultOf_eq_done (rule : String) (result : Except Fault (Option Value)) :
    ∃ found, resultOf rule (.done result) = .done found := by
  unfold resultOf
  cases result <;> exact ⟨_, rfl⟩

/-- The output of a branch returns. -/
theorem Action.value_eq_done {action : Action Script.Expression}
    (h : ∀ e ∈ action.expressions, e.IsSafe) (rule : String) (scope : List Slot) :
    ∃ result, action.value expressionEvaluation rule scope = .done result := by
  cases action with
  | literal value => exact ⟨_, rfl⟩
  | expression e =>
    obtain ⟨result, hresult⟩ := expressionEvaluation_eq_done (h e List.mem_cons_self) scope
    obtain ⟨found, hfound⟩ := resultOf_eq_done rule result
    unfold Action.value
    dsimp only
    rw [hresult, hfound, Outcome.done_bind]
    split <;> exact ⟨_, rfl⟩

/-- The selection of a branch returns. -/
theorem select_eq_done {branches : List (Branch Script.Expression)}
    (h : ∀ b ∈ branches, ∀ e ∈ b.expressions, e.IsSafe) (rule : String) (scope : List Slot) :
    ∃ result, select expressionEvaluation rule scope branches = .done result := by
  induction branches generalizing scope with
  | nil => exact ⟨_, rfl⟩
  | cons branch rest ih =>
    have hbranch := h branch List.mem_cons_self
    have hrest := ih fun b hb => h b (List.mem_cons_of_mem _ hb)
    obtain ⟨result, hresult⟩ :=
      expressionEvaluation_eq_done (hbranch branch.condition List.mem_cons_self) scope
    obtain ⟨found, hfound⟩ := resultOf_eq_done rule result
    unfold select
    dsimp only
    rw [hresult, hfound, Outcome.done_bind]
    cases found with
    | error failure => exact ⟨_, rfl⟩
    | ok value =>
      dsimp only
      split
      · obtain ⟨output, houtput⟩ := Action.value_eq_done
          (fun e he => hbranch e (List.mem_cons_of_mem _ he)) rule
          (expressionEvaluation scope branch.condition).2
        rw [houtput, Outcome.done_bind]
        cases output <;> exact ⟨_, rfl⟩
      · exact hrest _

/-- The execution of a rule with safe expressions returns. -/
theorem execute_eq_done {r : Rule Script.Expression} (h : ∀ e ∈ r.expressions, e.IsSafe)
    (snapshots : List Snapshot) (w : Widget) :
    ∃ result, r.execute expressionEvaluation snapshots w = .done result := by
  have hbranches : ∀ b ∈ r.branches, ∀ e ∈ b.expressions, e.IsSafe := fun b hb e he =>
    h e (List.mem_flatMap.mpr ⟨b, hb, he⟩)
  obtain ⟨result, hresult⟩ := select_eq_done hbranches r.name (r.bind snapshots)
  unfold execute evaluate
  rw [hresult, Outcome.done_bind]
  cases result with
  | error failure => exact ⟨_, rfl⟩
  | ok selected =>
    dsimp only
    split <;> exact ⟨_, rfl⟩

/-- An expression of a compiled source was read. -/
theorem parse_of_compileSource {ε : Type} {parse : String → Except Problem ε} {rule source : String}
    {e : ε} (h : compileSource parse rule source = .ok e) : parse source = .ok e := by
  unfold compileSource at h
  split at h
  · next found hfound =>
    obtain rfl := Except.ok.inj h
    exact hfound
  · cases h

/-- The source texts of the expressions of an output. -/
def sourcesOf (d : RuleDeclaration) (o : RuleOutput) : List String :=
  o.condition :: if d.outputsAreExpressions then [o.output] else []

/-- The source texts of the expressions of a declaration. -/
def sources (d : RuleDeclaration) : List String := d.outputs.flatMap (sourcesOf d)

/-- The expressions of a compiled branch are those of its sources. -/
theorem parses_of_compileBranch {ε : Type} {parse : String → Except Problem ε}
    {d : RuleDeclaration} {kind : PropertyKind} {o : RuleOutput} {b : Branch ε}
    (h : compileBranch parse d kind o = .ok b) :
    List.Forall₂ (fun source e => parse source = .ok e) (sourcesOf d o) b.expressions := by
  obtain ⟨condition, hcondition, h⟩ := exceptBind_eq_ok_iff.mp h
  obtain ⟨action, haction, h⟩ := exceptBind_eq_ok_iff.mp h
  obtain rfl := Except.ok.inj h
  refine .cons (parse_of_compileSource hcondition) ?_
  unfold compileOutput at haction
  split at haction
  · next hexpressions =>
    rw [if_pos hexpressions]
    cases hsource : compileSource parse d.name o.output with
    | error failure =>
      rw [hsource] at haction
      cases haction
    | ok found =>
      rw [hsource] at haction
      obtain rfl := Except.ok.inj haction
      exact .cons (parse_of_compileSource hsource) .nil
  · next hexpressions =>
    rw [if_neg hexpressions]
    split at haction
    · obtain rfl := Except.ok.inj haction
      exact .nil
    · obtain rfl := Except.ok.inj haction
      exact .nil

/-- The results of a list of readings are those of its items. -/
theorem forall₂_of_mapM {α β ε : Type} {read : α → Except ε β} {items : List α}
    {found : List β} (h : items.mapM read = .ok found) :
    List.Forall₂ (fun a b => read a = .ok b) items found := by
  induction items generalizing found with
  | nil =>
    obtain rfl := Except.ok.inj h
    exact .nil
  | cons first rest ih =>
    rw [List.mapM_cons] at h
    obtain ⟨result, hfirst, h⟩ := exceptBind_eq_ok_iff.mp h
    obtain ⟨more, hrest, h⟩ := exceptBind_eq_ok_iff.mp h
    obtain rfl := Except.ok.inj h
    exact .cons hfirst (ih hrest)

/-- What a compiled rule is made of. -/
theorem compile_spec {ε : Type} {parse : String → Except Problem ε} {d : RuleDeclaration}
    {w : Widget} {r : Rule ε} (h : compile parse d w = .ok r) :
    r.name = d.name ∧ r.accessors = scanAll d ∧ r.inputCount = d.inputs.length ∧
      checkInputs d (scanAll d) = .ok () ∧
      List.Forall₂ (fun source e => parse source = .ok e) (sources d) r.expressions := by
  unfold compile at h
  split at h
  · cases h
  · next kind _ =>
    obtain ⟨checked, hchecked, h⟩ := exceptBind_eq_ok_iff.mp h
    obtain ⟨branches, hbranches, h⟩ := exceptBind_eq_ok_iff.mp h
    obtain rfl := Except.ok.inj h
    refine ⟨rfl, rfl, rfl, hchecked, ?_⟩
    exact List.rel_flatMap (forall₂_of_mapM hbranches) fun _ _ => parses_of_compileBranch

/-- The expressions of a compiled rule were read. -/
theorem parse_of_compile {ε : Type} {parse : String → Except Problem ε} {d : RuleDeclaration}
    {w : Widget} {r : Rule ε} (h : compile parse d w = .ok r) {e : ε} (he : e ∈ r.expressions) :
    ∃ source ∈ sources d, parse source = .ok e := by
  obtain ⟨-, -, -, -, hparses⟩ := compile_spec h
  obtain ⟨k, hk, rfl⟩ := List.getElem_of_mem he
  have hsource : k < (sources d).length := by rw [hparses.length_eq]; exact hk
  exact ⟨(sources d)[k], List.getElem_mem hsource, hparses.get hsource hk⟩

end Rule

namespace Script

variable {L : Language} {limits : Limits}

/-- Every script that is remembered is that of its source. -/
def Cache.IsCompiled (limits : Limits) (cache : Cache L) : Prop :=
  ∀ entry ∈ cache.entries, Cache.compile L limits entry.1 = .ok entry.2

/-- A script that is found is that of its source. -/
theorem Cache.IsCompiled.find? {cache : Cache L} (h : cache.IsCompiled limits)
    {source : String} {code : Code L.Modules} (hfound : cache.find? source = some code) :
    Cache.compile L limits source = .ok code := by
  obtain ⟨before, behind, hentries, -⟩ := List.lookup_eq_some_iff.mp hfound
  exact h (source, code) (by rw [hentries]; simp)

/-- What is found or compiled is the script of the source, and it is remembered
as such. -/
theorem Cache.IsCompiled.get {cache : Cache L} (h : cache.IsCompiled limits) (source : String) :
    (cache.get limits source).1 = Cache.compile L limits source ∧
      (cache.get limits source).2.IsCompiled limits := by
  unfold Cache.get
  cases hfound : cache.find? source with
  | some code => exact ⟨(h.find? hfound).symm, h⟩
  | none =>
    cases hcompile : Cache.compile L limits source with
    | error failure => exact ⟨rfl, h⟩
    | ok code => exact ⟨rfl, List.forall_mem_cons.mpr ⟨hcompile, h⟩⟩

/-- A script that was compiled is one of the language. -/
theorem script_of_compile {source : String} {code : Code L.Modules}
    (h : Cache.compile L limits source = .ok code) : L.script limits source = .ok code := by
  unfold Cache.compile at h
  split at h
  · next found hfound =>
    obtain rfl := Except.ok.inj h
    exact hfound
  · cases h

/-- Between runs the scripts that are remembered are those of their sources,
and the record is that of no script. -/
structure Memory.IsSettled (limits : Limits) (memory : Memory L) : Prop where
  /-- The remembered scripts. -/
  cache : memory.cache.IsCompiled limits
  /-- The record. -/
  record : memory.record = {}

/-- The script of a body is the one that compiling it gives, whatever was
compiled before, and nothing else of the memory changes. -/
theorem Memory.IsSettled.code {memory : Memory L} (h : memory.IsSettled limits) (body : String) :
    (memory.code limits body).1 = Cache.compile L limits body ∧
      (memory.code limits body).2.IsSettled limits ∧
      (memory.code limits body).2.modules = memory.modules := by
  obtain ⟨hresult, hafter⟩ := h.cache.get body
  exact ⟨hresult, ⟨hafter, h.record⟩, rfl⟩

/-- A run of a script ends with its result, with what the surroundings collect
of its record, and with the scripts that are remembered. -/
theorem runCode_eq_done_iff {memory : Memory L} {code : Code L.Modules} {context : Context}
    {ran : (Except Failure Unit × Context) × Memory L} :
    runCode memory code context = .done ran ↔
      ∃ result modules record,
        (code.course memory.modules).run scriptHost (.start context) =
          .done ((result, modules), record) ∧
        (((result.map fun _ => ()).mapError fun fault => .script (.stopped fault),
          Context.collect { context with snapshots := [] } record),
          { memory with modules, record := {} }) = ran := by
  unfold runCode Memory.enter Memory.evaluate
  dsimp only
  cases (code.course memory.modules).run scriptHost (RunRecord.start context) with
  | crash => exact iff_of_false (fun h => nomatch h) (fun ⟨_, _, _, h, _⟩ => nomatch h)
  | done ended =>
    obtain ⟨⟨result, modules⟩, record⟩ := ended
    cases result with
    | ok d => simp [Memory.leave, Except.map, Except.mapError]
    | error fault => simp [Memory.leave, Except.map, Except.mapError]

/-- A run of a body fails for want of a script, or it is the run of its script. -/
theorem runBody_eq_done_iff {memory : Memory L} {body : String} {context : Context}
    {ran : (Except Failure Unit × Context) × Memory L} :
    runBody limits memory body context = .done ran ↔
      (∃ failure, (memory.code limits body).1 = .error failure ∧
        ((.error failure, context), (memory.code limits body).2) = ran) ∨
      ∃ code, (memory.code limits body).1 = .ok code ∧
        runCode (memory.code limits body).2 code context = .done ran := by
  unfold runBody
  dsimp only
  cases (memory.code limits body).1 with
  | error failure => simp
  | ok code => simp

/-- A run of a script settles the memory again. -/
theorem isSettled_of_runCode {memory : Memory L} {code : Code L.Modules} {context : Context}
    {ran : (Except Failure Unit × Context) × Memory L} (h : memory.IsSettled limits)
    (hrun : runCode memory code context = .done ran) : ran.2.IsSettled limits := by
  obtain ⟨result, modules, record, -, rfl⟩ := runCode_eq_done_iff.mp hrun
  exact ⟨h.cache, rfl⟩

/-- The bundled interpreter settles its memory after every check and run. -/
theorem keeps_bundled (L : Language) (limits : Limits) :
    (ScriptInterpreter.bundled L limits).Keeps (Memory.IsSettled limits) where
  initial :=
    { cache := fun _ h => nomatch h
      record := rfl }
  validate memory body h := (h.code body).2.1
  run := by
    intro memory body context ran h hrun
    obtain ⟨-, hafter, -⟩ := Memory.IsSettled.code h body
    rcases runBody_eq_done_iff.mp hrun with ⟨failure, -, rfl⟩ | ⟨code, -, hrun⟩
    · exact hafter
    · exact isSettled_of_runCode hafter hrun

/-- The run of a body returns if its script crosses no bounds. -/
theorem runBody_eq_done (hreturns : L.ReturnsErrors limits) {memory : Memory L}
    (hmemory : memory.IsSettled limits) {body : String}
    (havoids : ∀ code, L.script limits body = .ok code →
      ∀ modules, (code.course modules).Avoids Crossed)
    (context : Context) : ∃ ran, runBody limits memory body context = .done ran := by
  obtain ⟨hresult, -, -⟩ := hmemory.code body
  cases hcompile : Cache.compile L limits body with
  | error failure =>
    exact ⟨_, runBody_eq_done_iff.mpr (.inl ⟨failure, hresult.trans hcompile, rfl⟩)⟩
  | ok code =>
    have hscript := script_of_compile hcompile
    have hholds := (hreturns.scripts body code hscript memory.modules).avoiding
      (havoids code hscript memory.modules)
    obtain ⟨⟨⟨result, modules⟩, record⟩, hran⟩ :=
      hholds.exists_run (fun _ _ _ => scriptHost_answers) (RunRecord.start context)
    exact ⟨_, runBody_eq_done_iff.mpr (.inr ⟨code, hresult.trans hcompile,
      runCode_eq_done_iff.mpr ⟨result, modules, record, hran, rfl⟩⟩)⟩

end Script

end ProcessDisplay
