import Mathlib.Tactic.Common
import ProcessDisplay.Proofs.FormulaSegments
import ProcessDisplay.Proofs.PropagationEnds
import ProcessDisplay.Proofs.TickSurvival

/-!
# Creations nest twice

A creation finds or creates the parameters of a formula in the same way as
the formula itself, so it might nest without end. With the bundled compiler it
does not: the name of a parameter was quoted with single quotes, so it holds
none, and a formula without single quotes has no parameters. Whatever a third
level would do, it is never reached.
-/

namespace ProcessDisplay

namespace Formula

/-- Single quotes enclose every reference, and none stands within it. -/
theorem Segmented.quoted {cs : List Char} {segments : List Segment} (h : Segmented cs segments)
    {raw : List Char} (hmem : .reference raw ∈ segments) : '\'' ∉ raw ∧ '\'' ∈ cs := by
  induction h with
  | done => cases hmem
  | @text cs body rest segments hbody _ ih =>
    obtain ⟨hraw, hquote⟩ := ih (by simpa using hmem)
    have hrest : '\'' ∈ cs := hbody.append_eq ▸ List.mem_append_right body hquote
    exact ⟨hraw, List.mem_cons_of_mem _ hrest⟩
  | reference hfirst _ ih =>
    rcases List.mem_cons.mp hmem with hsame | hlater
    · obtain rfl := Segment.reference.inj hsame
      exact ⟨hfirst, by simp⟩
    · exact ⟨(ih hlater).1, by simp⟩
  | openReference => simp at hmem
  | other _ _ _ ih =>
    obtain ⟨hraw, hquote⟩ := ih (by simpa using hmem)
    exact ⟨hraw, List.mem_cons_of_mem _ hquote⟩

/-- The names of a formula hold no single quotes, and it has none if it holds
no single quotes itself. -/
theorem ExpressionFormula.quoted {L : Script.Language} {limits : Script.Limits}
    {source : String} {f : ExpressionFormula} (h : compile L limits source = .ok f)
    {name : String} (hname : name ∈ f.parameters) : '\'' ∉ name.toList ∧ '\'' ∈ source.toList := by
  obtain ⟨segments, hsegments⟩ := exists_segmented source.toList
  obtain ⟨pieces, -, hreplaced, -⟩ := pieces_of_compile h
  rw [replaceReferences_segmented hsegments] at hreplaced
  obtain ⟨⟨out, names⟩, hrewritten, hpair⟩ := exceptMap_eq_ok_iff.mp hreplaced
  obtain ⟨-, rfl⟩ := Prod.mk.inj hpair
  rw [(of_rewriteSegments_eq_ok hrewritten).1, List.mem_eraseDups, List.nil_append] at hname
  obtain ⟨segment, hmem, hquoted⟩ := List.mem_filterMap.mp hname
  cases segment with
  | reference raw =>
    obtain rfl := Option.some.inj hquoted
    obtain ⟨hraw, hsource⟩ := hsegments.quoted hmem
    rw [quotedName, String.toList_ofList]
    exact ⟨fun hquote => hraw (Text.mem_of_mem_trimmed hquote), hsource⟩
  | text | openReference | other => cases hquoted

/-- A formula without single quotes has no parameters. -/
theorem ExpressionFormula.parameters_eq_nil {L : Script.Language} {limits : Script.Limits}
    {source : String} {f : ExpressionFormula} (h : compile L limits source = .ok f)
    (hsource : '\'' ∉ source.toList) : f.parameters = [] :=
  List.eq_nil_iff_forall_not_mem.mpr fun _ hname => hsource (quoted h hname).2

end Formula

/-- A name spells a formula that compiles. -/
def FormulaCompiler.Spells (C : FormulaCompiler) (name : String) (f : C.Formula) : Prop :=
  ∃ source, VariableName.parse name = .ok (.formula source) ∧ C.compile source = .ok f

/-- A formula is the one that a name spells, or one that a parameter of it spells. -/
def FormulaCompiler.Brings (C : FormulaCompiler) (name : String) (f : C.Formula) : Prop :=
  C.Spells name f ∨
    ∃ outer, C.Spells name outer ∧ ∃ parameter ∈ C.parameters outer, C.Spells parameter f

/-- The formulas that a name brings were compiled. -/
theorem FormulaCompiler.Brings.compiled {C : FormulaCompiler} {name : String} {f : C.Formula}
    (h : C.Brings name f) : ∃ source, C.compile source = .ok f := by
  rcases h with ⟨source, -, hcompiled⟩ | ⟨-, -, -, -, source, -, hcompiled⟩ <;>
    exact ⟨source, hcompiled⟩

/-- The formula that a name spells. -/
def FormulaCompiler.spelled (C : FormulaCompiler) (name : String) : Option C.Formula :=
  match VariableName.parse name with
  | .ok (.formula source) => (C.compile source).toOption
  | _ => none

/-- The names that a creation meets: the name itself and those of the parameters
of its formula. -/
def FormulaCompiler.met (C : FormulaCompiler) (name : String) : List String :=
  name :: (C.spelled name).toList.flatMap C.parameters

/-- A formula that a name spells is found. -/
theorem FormulaCompiler.Spells.mem_spelled {C : FormulaCompiler} {name : String} {f : C.Formula}
    (h : C.Spells name f) : f ∈ (C.spelled name).toList := by
  obtain ⟨source, hparse, hcompiled⟩ := h
  rw [spelled, hparse]
  simp only [hcompiled, Except.toOption, Option.toList_some, List.mem_singleton]

/-- The formulas that a name brings are spelled by the names that it meets. -/
theorem FormulaCompiler.Brings.exists_met {C : FormulaCompiler} {name : String} {f : C.Formula}
    (h : C.Brings name f) : ∃ other ∈ C.met name, C.Spells other f := by
  rcases h with hspells | ⟨outer, houter, parameter, hparameter, hspells⟩
  · exact ⟨name, List.mem_cons_self, hspells⟩
  · refine ⟨parameter, List.mem_cons_of_mem _ ?_, hspells⟩
    exact List.mem_flatMap.mpr ⟨outer, houter.mem_spelled, hparameter⟩

/-- A character of a formula is one of every name that spells it. -/
theorem mem_name_of_trim_eq {name source : String} (h : Text.trim name = "=" ++ source) {c : Char}
    (hc : c ∈ source.toList) : c ∈ name.toList := by
  refine Text.mem_of_mem_trimmed ?_
  rw [← Text.toList_trim, h, String.toList_append]
  exact List.mem_append_right _ hc

/-- With the bundled compiler a name without single quotes spells no formula
with parameters. -/
theorem FormulaCompiler.Spells.parameters_eq_nil {L : Script.Language} {limits : Script.Limits}
    {nesting : Nat} {name : String} {f : Formula.ExpressionFormula}
    (h : (FormulaCompiler.expressions L limits nesting).Spells name f)
    (hname : '\'' ∉ name.toList) : f.parameters = [] := by
  obtain ⟨source, hparse, hcompiled⟩ := h
  have hspelled := VariableName.trim_eq_key_of_formula hparse
  exact Formula.ExpressionFormula.parameters_eq_nil hcompiled fun hquote =>
    hname (mem_name_of_trim_eq hspelled hquote)

/-- With the bundled compiler a formula that is a parameter of a formula has no
parameters. -/
theorem FormulaCompiler.Spells.parameters_of_inner {L : Script.Language}
    {limits : Script.Limits} {nesting : Nat} {parameter : String}
    {outer inner : Formula.ExpressionFormula} {source : String}
    (hinner : (FormulaCompiler.expressions L limits nesting).Spells parameter inner)
    (hcompiled : (FormulaCompiler.expressions L limits nesting).compile source = .ok outer)
    (hparameter : parameter ∈ outer.parameters) : inner.parameters = [] :=
  hinner.parameters_eq_nil (Formula.ExpressionFormula.quoted hcompiled hparameter).1

/-- The names that spell a formula are its key but for blanks around it. -/
theorem Variable.IsSpelled.trim_eq {v : Variable} {name source : String} (h : v.IsSpelled name)
    (hv : v.name = "=" ++ source) : Text.trim name = "=" ++ source := by
  rcases h with hsame | ⟨parsed, hparse, hparsed⟩
  · exact hsame.symm.trans hv
  · obtain rfl := VariableName.eq_formula_of_key (hparsed.symm.trans hv)
    exact VariableName.trim_eq_key_of_formula hparse

namespace Engine

variable {C : FormulaCompiler} {R : ScriptInterpreter}

section Levels

/-- Finds or creates the variable of a name, and the parameters of its formula
in some way: one level of a resolution. -/
def resolveWith (find : String → Action C R VariableId) (name : String) :
    Action C R VariableId := do
  let state := (← Action.current).state
  (state.lookup (Text.trim name)).elim
    (do
      let parsed ← Action.ofExcept (VariableName.parse name)
      (state.lookup parsed.key).elim (createNamed find parsed) fun id => do
        Action.update (·.revisit parsed id)
        return id)
    fun id => return id

/-- A resolution is one level with a resolution that may nest less deep. -/
theorem resolve_succ (depth : Nat) :
    resolve (C := C) (R := R) (depth + 1) = resolveWith (resolve depth) := by
  funext name e
  unfold resolveWith
  rw [Action.current_bind]
  cases hspelled : e.state.lookup (Text.trim name) with
  | some id => exact resolve_of_lookup hspelled
  | none =>
    rw [Option.elim_none]
    cases hparse : VariableName.parse name with
    | error failure =>
      rw [resolve, Action.current_bind]
      simp only [hspelled, hparse]
      rfl
    | ok parsed =>
      rw [Action.ofExcept_ok_bind]
      cases hkey : e.state.lookup parsed.key with
      | some id => exact resolve_of_key hspelled hparse hkey
      | none =>
        rw [resolve, Action.current_bind]
        simp only [hspelled, hparse, Action.ofExcept_ok_bind, hkey, Option.elim_none]

/-- Actions for a list of items that are the same for each of them. -/
theorem mapM_congr {α β : Type} {f g : α → Action C R β} {items : List α}
    (h : ∀ item ∈ items, f item = g item) : items.mapM f = items.mapM g := by
  induction items with
  | nil => rfl
  | cons item rest ih =>
    rw [List.mapM_cons, List.mapM_cons, h item List.mem_cons_self,
      ih fun other hother => h other (List.mem_cons_of_mem _ hother)]

variable {find find' : String → Action C R VariableId} {name : String}

/-- The creation of a formula depends on what is done for its parameters only. -/
theorem createFormula_congr {key source : String}
    (h : ∀ f, C.compile source = .ok f → ∀ parameter ∈ C.parameters f,
      find parameter = find' parameter) :
    createFormula find key source = createFormula find' key source := by
  unfold createFormula
  cases hcompiled : C.compile source with
  | error failure => rfl
  | ok f =>
    have hsame := mapM_congr (h f hcompiled)
    funext e
    change (Action.ofExcept (.ok f) >>= _) e = (Action.ofExcept (.ok f) >>= _) e
    rw [Action.ofExcept_ok_bind, Action.ofExcept_ok_bind, hsame]

/-- What a level does depends on the parameters of the formula of the name only. -/
theorem resolveWith_congr
    (h : ∀ f, C.Spells name f → ∀ parameter ∈ C.parameters f, find parameter = find' parameter) :
    resolveWith find name = resolveWith find' name := by
  have hcreates : ∀ parsed, VariableName.parse name = .ok parsed →
      createNamed find parsed = createNamed find' parsed := by
    intro parsed hparse
    cases parsed with
    | localVariable | simulated | clock => rfl
    | formula source =>
      exact createFormula_congr fun f hcompiled => h f ⟨source, hparse, hcompiled⟩
  unfold resolveWith
  cases hparse : VariableName.parse name with
  | error failure => rfl
  | ok parsed =>
    funext e
    rw [Action.current_bind, Action.current_bind]
    cases e.state.lookup (Text.trim name) with
    | some id => rfl
    | none =>
      rw [Option.elim_none, Option.elim_none, Action.ofExcept_ok_bind, Action.ofExcept_ok_bind,
        hcreates parsed hparse]

end Levels

section Crashes

/-- A sequence that ends the program does so in its first part or in the rest. -/
theorem Action.of_bind_crash {α β : Type} {first : Action C R α} {next : α → Action C R β}
    {e : Engine C R} (h : (first >>= next) e = .crash) :
    first e = .crash ∨ ∃ a e₁, first e = .done (.ok a, e₁) ∧ next a e₁ = .crash := by
  rw [bind_apply] at h
  rcases hfirst : first e with ⟨failure | a, e₁⟩ | _
  · rw [hfirst] at h
    cases h
  · rw [hfirst] at h
    exact .inr ⟨a, e₁, rfl, h⟩
  · exact .inl rfl

/-- Actions for a list of items that end the program do so for one of them. -/
theorem Action.of_mapM_crash {α β : Type} {f : α → Action C R β} {items : List α}
    {e : Engine C R} (h : (items.mapM f) e = .crash) :
    ∃ item ∈ items, ∃ e₁, f item e₁ = .crash := by
  induction items generalizing e with
  | nil => cases h
  | cons item rest ih =>
    rw [List.mapM_cons] at h
    rcases of_bind_crash h with hfirst | ⟨b, e₁, -, hrest⟩
    · exact ⟨item, List.mem_cons_self, e, hfirst⟩
    · rcases of_bind_crash hrest with hlater | ⟨bs, e₂, -, hlast⟩
      · obtain ⟨other, hother, hcrash⟩ := ih hlater
        exact ⟨other, List.mem_cons_of_mem _ hother, hcrash⟩
      · cases hlast

/-- A computation of the engine that ends the program within an action. -/
theorem Action.of_ofOutcome_crash {α : Type} {compute : Engine C R → Outcome (α × Engine C R)}
    {e : Engine C R} (h : ofOutcome compute e = .crash) : compute e = .crash := by
  unfold ofOutcome at h
  cases hcompute : compute e with
  | crash => rfl
  | done ran =>
    rw [hcompute] at h
    cases h

/-- The first evaluation of a new formula that ends the program is an execution
that does. -/
theorem execute_of_inserted {e : Engine C R} {source : String} {parameters : List VariableId}
    {formula : C.Formula}
    (h : evaluateFormula e.state.formulas.length
      (e.withState (e.state.insertFormula source parameters formula)) = .crash) :
    ∃ f, C.Derives formula f ∧ C.execute f = .crash := by
  obtain ⟨unit, hunit, -, hcrash⟩ := evaluateFormula_crash h
  have hnew : (e.state.insertFormula source parameters formula).formulas[
      e.state.formulas.length]? = some { variableId := e.state.nextId, parameters, formula } := by
    simp [State.insertFormula, State.addFormula, State.insertVariable]
  obtain rfl := Option.some.inj (hnew.symm.trans hunit)
  have hderives := State.derives_supplied
    (e.withState (e.state.insertFormula source parameters formula)).state
    { variableId := e.state.nextId, parameters, formula }
  exact ⟨_, hderives, hcrash⟩

/-- A creation of a formula that ends the program does so with a parameter or
with an execution of the formula. -/
theorem createFormula_crash {find : String → Action C R VariableId} {source : String}
    {e : Engine C R} (h : createFormula find ("=" ++ source) source e = .crash) :
    ∃ formula, C.compile source = .ok formula ∧
      ((∃ parameter ∈ C.parameters formula, ∃ e₁, find parameter e₁ = .crash) ∨
        ∃ f, C.Derives formula f ∧ C.execute f = .crash) := by
  unfold createFormula at h
  cases hcompiled : C.compile source with
  | error failure =>
    rw [hcompiled] at h
    cases h
  | ok formula =>
    refine ⟨formula, rfl, ?_⟩
    rw [hcompiled] at h
    change (Action.ofExcept (.ok formula) >>= _) e = _ at h
    rw [Action.ofExcept_ok_bind, Action.current_bind] at h
    rcases Action.of_bind_crash h with hchecked | ⟨-, e₁, -, h⟩
    · cases hchecked
    · rcases Action.of_bind_crash h with hparameters | ⟨parameters, e₂, -, h⟩
      · obtain ⟨parameter, hmem, hcrash⟩ := Action.of_mapM_crash hparameters
        exact .inl ⟨parameter, hmem, hcrash⟩
      · rw [Action.current_bind, Action.update_bind] at h
        rcases Action.of_bind_crash h with hevaluated | ⟨changed, e₃, -, h⟩
        · exact .inr (execute_of_inserted (Action.of_ofOutcome_crash hevaluated))
        · cases changed <;> cases h

/-- A level that ends the program does so with a parameter of the formula of
the name or with an execution of this formula. -/
theorem resolveWith_crash {find : String → Action C R VariableId} {name : String}
    {e : Engine C R} (h : resolveWith find name e = .crash) :
    ∃ formula, C.Spells name formula ∧
      ((∃ parameter ∈ C.parameters formula, ∃ e₁, find parameter e₁ = .crash) ∨
        ∃ f, C.Derives formula f ∧ C.execute f = .crash) := by
  unfold resolveWith at h
  rw [Action.current_bind] at h
  cases hspelled : e.state.lookup (Text.trim name) with
  | some id =>
    rw [hspelled] at h
    cases h
  | none =>
    rw [hspelled, Option.elim_none] at h
    rcases Action.of_bind_crash h with hrefused | ⟨parsed, e₁, hparsed, h⟩
    · cases hrefused
    · rw [Action.ofExcept_apply] at hparsed
      obtain ⟨hparse, rfl⟩ := Prod.mk.inj (Outcome.done.inj hparsed)
      cases hkey : e.state.lookup parsed.key with
      | some id =>
        rw [hkey] at h
        cases h
      | none =>
        rw [hkey, Option.elim_none] at h
        cases parsed with
        | localVariable | simulated | clock => cases h
        | formula source =>
          obtain ⟨formula, hcompiled, hends⟩ := createFormula_crash h
          exact ⟨formula, ⟨source, hparse, hcompiled⟩, hends⟩

end Crashes

section Bundled

variable {L : Script.Language} {limits : Script.Limits} {nesting : Nat}

/-- Two levels decide: the second one meets formulas without parameters only. -/
theorem resolveWith_resolveWith
    (find find' : String → Action (.expressions L limits nesting) R VariableId) :
    resolveWith (resolveWith find) = resolveWith (resolveWith find') := by
  funext name
  refine resolveWith_congr fun f hspells parameter hparameter => ?_
  obtain ⟨source, -, hcompiled⟩ := hspells
  refine resolveWith_congr fun inner hinner other hother => ?_
  have hnone := hinner.parameters_of_inner hcompiled hparameter
  exact absurd hnone (List.ne_nil_of_mem hother)

/-- A resolution that may nest twice is two levels, whatever would follow. -/
theorem resolve_eq_resolveWith (find : String → Action (.expressions L limits nesting) R VariableId)
    (depth : Nat) : resolve (depth + 2) = resolveWith (resolveWith find) := by
  rw [resolve_succ, resolve_succ, resolveWith_resolveWith _ find]

/-- A resolution that is a level of itself is the one whose nesting is bounded. -/
theorem eq_resolveWith_iff
    {unbounded : String → Action (.expressions L limits nesting) R VariableId} (depth : Nat) :
    unbounded = resolveWith unbounded ↔ unbounded = resolve (depth + 2) := by
  constructor
  · intro hlevel
    rw [resolve_eq_resolveWith unbounded, ← hlevel, ← hlevel]
  · rintro rfl
    calc resolve (depth + 2)
      _ = resolveWith (resolveWith (resolveWith (resolve (depth + 2)))) :=
        resolve_eq_resolveWith _ depth
      _ = resolveWith (resolve (depth + 2)) :=
        congrArg resolveWith (resolve_eq_resolveWith _ depth).symm

/-- A resolution that ends the program came to an execution that does, of the
formula of the name or of one of its parameters. -/
theorem resolve_crash {depth : Nat} {name : String} {e : Engine (.expressions L limits nesting) R}
    (h : resolve (depth + 2) name e = .crash) :
    ∃ formula f, (FormulaCompiler.expressions L limits nesting).Brings name formula ∧
      (FormulaCompiler.expressions L limits nesting).Derives formula f ∧
      (FormulaCompiler.expressions L limits nesting).execute f = .crash := by
  rw [resolve_succ, resolve_succ] at h
  obtain ⟨outer, houter, ⟨parameter, hparameter, e₁, hinner⟩ | ⟨f, hderives, hcrash⟩⟩ :=
    resolveWith_crash h
  · obtain ⟨inner, hspells, ⟨other, hother, -⟩ | ⟨f, hderives, hcrash⟩⟩ :=
      resolveWith_crash hinner
    · obtain ⟨source, -, hcompiled⟩ := houter
      have hnone := hspells.parameters_of_inner hcompiled hparameter
      exact absurd hnone (List.ne_nil_of_mem hother)
    · exact ⟨inner, f, .inr ⟨outer, houter, parameter, hparameter, hspells⟩, hderives, hcrash⟩
  · exact ⟨outer, f, .inl houter, hderives, hcrash⟩

/-- A creation returns, or it came to an execution that ends the program. -/
theorem create_returns (hnesting : 0 < nesting) (e : Engine (.expressions L limits nesting) R)
    (name : String) :
    (∃ result e', create name e = .done (result, e')) ∨
      ∃ formula f, (FormulaCompiler.expressions L limits nesting).Brings name formula ∧
        (FormulaCompiler.expressions L limits nesting).Derives formula f ∧
        (FormulaCompiler.expressions L limits nesting).execute f = .crash := by
  obtain ⟨depth, rfl⟩ := Nat.exists_eq_add_of_lt hnesting
  unfold create transaction
  cases hresolve : resolve ((FormulaCompiler.expressions L limits _).nesting + 1) name e with
  | crash => exact .inr (resolve_crash hresolve)
  | done ran =>
    obtain ⟨failure | id, e'⟩ := ran
    · exact .inl ⟨_, _, rfl⟩
    · exact .inl ⟨_, _, rfl⟩

/-- In a language whose evaluations return, a creation returns if the formulas
that its name brings cross no bounds. -/
theorem create_returns_of_avoids (hnesting : 0 < nesting)
    (e : Engine (.expressions L limits nesting) R) {name : String}
    (hreturns : L.ReturnsErrors limits)
    (havoids : ∀ formula : Formula.ExpressionFormula,
      (FormulaCompiler.expressions L limits nesting).Brings name formula →
        ∀ scope, (formula.expression.course scope).Avoids Script.Crossed) :
    ∃ result e', create name e = .done (result, e') := by
  rcases create_returns hnesting e name with hreturned | ⟨formula, f, hbrings, hderives, hcrash⟩
  · exact hreturned
  · obtain ⟨source, hcompiled⟩ := hbrings.compiled
    obtain ⟨ran, hran⟩ :=
      execute_of_derives hreturns hcompiled (havoids formula hbrings) hderives
    rw [hcrash] at hran
    cases hran

/-- Every variable that is read has a name among the resolved ones. -/
theorem State.Resolves.exists_name {s : State C} {names : List String} {ids : List VariableId}
    (h : s.Resolves names ids) {id : VariableId} (hid : id ∈ ids) :
    ∃ name ∈ names, ∃ v, s.vars[id]? = some v ∧ v.IsSpelled name := by
  induction h with
  | nil => cases hid
  | @cons name _ _ _ hfirst _ ih =>
    rcases List.mem_cons.mp hid with rfl | hlater
    · exact ⟨name, List.mem_cons_self, hfirst⟩
    · obtain ⟨other, hother, hspelled⟩ := ih hlater
      exact ⟨other, List.mem_cons_of_mem _ hother, hspelled⟩

/-- A formula that a formula reads has no parameters. -/
theorem State.parameters_of_inner {s : State (.expressions L limits nesting)}
    {isStale : Nat → VariableId → Prop} (hup : s.UpToDate isStale)
    {unit inner : FormulaUnit (.expressions L limits nesting)} (hunit : unit ∈ s.formulas)
    (hinner : inner ∈ s.formulas) (hreads : inner.variableId ∈ unit.parameters) :
    inner.parameters = [] ∧ Formula.ExpressionFormula.parameters inner.formula = [] := by
  obtain ⟨i, hi⟩ := List.getElem?_of_mem hunit
  obtain ⟨k, hk⟩ := List.getElem?_of_mem hinner
  obtain ⟨source, origin, v, hstems, -⟩ := hup i unit hi
  obtain ⟨source', origin', v', hstems', -⟩ := hup k inner hk
  -- a parameter of the one formula names the other one
  obtain ⟨name, hname, w, hw, hspelled⟩ := hstems.resolves.exists_name hreads
  obtain rfl := Option.some.inj (hstems'.computes.symm.trans hw)
  have hplain := (Formula.ExpressionFormula.quoted hstems.compiled hname).1
  have hnone := Formula.ExpressionFormula.parameters_eq_nil hstems'.compiled fun hquote =>
    hplain (mem_name_of_trim_eq (hspelled.trim_eq hstems'.name) hquote)
  obtain ⟨hformula, -⟩ := FormulaCompiler.derives_expressions hstems'.derives
  obtain ⟨place, hplace⟩ := hstems'.parameters
  constructor
  · rw [hplace]
    exact congrArg (List.map place) hnone
  · rw [hformula]
    exact hnone

/-- In every state that a display with the bundled compiler reaches, a creation
ends after at most two levels of formulas. What a third level would do does
not matter, and a resolution without any bound on its nesting, a level of
itself, is the one with the bound and no other. A creation returns, or an
execution of the formula of the name or of one of its parameters ends the
program; in a language whose evaluations return none does that crosses no
bounds. The reason is that no name of a parameter holds a single quote: a
formula that is a parameter has no parameters, and so no formula with
parameters is ever read by another one. -/
theorem creation_nests_twice {settings : Settings} {epoch : Time.Instant} {panel : Panel}
    {operations : List Operation} {answers : List Answer}
    {s : Stage (.expressions L limits nesting) R} (hnesting : 0 < nesting)
    (hrun : (Stage.mk (Engine.start (.expressions L limits nesting) R settings epoch) panel).run
      operations = .done (answers, s)) (name : String) :
    (∀ find, create name s.engine = transaction (resolveWith (resolveWith find) name) s.engine) ∧
    (∀ unbounded : String → Action (.expressions L limits nesting) R VariableId,
      unbounded = resolveWith unbounded ↔ unbounded = resolve (nesting + 1)) ∧
    ((∃ result e', create name s.engine = .done (result, e')) ∨
      ∃ formula f, (FormulaCompiler.expressions L limits nesting).Brings name formula ∧
        (FormulaCompiler.expressions L limits nesting).Derives formula f ∧
        (FormulaCompiler.expressions L limits nesting).execute f = .crash) ∧
    (L.ReturnsErrors limits →
      (∀ formula : Formula.ExpressionFormula,
        (FormulaCompiler.expressions L limits nesting).Brings name formula →
          ∀ scope, (formula.expression.course scope).Avoids Script.Crossed) →
      ∃ result e', create name s.engine = .done (result, e')) ∧
    (∀ source f, Formula.ExpressionFormula.compile L limits source = .ok f →
      ∀ parameter ∈ f.parameters, '\'' ∉ parameter.toList ∧
        ∀ inner : Formula.ExpressionFormula,
          (FormulaCompiler.expressions L limits nesting).Spells parameter inner →
            inner.parameters = []) ∧
    ∀ unit ∈ s.engine.state.formulas, ∀ inner ∈ s.engine.state.formulas,
      inner.variableId ∈ unit.parameters →
        inner.parameters = [] ∧ Formula.ExpressionFormula.parameters inner.formula = [] := by
  -- Where formulas may stand within formulas, two levels are admitted.
  have hlevels : nesting + 1 = nesting - 1 + 2 := by omega
  have htwo : ∀ find : String → Action (.expressions L limits nesting) R VariableId,
      resolve (nesting + 1) = resolveWith (resolveWith find) := by
    intro find
    rw [hlevels]
    exact resolve_eq_resolveWith find (nesting - 1)
  refine ⟨fun find => ?_, fun unbounded => ?_, create_returns hnesting s.engine name,
    create_returns_of_avoids hnesting s.engine, fun source f hcompiled parameter hparameter => ?_,
    fun unit hunit inner hinner hreads => ?_⟩
  · rw [create, ← htwo find]
    rfl
  · rw [hlevels]
    exact eq_resolveWith_iff (nesting - 1)
  · exact ⟨(Formula.ExpressionFormula.quoted hcompiled hparameter).1,
      fun inner hspells => hspells.parameters_of_inner hcompiled hparameter⟩
  · exact State.parameters_of_inner (session_of_run hrun).upToDate hunit hinner hreads

/-- A formula that reads another formula and a local variable. -/
def nestingRun : List Operation :=
  [.create "='= 1 + 1' + 'loc://a(2)'"]

/-- The formula that is read has no parameters, and a creation of one more such
formula returns from two levels. -/
theorem creation_nests_twice_summed : ∃ answers s, ∃ inner unit,
    (bareStage []).run nestingRun = .done (answers, s) ∧
      s.engine.state.formulas = [inner, unit] ∧ inner.variableId ∈ unit.parameters ∧
      unit.parameters.length = 2 ∧ inner.parameters = [] ∧
      (FormulaCompiler.expressions .standard {} 1000).met "='= 3' * 'loc://a'" =
        ["='= 3' * 'loc://a'", "= 3", "loc://a"] ∧
      (∀ find, create "='= 3' * 'loc://a'" s.engine =
        transaction (resolveWith (resolveWith find) "='= 3' * 'loc://a'") s.engine) ∧
      ∃ result e', create "='= 3' * 'loc://a'" s.engine = .done (result, e') := by
  obtain ⟨⟨answers, s⟩, hrun, hcheck⟩ := done_of_any
    (fun ran : List Answer × BundledStage =>
      decide (ran.2.engine.state.formulas.length = 2 ∧
        ran.2.engine.state.formulas.map FormulaUnit.variableId = [0, 2] ∧
        ran.2.engine.state.formulas.map FormulaUnit.parameters = [[], [0, 1]]))
    (show ((bareStage []).run nestingRun).value?.any _ = true by decide +kernel)
  obtain ⟨htwo, hids, hparameters⟩ := of_decide_eq_true hcheck
  obtain ⟨inner, unit, hformulas⟩ := List.length_eq_two.mp htwo
  rw [hformulas] at hids hparameters
  obtain ⟨hinner, -⟩ := List.cons.inj hids
  obtain ⟨-, hrest⟩ := List.cons.inj hparameters
  obtain ⟨hunit, -⟩ := List.cons.inj hrest
  have hreads : inner.variableId ∈ unit.parameters := by
    rw [hinner, hunit]
    decide
  have hmet : (FormulaCompiler.expressions .standard {} 1000).met "='= 3' * 'loc://a'" =
      ["='= 3' * 'loc://a'", "= 3", "loc://a"] := by decide +kernel
  have horders : ["='= 3' * 'loc://a'", "= 3", "loc://a"].all
      (fun name => ordersName {} (Text.trim name)) = true := by decide +kernel
  obtain ⟨hlevels, -, -, hreturns, -, hnone⟩ :=
    creation_nests_twice (by decide) (run_bareStage hrun) "='= 3' * 'loc://a'"
  refine ⟨answers, s, inner, unit, hrun, hformulas, hreads, ?_, ?_, hmet, hlevels, ?_⟩
  · rw [hunit]
    rfl
  · rw [hformulas] at hnone
    exact (hnone unit (List.mem_cons_of_mem _ List.mem_cons_self) inner List.mem_cons_self
      hreads).1
  · refine hreturns (Script.returnsErrors_standard (by decide)) fun f hbrings => ?_
    obtain ⟨name, hname, source, hparse, hcompiled⟩ := hbrings.exists_met
    rw [hmet] at hname
    have hordered := List.all_eq_true.mp horders name hname
    rw [VariableName.trim_eq_key_of_formula hparse] at hordered
    exact avoids_of_ordersName (by decide) hcompiled hordered

end Bundled

end Engine

end ProcessDisplay
