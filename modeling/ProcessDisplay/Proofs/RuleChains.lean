import Mathlib.Tactic.Common
import ProcessDisplay.Proofs.BundledUnits

/-!
# Chains of conditions

A rule evaluates its conditions in order, each in the scope that the one
before it left, up to the first one that holds or fails. What it selects is
told by this condition alone, whatever the evaluation of expressions is.
Whatever it selects goes to one property of its widget.
-/

namespace ProcessDisplay

namespace Widget

variable {property other : String} {p : Property} {row : List (String × Property)}

/-- A property that is placed in a row is found there. -/
theorem find_place_self : find property (place property p row) = some p := by
  induction row with
  | nil => exact if_pos rfl
  | cons entry rest ih =>
    unfold place
    split
    · exact if_pos rfl
    · next hne =>
      split
      · exact if_pos rfl
      · rw [find, if_neg (Ne.symm hne), ih]

/-- A property that is placed in a row does not stand for another one. -/
theorem find_place_ne (h : other ≠ property) :
    find other (place property p row) = find other row := by
  induction row with
  | nil => exact if_neg (Ne.symm h)
  | cons entry rest ih =>
    unfold place
    split
    · next heq =>
      have hname : entry.1 ≠ other := fun hname => h (hname.symm.trans heq.symm)
      rw [find, find, if_neg (Ne.symm h), if_neg hname]
    · split
      · rw [find, if_neg (Ne.symm h)]
      · rw [find, find, ih]

/-- An assignment gives one property another value and leaves all others alone. -/
structure Assigned (w : Widget) (property : String) (p : Property) (value : Value)
    (after : Widget) : Prop where
  /-- The name. -/
  name : after.name = w.name
  /-- The property keeps its kind and its default. -/
  own : after.property? property = some { p with value }
  /-- The other properties. -/
  others : ∀ other, other ≠ property → after.property? other = w.property? other

/-- A property that a widget has can be assigned to. -/
theorem assigned_of_property {w : Widget} (h : w.property? property = some p) (value : Value) :
    ∃ after, w.assign property value = .ok after ∧ w.Assigned property p value after := by
  have hassign : w.assign property value =
      .ok { w with properties := place property { p with value } w.properties } := by
    unfold assign
    rw [h]
  exact ⟨_, hassign, rfl, find_place_self, fun _ hother => find_place_ne hother⟩

end Widget

namespace Rule

variable {ε ς : Type} {evaluation evaluation' : Evaluation ε ς} {rule : String} {scope : ς}
  {branches before after : List (Branch ε)} {branch : Branch ε} {action : Action ε}

section Conditions

/-- The evaluations of all conditions in order, each in the scope that the one
before it left. -/
def trail (evaluation : Evaluation ε ς) : ς → List (Branch ε) → List (ς × ε)
  | _, [] => []
  | scope, branch :: rest =>
    (scope, branch.condition) :: trail evaluation (evaluation scope branch.condition).2 rest

/-- The scope that all conditions leave. -/
def scopeAfter (evaluation : Evaluation ε ς) (scope : ς) (branches : List (Branch ε)) : ς :=
  branches.foldl (fun scope branch => (evaluation scope branch.condition).2) scope

/-- A condition is evaluated to something that does not count as true. -/
def Misses (evaluation : Evaluation ε ς) (turn : ς × ε) : Prop :=
  ∃ value, (evaluation turn.1 turn.2).1 = .done (.ok value) ∧ isHit value = false

/-- A condition is evaluated to something that counts as true. -/
def Hits (evaluation : Evaluation ε ς) (turn : ς × ε) : Prop :=
  ∃ value, (evaluation turn.1 turn.2).1 = .done (.ok value) ∧ isHit value = true

/-- One condition more. -/
theorem trail_concat : trail evaluation scope (before ++ [branch]) =
    trail evaluation scope before ++ [(scopeAfter evaluation scope before, branch.condition)] := by
  induction before generalizing scope with
  | nil => rfl
  | cons first rest ih => exact congrArg (_ :: ·) ih

/-- The scope after one condition more. -/
theorem scopeAfter_concat : scopeAfter evaluation scope (before ++ [branch]) =
    (evaluation (scopeAfter evaluation scope before) branch.condition).2 :=
  List.foldl_concat ..

/-- The evaluation of a condition misses or hits, fails, or ends the program. -/
theorem turn_cases (evaluation : Evaluation ε ς) (turn : ς × ε) :
    Misses evaluation turn ∨ Hits evaluation turn ∨
      (∃ fault, (evaluation turn.1 turn.2).1 = .done (.error fault)) ∨
        (evaluation turn.1 turn.2).1 = .crash := by
  cases hresult : (evaluation turn.1 turn.2).1 with
  | crash => exact .inr (.inr (.inr rfl))
  | done result =>
    cases result with
    | error fault => exact .inr (.inr (.inl ⟨fault, rfl⟩))
    | ok value =>
      cases hhit : isHit value with
      | false => exact .inl ⟨value, hresult, hhit⟩
      | true => exact .inr (.inl ⟨value, hresult, hhit⟩)

/-- A chain comes to a branch: all conditions before it miss. -/
structure ComesTo (evaluation : Evaluation ε ς) (scope : ς) (branches before : List (Branch ε))
    (branch : Branch ε) (after : List (Branch ε)) : Prop where
  /-- The branch stands between the branches before it and those after it. -/
  split : branches = before ++ branch :: after
  /-- The conditions before it. -/
  misses : ∀ turn ∈ trail evaluation scope before, Misses evaluation turn

/-- Either all conditions of a chain miss, or it comes to one that does not. -/
theorem comesTo_cases (evaluation : Evaluation ε ς) (scope : ς) (branches : List (Branch ε)) :
    (∀ turn ∈ trail evaluation scope branches, Misses evaluation turn) ∨
      ∃ before branch after, ComesTo evaluation scope branches before branch after ∧
        ¬Misses evaluation (scopeAfter evaluation scope before, branch.condition) := by
  induction branches generalizing scope with
  | nil => exact .inl fun _ hturn => absurd hturn List.not_mem_nil
  | cons first rest ih =>
    by_cases hfirst : Misses evaluation (scope, first.condition)
    · rcases ih (evaluation scope first.condition).2 with
        hall | ⟨before, branch, after, ⟨rfl, hmisses⟩, hnot⟩
      · exact .inl (List.forall_mem_cons.mpr ⟨hfirst, hall⟩)
      · exact .inr ⟨first :: before, branch, after,
          ⟨rfl, List.forall_mem_cons.mpr ⟨hfirst, hmisses⟩⟩, hnot⟩
    · exact .inr ⟨[], first, rest, ⟨rfl, fun _ hturn => absurd hturn List.not_mem_nil⟩, hfirst⟩

/-- Evaluations that agree on a chain of conditions leave the same scopes. -/
theorem trail_congr (h : ∀ turn ∈ trail evaluation scope branches,
    evaluation' turn.1 turn.2 = evaluation turn.1 turn.2) :
    trail evaluation' scope branches = trail evaluation scope branches ∧
      scopeAfter evaluation' scope branches = scopeAfter evaluation scope branches := by
  induction branches generalizing scope with
  | nil => exact ⟨rfl, rfl⟩
  | cons first rest ih =>
    obtain ⟨hfirst, hrest⟩ := List.forall_mem_cons.mp h
    obtain ⟨htrail, hscope⟩ := ih hrest
    have hnext : (evaluation' scope first.condition).2 = (evaluation scope first.condition).2 :=
      congrArg Prod.snd hfirst
    constructor
    · rw [trail, trail, hnext, htrail]
    · change scopeAfter evaluation' (evaluation' scope first.condition).2 rest = _
      rw [hnext, hscope]
      rfl

end Conditions

section Outputs

/-- What becomes of the output of a branch. -/
inductive Action.Yields (evaluation : Evaluation ε ς) (rule : String) (scope : ς) :
    Action ε → Outcome (Except Failure Value) → Prop
  /-- A value stands for itself. -/
  | literal (value : Value) : Yields evaluation rule scope (.literal value) (.done (.ok value))
  /-- An expression has a value. -/
  | value {e : ε} {value : Value} (h : (evaluation scope e).1 = .done (.ok (some value))) :
    Yields evaluation rule scope (.expression e) (.done (.ok value))
  /-- An expression has no value, which is a failure. -/
  | noValue {e : ε} (h : (evaluation scope e).1 = .done (.ok none)) :
    Yields evaluation rule scope (.expression e) (.done (.error (.rule (.noOutput rule))))
  /-- The evaluation of an expression fails. -/
  | fault {e : ε} {fault : Script.Fault} (h : (evaluation scope e).1 = .done (.error fault)) :
    Yields evaluation rule scope (.expression e)
      (.done (.error (.within ("rule '" ++ rule ++ "'") (.script (.stopped fault)))))
  /-- The evaluation of an expression ends the program. -/
  | crash {e : ε} (h : (evaluation scope e).1 = .crash) :
    Yields evaluation rule scope (.expression e) .crash

/-- Every output yields something. -/
theorem Action.exists_yields (evaluation : Evaluation ε ς) (rule : String) (scope : ς)
    (action : Action ε) : ∃ output, action.Yields evaluation rule scope output := by
  cases action with
  | literal value => exact ⟨_, .literal value⟩
  | expression e =>
    cases hresult : (evaluation scope e).1 with
    | crash => exact ⟨_, .crash hresult⟩
    | done result =>
      cases result with
      | error fault => exact ⟨_, .fault hresult⟩
      | ok value =>
        cases value with
        | none => exact ⟨_, .noValue hresult⟩
        | some value => exact ⟨_, .value hresult⟩

variable {output : Outcome (Except Failure Value)}

/-- The value of an output is what it yields. -/
theorem Action.Yields.value_eq (h : action.Yields evaluation rule scope output) :
    action.value evaluation rule scope = output := by
  cases h with
  | literal => rfl
  | value h | noValue h | fault h | crash h =>
    unfold Action.value
    dsimp only
    rw [h]
    rfl

/-- An output depends on the evaluation of its expression alone. -/
theorem Action.Yields.congr (h : action.Yields evaluation rule scope output)
    (hagrees : ∀ e ∈ action.expressions, evaluation' scope e = evaluation scope e) :
    action.Yields evaluation' rule scope output := by
  cases h with
  | literal value => exact .literal value
  | value h => exact .value ((congrArg Prod.fst (hagrees _ List.mem_cons_self)).trans h)
  | noValue h => exact .noValue ((congrArg Prod.fst (hagrees _ List.mem_cons_self)).trans h)
  | fault h => exact .fault ((congrArg Prod.fst (hagrees _ List.mem_cons_self)).trans h)
  | crash h => exact .crash ((congrArg Prod.fst (hagrees _ List.mem_cons_self)).trans h)

end Outputs

section Selections

/-- What a chain of branches gives, with the evaluations that are made for it:
it is told by the first condition that does not miss. -/
inductive FirstMatch (evaluation : Evaluation ε ς) (rule : String) (scope : ς)
    (branches : List (Branch ε)) :
    List (ς × ε) → Outcome (Except Failure (Option Value)) → Prop
  /-- All conditions miss: nothing is selected. -/
  | unmatched (hmisses : ∀ turn ∈ trail evaluation scope branches, Misses evaluation turn) :
    FirstMatch evaluation rule scope branches (trail evaluation scope branches) (.done (.ok none))
  /-- A condition holds: its output is selected, or fails. -/
  | matched {before after : List (Branch ε)} {branch : Branch ε}
    {output : Outcome (Except Failure Value)}
    (hcomes : ComesTo evaluation scope branches before branch after)
    (hhits : Hits evaluation (scopeAfter evaluation scope before, branch.condition))
    (hyields : branch.action.Yields evaluation rule
      (scopeAfter evaluation scope (before ++ [branch])) output) :
    FirstMatch evaluation rule scope branches
      (trail evaluation scope (before ++ [branch]) ++
        branch.action.expressions.map (scopeAfter evaluation scope (before ++ [branch]), ·))
      (Except.map some <$> output)
  /-- A condition fails. -/
  | fault {before after : List (Branch ε)} {branch : Branch ε} {fault : Script.Fault}
    (hcomes : ComesTo evaluation scope branches before branch after)
    (hfault : (evaluation (scopeAfter evaluation scope before) branch.condition).1 =
      .done (.error fault)) :
    FirstMatch evaluation rule scope branches (trail evaluation scope (before ++ [branch]))
      (.done (.error (.within ("rule '" ++ rule ++ "'") (.script (.stopped fault)))))
  /-- A condition ends the program. -/
  | crash {before after : List (Branch ε)} {branch : Branch ε}
    (hcomes : ComesTo evaluation scope branches before branch after)
    (hcrash : (evaluation (scopeAfter evaluation scope before) branch.condition).1 = .crash) :
    FirstMatch evaluation rule scope branches (trail evaluation scope (before ++ [branch])) .crash

/-- Every chain gives something. -/
theorem exists_firstMatch (evaluation : Evaluation ε ς) (rule : String) (scope : ς)
    (branches : List (Branch ε)) :
    ∃ made result, FirstMatch evaluation rule scope branches made result := by
  rcases comesTo_cases evaluation scope branches with
    hall | ⟨before, branch, after, hcomes, hnot⟩
  · exact ⟨_, _, .unmatched hall⟩
  · rcases turn_cases evaluation (scopeAfter evaluation scope before, branch.condition) with
      hmisses | hhits | ⟨fault, hfault⟩ | hcrash
    · exact absurd hmisses hnot
    · obtain ⟨output, hyields⟩ := branch.action.exists_yields evaluation rule
        (scopeAfter evaluation scope (before ++ [branch]))
      exact ⟨_, _, .matched hcomes hhits hyields⟩
    · exact ⟨_, _, .fault hcomes hfault⟩
    · exact ⟨_, _, .crash hcomes hcrash⟩

/-- A chain goes on after conditions that miss. -/
theorem select_append (h : ∀ turn ∈ trail evaluation scope before, Misses evaluation turn) :
    select evaluation rule scope (before ++ after) =
      select evaluation rule (scopeAfter evaluation scope before) after := by
  induction before generalizing scope with
  | nil => rfl
  | cons first rest ih =>
    obtain ⟨⟨value, hvalue, hmiss⟩, hrest⟩ := List.forall_mem_cons.mp h
    have hfirst : select evaluation rule scope (first :: (rest ++ after)) =
        select evaluation rule (evaluation scope first.condition).2 (rest ++ after) := by
      rw [select]
      dsimp only at hvalue ⊢
      rw [hvalue]
      change (if isHit value = true then _ else _) = _
      rw [hmiss]
      rfl
    exact hfirst.trans (ih hrest)

/-- A chain whose first condition holds gives its output. -/
theorem select_hit (h : Hits evaluation (scope, branch.condition)) :
    select evaluation rule scope (branch :: after) =
      Except.map some <$> branch.action.value evaluation rule
        (evaluation scope branch.condition).2 := by
  obtain ⟨value, hvalue, hhit⟩ := h
  rw [select]
  dsimp only at hvalue ⊢
  rw [hvalue]
  change (if isHit value = true then _ else _) = _
  rw [hhit, if_pos rfl]
  rcases branch.action.value evaluation rule (evaluation scope branch.condition).2 with
    ⟨failure | output⟩ | _ <;> rfl

variable {made : List (ς × ε)} {result : Outcome (Except Failure (Option Value))}

/-- What a chain gives is computed by it. -/
theorem FirstMatch.select_eq (h : FirstMatch evaluation rule scope branches made result) :
    select evaluation rule scope branches = result := by
  cases h with
  | unmatched hmisses =>
    have hall : select evaluation rule scope (branches ++ []) = .done (.ok none) :=
      select_append hmisses
    rwa [List.append_nil] at hall
  | matched hcomes hhits hyields =>
    rw [hcomes.split, select_append hcomes.misses, select_hit hhits, ← scopeAfter_concat,
      hyields.value_eq]
  | fault hcomes hfault =>
    rw [hcomes.split, select_append hcomes.misses, select]
    dsimp only
    rw [hfault]
    rfl
  | crash hcomes hcrash =>
    rw [hcomes.split, select_append hcomes.misses, select]
    dsimp only
    rw [hcrash]
    rfl

/-- A chain computes what it gives, and nothing else. -/
theorem select_eq_iff : select evaluation rule scope branches = result ↔
    ∃ made, FirstMatch evaluation rule scope branches made result := by
  constructor
  · rintro rfl
    obtain ⟨made, result, hfirst⟩ := exists_firstMatch evaluation rule scope branches
    exact ⟨made, hfirst.select_eq ▸ hfirst⟩
  · rintro ⟨made, hfirst⟩
    exact hfirst.select_eq

/-- A chain comes to a branch with every evaluation that agrees on the
conditions up to this one. -/
theorem ComesTo.congr (h : ComesTo evaluation scope branches before branch after)
    (hagrees : ∀ turn ∈ trail evaluation scope (before ++ [branch]),
      evaluation' turn.1 turn.2 = evaluation turn.1 turn.2) :
    ComesTo evaluation' scope branches before branch after ∧
      evaluation' (scopeAfter evaluation' scope before) branch.condition =
        evaluation (scopeAfter evaluation scope before) branch.condition := by
  rw [trail_concat] at hagrees
  obtain ⟨hbefore, hbranch⟩ := List.forall_mem_append.mp hagrees
  obtain ⟨htrail, hscope⟩ := trail_congr hbefore
  refine ⟨⟨h.split, fun turn hturn => ?_⟩, ?_⟩
  · rw [htrail] at hturn
    obtain ⟨value, hvalue, hmiss⟩ := h.misses turn hturn
    exact ⟨value, (congrArg Prod.fst (hbefore turn hturn)).trans hvalue, hmiss⟩
  · rw [hscope]
    exact hbranch _ (List.mem_singleton.mpr rfl)

/-- What a chain gives depends on the evaluations that are made for it alone. -/
theorem FirstMatch.congr (h : FirstMatch evaluation rule scope branches made result)
    (hagrees : ∀ turn ∈ made, evaluation' turn.1 turn.2 = evaluation turn.1 turn.2) :
    FirstMatch evaluation' rule scope branches made result := by
  cases h with
  | unmatched hmisses =>
    rw [← (trail_congr hagrees).1]
    refine .unmatched fun turn hturn => ?_
    rw [(trail_congr hagrees).1] at hturn
    obtain ⟨value, hvalue, hmiss⟩ := hmisses turn hturn
    exact ⟨value, (congrArg Prod.fst (hagrees turn hturn)).trans hvalue, hmiss⟩
  | @matched before after branch output hcomes hhits hyields =>
    obtain ⟨hconditions, houtput⟩ := List.forall_mem_append.mp hagrees
    obtain ⟨hcomes', hsame⟩ := hcomes.congr hconditions
    obtain ⟨htrail, hscope⟩ := trail_congr hconditions
    have hyields' := hyields.congr fun e he => houtput _ (List.mem_map_of_mem he)
    rw [← hscope] at hyields'
    rw [← htrail, ← hscope]
    obtain ⟨value, hvalue, hhit⟩ := hhits
    exact .matched hcomes' ⟨value, (congrArg Prod.fst hsame).trans hvalue, hhit⟩ hyields'
  | fault hcomes hfault =>
    obtain ⟨hcomes', hsame⟩ := hcomes.congr hagrees
    rw [← (trail_congr hagrees).1]
    exact .fault hcomes' ((congrArg Prod.fst hsame).trans hfault)
  | crash hcomes hcrash =>
    obtain ⟨hcomes', hsame⟩ := hcomes.congr hagrees
    rw [← (trail_congr hagrees).1]
    exact .crash hcomes' ((congrArg Prod.fst hsame).trans hcrash)

end Selections

/-- An evaluation of expressions that are truth values; one that is none fails. -/
def truthEvaluation : Evaluation (Option Bool) Unit := fun _ e =>
  (.done (e.elim (.error .wrongType) fun b => .ok (some (.bool b))), ())

/-- A failure after the condition that holds does not matter. -/
example : select truthEvaluation "r" ()
    [⟨some false, .literal (.text "a")⟩, ⟨some true, .literal (.text "b")⟩,
      ⟨none, .literal (.text "c")⟩] = .done (.ok (some (.text "b"))) := rfl

section Effects

/-- What the execution of a rule makes of a widget by what its chain gives. -/
structure Executes (r : Rule ε) (given : Outcome (Except Failure (Option Value))) (w : Widget)
    (result : Outcome (Except Failure Widget)) : Prop where
  /-- A failure of the chain is that of the rule. -/
  failed : ∀ failure, given = .done (.error failure) → result = .done (.error failure)
  /-- The end of the program is that. -/
  crashed : given = .crash → result = .crash
  /-- A widget without the property of the rule is another failure. -/
  missing : ∀ selected, given = .done (.ok selected) → w.property? r.property = none →
    result = .done (.error (.missingProperty w.name r.property))
  /-- Otherwise the property of the rule, and it alone, gets the selected value,
  or its default. -/
  assigned : ∀ selected p, given = .done (.ok selected) → w.property? r.property = some p →
    ∃ after, result = .done (.ok after) ∧
      w.Assigned r.property p (selected.getD p.default) after

/-- The execution of a rule by what its chain gives. -/
theorem executes (r : Rule ε) (evaluation : Evaluation ε (List Script.Slot))
    (snapshots : List Snapshot) (w : Widget) :
    r.Executes (r.evaluate evaluation snapshots) w (r.execute evaluation snapshots w) := by
  unfold execute
  refine ⟨fun failure hgiven => ?_, fun hgiven => ?_, fun selected hgiven hnone => ?_,
    fun selected p hgiven hp => ?_⟩ <;> rw [hgiven]
  · rfl
  · rfl
  · have hassign : ∀ value, w.assign r.property value =
        .error (.missingProperty w.name r.property) := fun value => by
      unfold Widget.assign
      rw [hnone]
    have hdefault : w.default? r.property = none := congrArg (Option.map Property.default) hnone
    cases selected with
    | none =>
      simp only [Outcome.done_bind, target, hdefault]
      rfl
    | some value =>
      simp only [Outcome.done_bind, target, hassign]
      rfl
  · obtain ⟨after, hafter, hassigned⟩ := Widget.assigned_of_property hp (selected.getD p.default)
    have hdefault : w.default? r.property = some p.default :=
      congrArg (Option.map Property.default) hp
    refine ⟨after, ?_, hassigned⟩
    cases selected with
    | none =>
      simp only [Outcome.done_bind, target, hdefault]
      exact congrArg Outcome.done hafter
    | some value =>
      simp only [Outcome.done_bind, target]
      exact congrArg Outcome.done hafter

end Effects

/-- A rule is a chain whose first hit tells one property. Its evaluation
gives what the first condition tells that does not miss, and depends on the
evaluations up to there alone. Its execution fails as the evaluation does, or
for want of the property; otherwise it assigns to this property and to no
other one. In a tick a rule that fails leaves all widgets as they were. -/
theorem execute_first_match (r : Rule ε) (evaluation : Evaluation ε (List Script.Slot))
    (snapshots : List Snapshot) :
    (∀ result, r.evaluate evaluation snapshots = result ↔
      ∃ made, FirstMatch evaluation r.name (r.bind snapshots) r.branches made result) ∧
    (∀ made result, FirstMatch evaluation r.name (r.bind snapshots) r.branches made result →
      ∀ evaluation' : Evaluation ε (List Script.Slot),
        (∀ turn ∈ made, evaluation' turn.1 turn.2 = evaluation turn.1 turn.2) →
          r.evaluate evaluation' snapshots = result) ∧
    (∀ w, r.Executes (r.evaluate evaluation snapshots) w (r.execute evaluation snapshots w)) ∧
    ∀ (C : FormulaCompiler) (R : ScriptInterpreter) (s : Engine.Stage C R)
      (unit : Engine.RuleUnit),
      (∀ failure, unit.rule.execute expressionEvaluation snapshots (s.panel.widget unit.widget) =
          .done (.error failure) → ∃ s', s.runRule unit snapshots = .done s' ∧
            s'.panel = s.panel ∧ s'.engine.errors = s.engine.errors ++
              [⟨"rule '" ++ unit.rule.name ++ "'", failure⟩]) ∧
      ∀ after, unit.rule.execute expressionEvaluation snapshots (s.panel.widget unit.widget) =
          .done (.ok after) → ∃ s', s.runRule unit snapshots = .done s' ∧
            s'.panel = s.panel.set unit.widget after ∧ s'.engine = s.engine := by
  refine ⟨fun result => select_eq_iff, fun made result hfirst evaluation' hagrees => ?_,
    r.executes evaluation snapshots, fun C R s unit => ⟨fun failure hfailed => ?_,
      fun after hdone => ?_⟩⟩
  · exact (hfirst.congr hagrees).select_eq
  · refine ⟨{ s with engine := s.engine.record ("rule '" ++ unit.rule.name ++ "'") failure },
      ?_, rfl, rfl⟩
    unfold Engine.Stage.runRule
    rw [hfailed]
    rfl
  · refine ⟨{ s with panel := s.panel.set unit.widget after }, ?_, rfl, rfl⟩
    unfold Engine.Stage.runRule
    rw [hdone]
    rfl

end Rule

end ProcessDisplay
