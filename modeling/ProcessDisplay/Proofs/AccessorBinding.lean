import ProcessDisplay.Proofs.StandardLanguage

/-!
# Bound accessors

A rule that is accepted binds every accessor that its expressions name, if the
accessor is spelled as the binder spells it and its position can be counted.
The scanner also counts other spellings as accessors, and it passes over
positions that it cannot count. Nothing binds those, so a rule that names them
is accepted and its evaluation fails. This holds in every language; which names
an evaluation looks up is a law of the language.
-/

namespace ProcessDisplay.Rule

open Script

section Slots

variable {a : Accessors} {view : View} {slot : Slot} {snapshots : List Snapshot} {s : Snapshot}

/-- The accessors of an input are those of the views that occur. -/
theorem mem_inputSlots {index : Nat} : slot ∈ inputSlots a index s ↔
    ∃ view, a.has view = true ∧ slot = ⟨accessorName view index, false, view.datum s⟩ := by
  have hall : ∀ view, view ∈ allViews := by
    intro view
    cases view <;> decide
  rw [inputSlots, List.mem_map]
  constructor
  · rintro ⟨view, hview, rfl⟩
    exact ⟨view, (List.mem_filter.mp hview).2, rfl⟩
  · rintro ⟨view, hview, rfl⟩
    exact ⟨view, List.mem_filter.mpr ⟨hall view, hview⟩, rfl⟩

/-- The accessors from a position on belong to the inputs from there on. -/
theorem mem_slotsFrom {start : Nat} : slot ∈ slotsFrom a start snapshots ↔
    ∃ k s view, snapshots[k]? = some s ∧ a.has view = true ∧
      slot = ⟨accessorName view (start + k), false, view.datum s⟩ := by
  induction snapshots generalizing start with
  | nil =>
    constructor
    · intro h
      cases h
    · rintro ⟨k, s, view, hk, -⟩
      cases hk
  | cons first rest ih =>
    rw [slotsFrom, List.mem_append, mem_inputSlots, ih]
    constructor
    · rintro (⟨view, hview, rfl⟩ | ⟨k, s, view, hk, hview, rfl⟩)
      · exact ⟨0, first, view, rfl, hview, rfl⟩
      · refine ⟨k + 1, s, view, hk, hview, ?_⟩
        rw [Nat.add_assoc, Nat.add_comm 1 k]
    · rintro ⟨k, s, view, hk, hview, rfl⟩
      cases k with
      | zero =>
        obtain rfl := Option.some.inj hk
        exact .inl ⟨view, hview, rfl⟩
      | succ k =>
        refine .inr ⟨k, s, view, hk, hview, ?_⟩
        rw [Nat.add_assoc, Nat.add_comm 1 k]

/-- What is bound are the views of the inputs under their accessors. -/
theorem mem_bind {ε : Type} {r : Rule ε} (hlength : snapshots.length = r.inputCount) :
    slot ∈ r.bind snapshots ↔ ∃ k s view, snapshots[k]? = some s ∧ r.accessors.has view = true ∧
      slot = ⟨accessorName view k, false, view.datum s⟩ := by
  rw [bind, ← hlength, List.take_length, mem_slotsFrom]
  simp only [Nat.zero_add]

/-- The only item of a kind is the one that a search finds. -/
theorem find?_eq_some_of_only {α : Type} {p : α → Bool} {items : List α} {item : α}
    (hmem : item ∈ items) (hitem : p item = true)
    (honly : ∀ other ∈ items, p other = true → other = item) : items.find? p = some item := by
  cases hfound : items.find? p with
  | none => exact absurd hitem (List.find?_eq_none.mp hfound item hmem)
  | some other =>
    rw [honly other (List.mem_of_find?_eq_some hfound) (List.find?_some hfound)]

/-- An accessor of a view that occurs stands for that view of its input. -/
theorem find?_bind {ε : Type} {r : Rule ε} (hlength : snapshots.length = r.inputCount) {index : Nat}
    (hindex : snapshots[index]? = some s) (hview : r.accessors.has view = true) :
    (r.bind snapshots).find? (fun slot => slot.name = accessorName view index) =
      some ⟨accessorName view index, false, view.datum s⟩ := by
  refine find?_eq_some_of_only ((mem_bind hlength).mpr ⟨index, s, view, hindex, hview, rfl⟩)
    (decide_eq_true rfl) fun other hother hname => ?_
  obtain ⟨k, s', view', hk, -, rfl⟩ := (mem_bind hlength).mp hother
  obtain ⟨rfl, rfl⟩ := accessorName_inj (of_decide_eq_true hname)
  obtain rfl := Option.some.inj (hk.symm.trans hindex)
  rfl

end Slots

section Failures

variable {ε ς : Type} {evaluation : Evaluation ε ς} {rule : String} {failure : Failure}

/-- A failed result is that of a fault. -/
theorem resultOf_eq_error {result : Outcome (Except Fault (Option Value))}
    (h : resultOf rule result = .done (.error failure)) : ∃ fault, result = .done (.error fault) ∧
      failure = .within ("rule '" ++ rule ++ "'") (.script (.stopped fault)) := by
  obtain ⟨found, rfl, hfound⟩ := Outcome.bind_eq_done_iff.mp h
  cases found with
  | ok value => cases Outcome.done.inj hfound
  | error fault => exact ⟨fault, rfl, (Except.error.inj (Outcome.done.inj hfound)).symm⟩

/-- A failed output is that of a fault, unless its expression has no value. -/
theorem Action.value_eq_error {action : Action ε} {scope : ς}
    (h : action.value evaluation rule scope = .done (.error failure)) :
    failure = .rule (.noOutput rule) ∨ ∃ e ∈ action.expressions, ∃ fault,
      (evaluation scope e).1 = .done (.error fault) ∧
        failure = .within ("rule '" ++ rule ++ "'") (.script (.stopped fault)) := by
  cases action with
  | literal value => cases Outcome.done.inj h
  | expression e =>
    obtain ⟨found, hfound, h⟩ := Outcome.bind_eq_done_iff.mp h
    split at h
    · cases Outcome.done.inj h
    · exact .inl (Except.error.inj (Outcome.done.inj h)).symm
    · obtain rfl := Except.error.inj (Outcome.done.inj h)
      exact .inr ⟨e, List.mem_cons_self, resultOf_eq_error hfound⟩

/-- A failure of a chain is that of the fault of one of its expressions, in a
scope that those before it left, unless an output has no value. -/
theorem select_eq_error {Left : ς → Prop} {branches : List (Branch ε)}
    (hleft : ∀ b ∈ branches, ∀ scope, Left scope → Left (evaluation scope b.condition).2)
    {scope : ς} (hscope : Left scope)
    (h : select evaluation rule scope branches = .done (.error failure)) :
    failure = .rule (.noOutput rule) ∨
      ∃ b ∈ branches, ∃ e ∈ b.expressions, ∃ scope, Left scope ∧ ∃ fault,
        (evaluation scope e).1 = .done (.error fault) ∧
          failure = .within ("rule '" ++ rule ++ "'") (.script (.stopped fault)) := by
  induction branches generalizing scope with
  | nil => cases Outcome.done.inj h
  | cons branch rest ih =>
    -- The output and the remaining branches see the scope that the condition left.
    have hafter := hleft branch List.mem_cons_self scope hscope
    obtain ⟨found, hfound, h⟩ := Outcome.bind_eq_done_iff.mp h
    cases found with
    | error reported =>
      obtain rfl := Except.error.inj (Outcome.done.inj h)
      exact .inr ⟨branch, List.mem_cons_self, branch.condition, List.mem_cons_self, scope, hscope,
        resultOf_eq_error hfound⟩
    | ok value =>
      dsimp only at h
      split at h
      · obtain ⟨output, houtput, h⟩ := Outcome.bind_eq_done_iff.mp h
        cases output with
        | ok output => cases Outcome.done.inj h
        | error reported =>
          obtain rfl := Except.error.inj (Outcome.done.inj h)
          refine (Action.value_eq_error houtput).imp id ?_
          rintro ⟨e, he, fault, hfault⟩
          exact ⟨branch, List.mem_cons_self, e, List.mem_cons_of_mem _ he, _, hafter, fault, hfault⟩
      · refine (ih (fun b hb => hleft b (List.mem_cons_of_mem _ hb)) hafter h).imp id ?_
        rintro ⟨b, hb, hfailed⟩
        exact ⟨b, List.mem_cons_of_mem _ hb, hfailed⟩

end Failures

/-- Something occurs as an identifier in an expression of a declaration. -/
def Names (d : RuleDeclaration) (s : String) : Prop :=
  ∃ source ∈ sources d, Occurs s.toList source.toList

/-- Whether something occurs as an identifier can be computed. -/
instance (d : RuleDeclaration) (s : String) : Decidable (Names d s) :=
  decidable_of_iff (∃ source ∈ sources d, s.toList ∈ identifiers source.toList) <| by
    simp only [Names, mem_identifiers_iff]

/-- The failure of a rule whose evaluation meets a name that is not bound. -/
def unbound (rule s : String) : Failure :=
  .within ("rule '" ++ rule ++ "'") (.script (.stopped (.unknownVariable s)))

section Compiled

variable {L : Language} {limits : Script.Limits} {d : RuleDeclaration} {w : Widget}
  {r : Rule Expression} {snapshots : List Snapshot} {s : String}

/-- A fault of an evaluation is that of its expression. -/
theorem evaluate_eq_error {e : Expression} {scope : List Slot} {fault : Fault}
    (h : (expressionEvaluation scope e).1 = .done (.error fault)) :
    (e.evaluate scope).1 = .done (.error fault) := by
  change ((e.evaluate scope).1 >>= fun result => pure (result.map Datum.value?)) = _ at h
  obtain ⟨result, hresult, hmapped⟩ := Outcome.bind_eq_done_iff.mp h
  rw [hresult]
  cases result with
  | ok d => cases Outcome.done.inj hmapped
  | error found =>
    obtain rfl := Except.error.inj (Outcome.done.inj hmapped)
    rfl

/-- An evaluation has the results of the course of its expression; if the
program ends, the variables are as they were. -/
theorem evaluate_of_ensures {e : Expression} {scope : List Slot}
    {wanted : Except Fault Datum × List Slot → Prop} (h : (e.course scope).Ensures wanted) :
    e.evaluate scope = (.crash, scope) ∨
      ∃ result after, e.evaluate scope = (.done result, after) ∧ wanted (result, after) := by
  unfold Expression.evaluate
  cases hrun : (e.course scope).run expressionHost () with
  | crash => exact .inl rfl
  | done ended => exact .inr ⟨ended.1.1, ended.1.2, rfl, h.result hrun⟩

/-- An accessor that occurs in an accepted rule is known to the binder, and its
input is declared. -/
theorem declared_of_names {ε : Type} {parse : String → Except Problem ε} {r : Rule ε}
    (h : compile parse d w = .ok r) {view : View} {index : Nat}
    (hnames : Names d (accessorName view index)) (hindex : index < positionBound) :
    r.accessors.has view = true ∧ index < d.inputs.length := by
  obtain ⟨source, hsource, hoccurs⟩ := hnames
  obtain ⟨-, haccessors, -, hchecked, -⟩ := compile_spec h
  have hknows : (scanAll d).Knows view index :=
    knows_scanAll hsource (mem_identifiers_iff.mpr hoccurs) (accessor?_accessorName view hindex)
  rw [haccessors]
  exact ⟨hknows.1, index_lt_of_checkInputs hchecked hknows⟩

/-- An evaluation that fails at a name that is not bound meets a name of the
rule, which is none of those in scope. -/
theorem names_of_unbound (hspells : L.SpellsNames limits)
    (heval : ∀ source ∈ sources d, ¬Occurs "eval".toList source.toList)
    (h : compile (L.expression limits) d w = .ok r)
    (hfailed : r.evaluate expressionEvaluation snapshots = .done (.error (unbound r.name s))) :
    Names d s ∧ s ∉ (r.bind snapshots).map Slot.name := by
  have hsearches : ∀ b ∈ r.branches, ∀ e ∈ b.expressions, ∀ scope : List Slot,
      (e.evaluate scope).2.map Slot.name = scope.map Slot.name ∧
        ∀ s, (e.evaluate scope).1 = .done (.error (.unknownVariable s)) →
          Names d s ∧ s ∉ scope.map Slot.name := by
    intro b hb e he scope
    obtain ⟨source, hsource, hparse⟩ := parse_of_compile h (List.mem_flatMap.mpr ⟨b, hb, he⟩)
    rcases evaluate_of_ensures (hspells source e hparse (heval source hsource) scope) with
      hcrash | ⟨result, after, hdone, hscope, hmissed⟩
    · rw [hcrash]
      exact ⟨rfl, fun s hs => by cases hs⟩
    · rw [hdone]
      refine ⟨hscope, fun s hs => ?_⟩
      obtain ⟨hname, hnot⟩ := hmissed s (Outcome.done.inj hs)
      exact ⟨⟨source, hsource, hname⟩, hnot⟩
  have hleft : ∀ b ∈ r.branches, ∀ scope : List Slot,
      scope.map Slot.name = (r.bind snapshots).map Slot.name →
      (expressionEvaluation scope b.condition).2.map Slot.name =
        (r.bind snapshots).map Slot.name := by
    intro b hb scope hscope
    exact (hsearches b hb b.condition List.mem_cons_self scope).1.trans hscope
  rcases select_eq_error hleft rfl hfailed with
    hnone | ⟨b, hb, e, he, scope, hscope, fault, hfault, hsame⟩
  · cases hnone
  · obtain rfl : Fault.unknownVariable s = fault :=
      ScriptFault.stopped.inj (Failure.script.inj (Failure.within.inj hsame).2)
    rw [← hscope]
    exact (hsearches b hb e he scope).2 s (evaluate_eq_error hfault)

/-- An accepted rule binds every accessor that occurs in its expressions with a
position below the bound, to its view of its input. What it binds are accessors
of declared inputs and nothing else. In a language that looks up the names that
expressions spell, an evaluation that fails at a name that is not bound meets
another name: no accessor, or one beyond the bound. -/
theorem compile_binds (h : compile (L.expression limits) d w = .ok r)
    (hlength : snapshots.length = d.inputs.length) :
    (∀ view index, Names d (accessorName view index) → index < positionBound →
      ∃ snapshot, snapshots[index]? = some snapshot ∧
        (r.bind snapshots).find? (fun slot => slot.name = accessorName view index) =
          some ⟨accessorName view index, false, view.datum snapshot⟩) ∧
    (∀ slot ∈ r.bind snapshots, ∃ view index snapshot, snapshots[index]? = some snapshot ∧
      slot = ⟨accessorName view index, false, view.datum snapshot⟩) ∧
    (L.SpellsNames limits → (∀ source ∈ sources d, ¬Occurs "eval".toList source.toList) →
      ∀ s, r.evaluate expressionEvaluation snapshots = .done (.error (unbound r.name s)) →
        Names d s ∧ ∀ view index, s = accessorName view index → positionBound ≤ index) := by
  obtain ⟨-, -, hcount, -, -⟩ := compile_spec h
  have hall : snapshots.length = r.inputCount := hlength.trans hcount.symm
  have hbound : ∀ view index, Names d (accessorName view index) → index < positionBound →
      ∃ snapshot, snapshots[index]? = some snapshot ∧
        (r.bind snapshots).find? (fun slot => slot.name = accessorName view index) =
          some ⟨accessorName view index, false, view.datum snapshot⟩ := by
    intro view index hnames hindex
    obtain ⟨hhas, hdeclared⟩ := declared_of_names h hnames hindex
    have hsnapshot : index < snapshots.length := by rw [hlength]; exact hdeclared
    refine ⟨snapshots[index], List.getElem?_eq_getElem hsnapshot, ?_⟩
    exact find?_bind hall (List.getElem?_eq_getElem hsnapshot) hhas
  refine ⟨hbound, fun slot hslot => ?_, fun hspells heval s hfailed => ?_⟩
  · obtain ⟨index, snapshot, view, hsnapshot, -, hslot⟩ := (mem_bind hall).mp hslot
    exact ⟨view, index, snapshot, hsnapshot, hslot⟩
  · obtain ⟨hnames, hnot⟩ := names_of_unbound hspells heval h hfailed
    refine ⟨hnames, ?_⟩
    rintro view index rfl
    by_contra hless
    obtain ⟨snapshot, -, hfound⟩ := hbound view index hnames (Nat.lt_of_not_le hless)
    exact hnot (List.mem_map.mpr ⟨_, List.mem_of_find?_eq_some hfound, rfl⟩)

/-- A widget with a text. -/
def labelWidget : Widget where
  name := "panel"
  properties := [("label", ⟨.string, .text "", .text ""⟩)]

/-- A rule over two inputs with one condition. -/
def labelRule (condition : String) : RuleDeclaration where
  name := "high"
  property := "label"
  outputs := [⟨condition, "x"⟩]
  inputs := [{ name := "loc://a" }, { name := "loc://b" }]

/-- The states of the two inputs. -/
def labelSnapshots : List Snapshot :=
  [⟨"loc://a", some (.number 5), .noAlarm, none, none⟩,
    ⟨"loc://b", some (.number 7), .noAlarm, none, none⟩]

/-- The rule in the standard language. -/
def labelled (condition : String) : Except Failure (Rule Expression) :=
  compile (Language.standard.expression {}) (labelRule condition) labelWidget

/-- The number of the second input is bound to its accessor, and no evaluation
fails at an accessor that is not bound. -/
theorem compile_binds_second :
    ∃ r, labelled "pv1 > 0" = .ok r ∧
      (∃ snapshot, labelSnapshots[1]? = some snapshot ∧
        (r.bind labelSnapshots).find? (fun slot => slot.name = "pv1") =
          some ⟨"pv1", false, .float snapshot.number⟩) ∧
      ∀ s, r.evaluate expressionEvaluation labelSnapshots = .done (.error (unbound r.name s)) →
        Names (labelRule "pv1 > 0") s ∧
          ∀ view index, s = accessorName view index → positionBound ≤ index := by
  obtain ⟨r, hcompile, -⟩ := exceptOk_of_any (fun _ => true)
    (by decide +kernel : (labelled "pv1 > 0").toOption.any (fun _ => true) = true)
  have hlength : labelSnapshots.length = (labelRule "pv1 > 0").inputs.length := rfl
  have heval : ∀ source ∈ sources (labelRule "pv1 > 0"),
      "eval".toList ∉ identifiers source.toList := by decide +kernel
  obtain ⟨hbound, -, hfails⟩ := compile_binds hcompile hlength
  refine ⟨r, hcompile, hbound .numeric 1 (by decide +kernel) (by decide), ?_⟩
  exact hfails (spellsNames_standard {}) fun source hsource hoccurs =>
    heval source hsource (mem_identifiers_iff.mpr hoccurs)

/-- A rule that names something is accepted without binding it. -/
def LeavesUnbound (s : String) : Prop :=
  Names (labelRule (s ++ " > 0")) s ∧
    ∃ r, labelled (s ++ " > 0") = .ok r ∧
      (∀ slot ∈ r.bind labelSnapshots, slot.name ≠ s) ∧
      r.evaluate expressionEvaluation labelSnapshots = .done (.error (unbound r.name s))

/-- What is left unbound is found by running the rule. -/
theorem leavesUnbound_of_any (hnames : Names (labelRule (s ++ " > 0")) s)
    (h : ((labelled (s ++ " > 0")).toOption.any fun r =>
      decide (∀ slot ∈ r.bind labelSnapshots, slot.name ≠ s) &&
        decide (r.evaluate expressionEvaluation labelSnapshots =
          .done (.error (unbound r.name s)))) = true) : LeavesUnbound s := by
  obtain ⟨r, hcompile, hcheck⟩ := exceptOk_of_any _ h
  obtain ⟨hfree, hfailed⟩ := Bool.and_eq_true_iff.mp hcheck
  exact ⟨hnames, r, hcompile, of_decide_eq_true hfree, of_decide_eq_true hfailed⟩

/-- With a leading zero the position counts as that of an input, and a position
beyond the bound counts as none. The rules are accepted and the names not bound. -/
theorem compile_leaves_unbound :
    LeavesUnbound "pv01" ∧ LeavesUnbound "pv18446744073709551616" :=
  ⟨leavesUnbound_of_any (by decide +kernel) (by decide +kernel),
    leavesUnbound_of_any (by decide +kernel) (by decide +kernel)⟩

end Compiled

end ProcessDisplay.Rule
