import ProcessDisplay.Proofs.CompoundNesting
import ProcessDisplay.Proofs.TermNames
import ProcessDisplay.Proofs.TokenPassage
import ProcessDisplay.Script.Parser.Grammar

/-!
# The names in expressions

Where only a single expression is allowed, no term declares a variable, and
the variables of a term are among the names of the source. No name follows a
number directly, since an operand is followed by a mark or a word.
-/

namespace ProcessDisplay.Script

open ProcessDisplay.Script.Parser ProcessDisplay.Script.Parsing

variable {tokens : List Token} {goals : Goals} {place : Place}

/-- The names among some tokens. -/
def namesOf (tokens : List Token) (s : String) : Prop := .name s ∈ tokens

/-- Where a goal can begin. -/
def Goal.Begins (tokens : List Token) (p : Parsing) : Goal → Prop
  | .block => p.Reached tokens
  | .operators _ left => p.Reached tokens ∧ left.Over (namesOf tokens)
  | _ => p.Fresh tokens

/-- What a goal yields and where it leaves off. -/
def Goal.Ends (tokens : List Token) (t : Term) (p : Parsing) : Goal → Prop
  | .block => p.Fresh tokens ∧ t.Over (namesOf tokens)
  | .statement => True
  | _ => p.Reached tokens ∧ t.Over (namesOf tokens)

/-- Every goal of a grammar ends as it should where only expressions are allowed. -/
def Goals.Passing (tokens : List Token) (goals : Goals) : Prop :=
  ∀ goal place, place.isExpression = true →
    Leads (fun p => goal.Begins tokens p) (goals goal place) fun t p => goal.Ends tokens t p

variable {before : Parsing → Prop}

/-- An access to a term over some names. -/
theorem over_addAccess {names : String → Prop} {t : Term} {step : Access Term}
    (h : t.Over names)
    (hstep : ∀ u ∈ step.terms, u.Over names) : (addAccess t step).Over names := by
  unfold addAccess
  split
  · next root steps =>
    refine Term.over_of_children trivial fun u hu => ?_
    rw [Term.children, List.flatMap_append, ← List.cons_append, List.mem_append] at hu
    rcases hu with hold | hnew
    · exact h.child hold
    · exact hstep u (by simpa using hnew)
  · refine Term.over_of_children trivial fun u hu => ?_
    rcases List.mem_cons.mp hu with rfl | hnew
    · exact h
    · exact hstep u (by simpa using hnew)

/-- A check of a condition. -/
theorem leads_checkCondition {t : Term} : Leads before (checkCondition t) fun _ => before := by
  unfold checkCondition
  split
  all_goals first | exact leads_pure fun _ => id | exact leads_throw

/-- A check of an index. -/
theorem leads_checkIndex {base position : Term} :
    Leads before (checkIndex base position) fun _ => before := by
  unfold checkIndex
  repeat' split
  all_goals first | exact leads_pure fun _ => id | exact leads_throw

/-- A check of a target. -/
theorem leads_checkTarget {target : Term} :
    Leads before (checkTarget target) fun _ => before := by
  unfold checkTarget
  split
  · refine leads_get.bind fun p => ?_
    split
    · exact leads_throw
    · exact leads_pure fun _ => id
  · split
    · exact leads_throw
    · exact leads_pure fun _ => id
  · exact leads_throw

/-- The names of an operator are those of its operands. -/
theorem leads_joinOperands {names : String → Prop} {token : Token} {left right : Term}
    (hleft : left.Over names) (hright : right.Over names) :
    Leads before (joinOperands token left right) fun t p => before p ∧ t.Over names := by
  have haround : ∀ {t : Term}, t.IsPlain names → t.children = [left, right] →
      Leads before (pure t) fun t p => before p ∧ t.Over names :=
    fun hplain hchildren =>
      leads_pure fun _ hp => ⟨hp, Term.over_pair hplain hchildren hleft hright⟩
  unfold joinOperands
  split
  · exact haround trivial rfl
  · split
    · exact haround trivial rfl
    · split
      · exact leads_checkCondition.bind fun _ => leads_checkCondition.bind fun _ =>
          haround trivial rfl
      · split
        · exact leads_checkCondition.bind fun _ => leads_checkCondition.bind fun _ =>
            haround trivial rfl
        · split
          · exact haround trivial rfl
          · split
            · exact haround trivial rfl
            · exact leads_throw
  · exact leads_throw

namespace Goals.Passing

variable (h : goals.Passing tokens) (hplace : place.isExpression = true)

include h hplace

/-- An expression begins where a name may be next. -/
theorem expression : Leads (Fresh tokens) (goals .expression place) fun t p =>
    p.Reached tokens ∧ t.Over (namesOf tokens) := h .expression place hplace

/-- So does an operand. -/
theorem operand : Leads (Fresh tokens) (goals .operand place) fun t p =>
    p.Reached tokens ∧ t.Over (namesOf tokens) := h .operand place hplace

/-- So does the rest of a conditional. -/
theorem conditional : Leads (Fresh tokens) (goals .conditional place) fun t p =>
    p.Reached tokens ∧ t.Over (namesOf tokens) := h .conditional place hplace

/-- So does the code of a template. -/
theorem code : Leads (Fresh tokens) (goals .code place) fun t p =>
    p.Reached tokens ∧ t.Over (namesOf tokens) := h .code place hplace

/-- A block begins and ends with a brace. -/
theorem block : Leads (Reached tokens) (goals .block place) fun t p =>
    p.Fresh tokens ∧ t.Over (namesOf tokens) := h .block place hplace

/-- Operators follow an operand. -/
theorem operators {above : Nat} {left : Term} (hleft : left.Over (namesOf tokens)) :
    Leads (Reached tokens) (goals (.operators above left) place) fun t p =>
      p.Reached tokens ∧ t.Over (namesOf tokens) :=
  (h (.operators above left) place hplace).from fun _ hp => ⟨hp, hleft⟩

end Goals.Passing

/-- A literal of a case, which is no name. -/
theorem leads_caseValue : Leads (Reached tokens) caseValue fun _ => Reached tokens := by
  refine leads_next_plain.bind fun token => ?_
  split
  · exact leads_pure fun _ h => h rfl
  · exact leads_pure fun _ h => h rfl
  · exact leads_pure fun _ h => h rfl
  · exact leads_pure fun _ h => h rfl
  · split
    · exact leads_pure fun _ h => h rfl
    · split
      · exact leads_pure fun _ h => h rfl
      · exact leads_throw
  · split
    · exact (leads_expect fun _ h => h rfl).bind fun _ => leads_pure fun _ => Fresh.reached
    · exact leads_throw
  · exact leads_throw

/-- A pattern. -/
theorem leads_casePattern : Leads (Reached tokens) casePattern fun _ => Reached tokens := by
  refine leads_caseValue.bind fun first => leads_peek.bind fun head => ?_
  split
  · split
    · refine (leads_skip rfl rfl).bind fun _ => ?_
      refine (leads_caseValue.from fun _ => Fresh.reached).bind fun last => ?_
      split
      · exact leads_pure fun _ => id
      · exact leads_throw
    · exact leads_pure fun _ h => h.1
  · exact leads_pure fun _ h => h.1

/-- The patterns of a case. -/
theorem leads_casePatterns : Leads (Reached tokens) casePatterns fun _ => Reached tokens := by
  refine Leads.accept_bind rfl rfl (fun _ => id) ?_ ?_
  · exact leads_pure fun _ => Fresh.reached
  · refine leads_casePattern.bind fun first => ?_
    have hrest : Leads (Reached tokens) (collectAll do
        if ← accept (.mark "|") then return some (← casePattern) else return none)
        fun patterns p => p.Reached tokens ∧ ∀ pattern ∈ patterns, True := by
      refine Leads.collectAll ?_
      refine Leads.accept_bind rfl rfl (fun _ => id) ?_ ?_
      · refine (leads_casePattern.from fun _ => Fresh.reached).bind fun _ => ?_
        exact leads_pure fun _ h => ⟨h, fun _ _ => trivial⟩
      · exact leads_pure fun _ h => ⟨h, fun _ _ => trivial⟩
    exact hrest.bind fun _ => leads_pure fun _ h => h.1

/-- What has the precedence of an operator is no name. -/
theorem not_isName_of_precedence {head : Option Token} (h : precedence head ≠ 0) :
    head.any Token.isName = false := by
  rcases head with _ | token
  · rfl
  · cases token with
    | name s => exact absurd rfl h
    | _ => rfl

/-- What has the precedence of an operator is no number. -/
theorem not_isNumber_of_precedence {head : Option Token} (h : precedence head ≠ 0) :
    head.any Token.isNumber = false := by
  rcases head with _ | token
  · rfl
  · cases token with
    | integer n => exact absurd rfl h
    | float x => exact absurd rfl h
    | _ => rfl

/-- The comma after an item, which may be missing only before the closing mark. -/
theorem leads_comma {α : Type} {close : String} {item : α} {good : α → Prop} (hitem : good item) :
    Leads (Reached tokens) (do
      if (← peek) ≠ some (.mark close) then expect ","
      return some item) fun found p => p.Fresh tokens ∧ ∀ a, found = some a → good a := by
  have hyield : Leads (Fresh tokens) (pure (some item)) fun found p =>
      p.Fresh tokens ∧ ∀ a, found = some a → good a := by
    refine leads_pure fun p hp => ⟨hp, fun a ha => ?_⟩
    obtain rfl := Option.some.inj ha
    exact hitem
  refine leads_peek.bind fun head => ?_
  split
  · exact (leads_expect fun _ h => h.1).bind fun _ => hyield
  · next hclose =>
    refine hyield.from fun p hp => hp.1.fresh ?_
    rw [hp.2, not_not.mp hclose]
    rfl

section Rules

variable (hgoals : goals.Passing tokens) (hplace : place.isExpression = true)

include hgoals hplace

/-- Terms between commas, up to the closing mark. -/
theorem leads_separated {close : String} :
    Leads (Fresh tokens) (separated goals place close) fun items p =>
      p.Fresh tokens ∧ ∀ t ∈ items, t.Over (namesOf tokens) := by
  refine Leads.collectAll (Leads.accept_bind rfl rfl (fun _ => Fresh.reached) ?_ ?_)
  · exact leads_pure fun _ hp => ⟨hp, fun t ht => by cases ht⟩
  · refine (hgoals.expression hplace).bind fun item => leads_and fun hitem => ?_
    exact leads_comma hitem

/-- The entries of a map. -/
theorem leads_entries : Leads (Fresh tokens) (entries goals place) fun found p =>
    p.Fresh tokens ∧ ∀ entry ∈ found, entry.2.Over (namesOf tokens) := by
  have hentries : Leads (Fresh tokens) (collectAll do
      if ← accept (.mark "\x7d") then return none
      else do
        let name ← entryName
        expect ":"
        let value ← goals .expression place
        if (← peek) ≠ some (.mark "\x7d") then expect ","
        return some (name, value)) fun found p =>
      p.Fresh tokens ∧ ∀ entry ∈ found, entry.2.Over (namesOf tokens) := by
    refine Leads.collectAll (Leads.accept_bind rfl rfl (fun _ => Fresh.reached) ?_ ?_)
    · exact leads_pure fun _ hp => ⟨hp, fun entry hentry => by cases hentry⟩
    · have hname : Leads (Fresh tokens) entryName fun _ => Reached tokens := by
        refine leads_next.bind fun token => ?_
        split
        · exact leads_pure fun _ h => h.1.1
        · exact leads_pure fun _ h => h.1.1
        · exact leads_throw
      refine hname.bind fun name => (leads_expect fun _ => id).bind fun _ => ?_
      refine (hgoals.expression hplace).bind fun value => leads_and fun hvalue => ?_
      have hover : (fun entry : String × Term => entry.2.Over (namesOf tokens)) (name, value) :=
        hvalue
      exact leads_comma hover
  refine hentries.bind fun found => ?_
  split
  · exact leads_throw
  · exact leads_pure fun _ => id

/-- One piece of a template. -/
theorem leads_templateCode : Leads (Fresh tokens) (templateCode goals place) fun found p =>
    p.Fresh tokens ∧ ∀ piece, found = some piece → ∀ t ∈ piece, t.Over (namesOf tokens) := by
  refine leads_get.bind fun p => ?_
  split
  · exact leads_throw
  · refine leads_peek.bind fun head => ?_
    split
    · exact leads_pure fun _ hp => ⟨hp.1, fun piece hpiece => by cases hpiece⟩
    · refine ((hgoals.code hplace).from fun _ hp => hp.1).bind fun code => leads_and fun hcode => ?_
      refine leads_peek.bind fun head => ?_
      split
      · refine (leads_skip rfl rfl).bind fun _ => leads_pure fun p hp => ⟨hp, ?_⟩
        intro piece hpiece t ht
        obtain rfl := Option.some.inj hpiece
        rcases List.mem_cons.mp ht with rfl | hlast
        · exact hcode
        · obtain rfl := List.mem_singleton.mp hlast
          exact Term.over_literal
      · refine leads_pure fun p hp => ⟨hp.1.fresh (by rw [hp.2]; rfl), fun piece hpiece t ht => ?_⟩
        obtain rfl := Option.some.inj hpiece
        obtain rfl := List.mem_singleton.mp ht
        exact hcode
      · exact leads_throw

/-- The pieces of a template. -/
theorem leads_templatePieces : Leads (Fresh tokens) (templatePieces goals place) fun pieces p =>
    p.Fresh tokens ∧ ∀ t ∈ pieces, t.Over (namesOf tokens) := by
  refine (Leads.collectAll (leads_templateCode hgoals hplace)).bind fun found => ?_
  refine leads_and fun hfound => leads_next.bind fun token => ?_
  split
  · refine leads_pure fun p hp => ⟨hp.1.2 rfl, fun t ht => ?_⟩
    rcases List.mem_append.mp ht with hpiece | hlast
    · obtain ⟨piece, hpiece, ht⟩ := List.mem_flatten.mp hpiece
      exact hfound piece hpiece t ht
    · obtain rfl := List.mem_singleton.mp hlast
      exact Term.over_literal
  · exact leads_throw

/-- The cases of a selection. -/
theorem leads_cases : Leads (Reached tokens) (cases goals place) fun found p =>
    p.Reached tokens ∧ ∀ c ∈ found, ∀ t ∈ c.terms, t.Over (namesOf tokens) := by
  refine Leads.collectAll (Leads.accept_bind rfl rfl (fun _ => id) ?_ ?_)
  · exact leads_pure fun _ hp => ⟨hp.reached, fun c hc => by cases hc⟩
  · refine leads_casePatterns.bind fun patterns => (leads_accept rfl rfl).bind fun found => ?_
    extract_lets join
    have hjoin : ∀ guard : Option Term, (∀ t ∈ guard, t.Over (namesOf tokens)) →
        Leads (Reached tokens) (join guard) fun found p => p.Reached tokens ∧
          ∀ c, found = some c → ∀ t ∈ c.terms, t.Over (namesOf tokens) := by
      intro guard hguard
      refine (leads_expect fun _ => id).bind fun _ => ?_
      have hgoal : (if place.isExpression = true then Goal.expression else Goal.statement) =
          .expression := if_pos hplace
      rw [hgoal]
      refine (hgoals.expression hplace).bind fun result => leads_and fun hresult => ?_
      refine (leads_peek.imp (fun _ => id) fun _ _ hp => hp.1).bind fun head => ?_
      extract_lets closed join
      have hjoin : ∀ u, Leads (Reached tokens) (join u) fun found p => p.Reached tokens ∧
          ∀ c, found = some c → ∀ t ∈ c.terms, t.Over (namesOf tokens) := by
        refine fun u => leads_pure fun _ hp => ⟨hp, fun c hc t ht => ?_⟩
        obtain rfl := Option.some.inj hc
        rcases List.mem_append.mp ht with hguarded | hlast
        · exact hguard t (Option.mem_toList.mp hguarded)
        · obtain rfl := List.mem_singleton.mp hlast
          exact hresult
      split
      · refine Leads.bind
          ((leads_accept rfl rfl).imp (fun _ => id) fun _ _ hp => hp.1).discard fun _ => ?_
        refine leads_peek.bind fun head => ?_
        split
        · exact leads_throw_bind
        · exact (hjoin ()).from fun _ hp => hp.1
      · split
        · refine (leads_accept rfl rfl).bind fun found => ?_
          split
          · exact leads_throw_bind
          · exact (hjoin ()).from fun _ hp => hp.1
        · exact hjoin ()
    split
    · rw [pure_bind]
      exact (hjoin none fun t ht => by cases ht).from fun _ hp => hp.1
    · split
      · next hfound =>
        refine ((hgoals.expression hplace).from fun _ hp => hp.2 hfound).bind fun test => ?_
        refine leads_and fun htest => leads_checkCondition.bind fun _ => ?_
        rw [pure_bind]
        refine hjoin (some test) fun t ht => ?_
        obtain rfl := Option.some.inj ht
        exact htest
      · rw [pure_bind]
        exact (hjoin none fun t ht => by cases ht).from fun _ hp => hp.1

/-- A selection. -/
theorem leads_selection : Leads (Fresh tokens) (selection goals place) fun t p =>
    p.Reached tokens ∧ t.Over (namesOf tokens) := by
  refine leads_deeper.bind fun deep => leads_and fun hdeep => ?_
  have hdeep := hdeep.trans hplace
  refine (hgoals.expression hdeep).bind fun subject => leads_and fun hsubject => ?_
  refine (leads_expect fun _ => id).bind fun _ => ?_
  refine ((leads_cases hgoals hdeep).from fun _ => Fresh.reached).bind fun found => ?_
  refine leads_and fun hfound => leads_pure fun _ hp => ⟨hp, ?_⟩
  refine Term.over_of_children trivial fun u hu => ?_
  rcases List.mem_cons.mp hu with rfl | hcase
  · exact hsubject
  · obtain ⟨c, hc, hu⟩ := List.mem_flatMap.mp (mem_spreadCases hcase)
    exact hfound c hc u hu

/-- A conditional. -/
theorem leads_conditional : Leads (Fresh tokens) (conditional goals place) fun t p =>
    p.Reached tokens ∧ t.Over (namesOf tokens) := by
  refine leads_deeper.bind fun deep => leads_and fun hdeep => ?_
  have hdeep := hdeep.trans hplace
  refine (hgoals.expression hdeep).bind fun test => leads_and fun htest => ?_
  refine leads_checkCondition.bind fun _ => ?_
  refine (hgoals.block hdeep).bind fun yes => leads_and fun hyes => ?_
  have haround : ∀ no : Term, no.Over (namesOf tokens) →
      (Term.conditional test yes no).Over (namesOf tokens) := by
    intro no hno
    refine Term.over_of_children trivial fun u hu => ?_
    rcases List.mem_cons.mp hu with rfl | hu
    · exact htest
    · rcases List.mem_cons.mp hu with rfl | hu
      · exact hyes
      · obtain rfl := List.mem_singleton.mp hu
        exact hno
  refine Leads.accept_bind rfl rfl (fun _ => Fresh.reached) ?_ ?_
  · refine Leads.accept_bind rfl rfl (fun _ => Fresh.reached) ?_ ?_
    · refine (hgoals.conditional hdeep).bind fun no => leads_and fun hno => ?_
      exact leads_pure fun _ hp => ⟨hp, haround no hno⟩
    · refine ((hgoals.block hdeep).from fun _ => Fresh.reached).bind fun no => ?_
      exact leads_and fun hno => leads_pure fun _ hp => ⟨hp.reached, haround no hno⟩
  · refine leads_pure fun _ hp => ⟨hp.reached, haround _ ?_⟩
    exact Term.over_of_children trivial fun u hu => absurd hu List.not_mem_nil

/-- An operand without signs and accesses. -/
theorem leads_primary : Leads (Fresh tokens) (primary goals place) fun t p =>
    p.Reached tokens ∧ t.Over (namesOf tokens) := by
  have hliteral : ∀ {before : Parsing → Prop} {d : Datum}, (∀ p, before p → p.Reached tokens) →
      Leads before (pure (Term.literal d)) fun t p =>
        p.Reached tokens ∧ t.Over (namesOf tokens) :=
    fun h => leads_pure fun p hp => ⟨h p hp, Term.over_literal⟩
  refine leads_next.bind fun token => leads_and fun htoken => ?_
  split
  · exact hliteral fun _ hp => hp.1
  · exact hliteral fun _ hp => hp.1
  · exact hliteral fun _ hp => hp.1
  · exact hliteral fun _ hp => hp.1
  · refine leads_deeper.bind fun deep => leads_and fun hdeep => ?_
    refine ((leads_templatePieces hgoals (hdeep.trans hplace)).from fun _ hp => hp.2 rfl).bind
      fun pieces => leads_and fun hpieces => leads_pure fun _ hp => ⟨hp.reached, ?_⟩
    refine Term.over_of_children trivial fun u hu => ?_
    rcases List.mem_cons.mp hu with rfl | hpiece
    · exact Term.over_literal
    · exact hpieces u hpiece
  · next s =>
    refine Leads.accept_bind rfl rfl (fun _ hp => hp.1) ?_ ?_
    · refine leads_deeper.bind fun deep => leads_and fun hdeep => ?_
      refine (leads_separated hgoals (hdeep.trans hplace)).bind fun items => ?_
      refine leads_and fun hitems => leads_pure fun _ hp => ⟨hp.reached, ?_⟩
      exact Term.over_of_children trivial hitems
    · refine leads_pure fun _ hp => ⟨hp.1, ?_⟩
      exact Term.over_of_children htoken fun u hu => absurd hu List.not_mem_nil
  · split
    · exact hliteral fun _ hp => hp.1
    · split
      · exact hliteral fun _ hp => hp.1
      · split
        · exact (leads_conditional hgoals hplace).from fun _ hp => hp.2 rfl
        · split
          · exact (leads_selection hgoals hplace).from fun _ hp => hp.2 rfl
          · split
            · next rule hrule =>
              rw [loop?, if_pos hplace] at hrule
              cases hrule
            · exact leads_throw
  · split
    · refine Leads.accept_bind rfl rfl (fun _ hp => hp.1) ?_ ?_
      · exact hliteral fun _ hp => hp.reached
      · refine leads_deeper.bind fun deep => leads_and fun hdeep => ?_
        refine ((hgoals.expression (hdeep.trans hplace)).from fun _ hp => hp.2 rfl).bind
          fun inner => leads_and fun hinner => ?_
        refine (leads_expect fun _ => id).bind fun _ => ?_
        exact leads_pure fun _ hp => ⟨hp.reached, hinner⟩
    · split
      · refine leads_deeper.bind fun deep => leads_and fun hdeep => ?_
        refine ((leads_separated hgoals (hdeep.trans hplace)).from fun _ hp => hp.2 rfl).bind
          fun items => leads_and fun hitems => ?_
        extract_lets join
        split
        · exact leads_throw_bind
        · refine leads_pure fun _ hp => ⟨hp.reached, ?_⟩
          exact Term.over_of_children trivial hitems
      · split
        · refine leads_deeper.bind fun deep => leads_and fun hdeep => ?_
          refine ((leads_entries hgoals (hdeep.trans hplace)).from fun _ hp => hp.2 rfl).bind
            fun found => leads_and fun hfound => ?_
          extract_lets join
          split
          · exact leads_throw_bind
          · refine leads_pure fun _ hp => ⟨hp.reached, ?_⟩
            refine Term.over_of_children trivial fun u hu => ?_
            obtain ⟨entry, hentry, rfl⟩ := List.mem_map.mp hu
            exact hfound entry hentry
        · split
          · next hopens =>
            rw [hplace] at hopens
            cases hopens.2
          · exact leads_throw
  · exact leads_throw

/-- One access after a term. -/
theorem leads_access {base : Term} : Leads (Reached tokens) (access? goals place base)
    fun step p => p.Reached tokens ∧
      ∀ a, step = some a → ∀ u ∈ a.terms, u.Over (namesOf tokens) := by
  refine Leads.accept_bind rfl rfl (fun _ => id) ?_ (Leads.accept_bind rfl rfl (fun _ => id) ?_ ?_)
  · refine leads_deeper.bind fun deep => leads_and fun hdeep => ?_
    refine (hgoals.expression (hdeep.trans hplace)).bind fun position => ?_
    refine leads_and fun hposition => leads_checkIndex.bind fun _ => ?_
    refine (leads_expect fun _ => id).bind fun _ => leads_pure fun _ hp => ⟨hp.reached, ?_⟩
    intro a ha u hu
    obtain rfl := Option.some.inj ha
    obtain rfl := List.mem_singleton.mp hu
    exact hposition
  · refine leads_expectName.bind fun name => ?_
    refine Leads.accept_bind rfl rfl (fun _ => Fresh.reached) ?_ ?_
    · refine leads_deeper.bind fun deep => leads_and fun hdeep => ?_
      refine (leads_separated hgoals (hdeep.trans hplace)).bind fun items => ?_
      refine leads_and fun hitems => leads_pure fun _ hp => ⟨hp.reached, fun a ha u hu => ?_⟩
      obtain rfl := Option.some.inj ha
      exact hitems u hu
    · refine leads_pure fun _ hp => ⟨hp.reached, fun a ha u hu => ?_⟩
      obtain rfl := Option.some.inj ha
      cases hu
  · exact leads_pure fun _ hp => ⟨hp, fun a ha => by cases ha⟩

/-- The accesses after a term. -/
theorem leads_accesses (fuel : Nat) {base : Term} (hbase : base.Over (namesOf tokens)) :
    Leads (Reached tokens) (accesses goals place fuel base) fun t p =>
      p.Reached tokens ∧ t.Over (namesOf tokens) := by
  induction fuel generalizing base with
  | zero => exact leads_pure fun _ hp => ⟨hp, hbase⟩
  | succ fuel ih =>
    refine (leads_access hgoals hplace).bind fun step => leads_and fun hstep => ?_
    cases step with
    | none => exact leads_pure fun _ hp => ⟨hp, hbase⟩
    | some a => exact ih (over_addAccess hbase (hstep a rfl))

/-- An operand. -/
theorem leads_operand : Leads (Fresh tokens) (operand goals place) fun t p =>
    p.Reached tokens ∧ t.Over (namesOf tokens) := by
  have hyield : ∀ t : Term, t.Over (namesOf tokens) → Leads (Reached tokens) (pure t) fun t p =>
      p.Reached tokens ∧ t.Over (namesOf tokens) :=
    fun t ht => leads_pure fun _ hp => ⟨hp, ht⟩
  have hsigned : ∀ (symbol : String) (inner : Term), inner.Over (namesOf tokens) →
      (Term.unary symbol inner).Over (namesOf tokens) :=
    fun symbol inner => Term.over_single trivial rfl
  refine Leads.accept_bind rfl rfl (fun _ => Fresh.reached) ?_ ?_
  · refine leads_deeper.bind fun deep => leads_and fun hdeep => ?_
    refine (hgoals.operand (hdeep.trans hplace)).bind fun inner => leads_and fun hinner => ?_
    split
    · split
      · exact hyield _ Term.over_literal
      · exact hyield _ Term.over_literal
    · exact hyield _ Term.over_literal
    · exact hyield _ (hsigned "-" _ hinner)
  · refine Leads.accept_bind rfl rfl (fun _ => Fresh.reached) ?_ ?_
    · refine leads_deeper.bind fun deep => leads_and fun hdeep => ?_
      refine (hgoals.operand (hdeep.trans hplace)).bind fun inner => leads_and fun hinner => ?_
      split
      · exact hyield _ Term.over_literal
      · exact hyield _ Term.over_literal
      · exact hyield _ (hsigned "+" _ hinner)
    · refine Leads.accept_bind rfl rfl (fun _ => Fresh.reached) ?_ ?_
      · refine leads_deeper.bind fun deep => leads_and fun hdeep => ?_
        refine (hgoals.operand (hdeep.trans hplace)).bind fun inner => leads_and fun hinner => ?_
        exact hyield _ (hsigned "!" _ hinner)
      · refine (leads_primary hgoals hplace).bind fun base => leads_and fun hbase => ?_
        exact leads_get.bind fun p => leads_accesses hgoals hplace _ hbase

/-- The operators after a left operand. -/
theorem leads_operators {above : Nat} {left : Term} (hleft : left.Over (namesOf tokens)) :
    Leads (Reached tokens) (operators goals place above left) fun t p =>
      p.Reached tokens ∧ t.Over (namesOf tokens) := by
  refine leads_deeper.bind fun deep => leads_and fun hdeep => ?_
  have hdeep := hdeep.trans hplace
  refine leads_peek.bind fun head => ?_
  extract_lets current
  split
  · exact leads_pure fun _ hp => ⟨hp.1, hleft⟩
  · next hbinds =>
    have hoperator : precedence head ≠ 0 := by
      intro hzero
      simp [current, hzero] at hbinds
    refine (leads_next_between (not_isName_of_precedence hoperator)
      (not_isNumber_of_precedence hoperator)).bind fun token => ?_
    refine (hgoals.operand hdeep).bind fun right => leads_and fun hright => ?_
    refine (leads_peek.imp (fun _ => id) fun _ _ hp => hp.1).bind fun following => ?_
    extract_lets precedence join
    have hjoin : ∀ right : Term, right.Over (namesOf tokens) →
        Leads (Reached tokens) (join right) fun t p =>
          p.Reached tokens ∧ t.Over (namesOf tokens) := by
      intro right hright
      refine (leads_joinOperands hleft hright).bind fun joined => leads_and fun hjoined => ?_
      exact hgoals.operators hdeep hjoined
    split
    · refine (hgoals.operators hdeep hright).bind fun more => leads_and fun hmore => ?_
      exact hjoin more hmore
    · rw [pure_bind]
      exact hjoin right hright

/-- An expression. -/
theorem leads_expression : Leads (Fresh tokens) (expression goals place) fun t p =>
    p.Reached tokens ∧ t.Over (namesOf tokens) := by
  refine leads_deeper.bind fun deep => leads_and fun hdeep => ?_
  refine (hgoals.operand (hdeep.trans hplace)).bind fun left => leads_and fun hleft => ?_
  exact hgoals.operators (hdeep.trans hplace) hleft

/-- An expression or an assignment. -/
theorem leads_assignment : Leads (Fresh tokens) (assignment goals place) fun t p =>
    p.Reached tokens ∧ t.Over (namesOf tokens) := by
  refine (hgoals.expression hplace).bind fun target => leads_and fun htarget => ?_
  refine leads_peek.bind fun head => ?_
  split
  · split
    · refine (leads_skip rfl rfl).bind fun _ => leads_checkTarget.bind fun _ => ?_
      refine (hgoals.expression hplace).bind fun value => leads_and fun hvalue => ?_
      exact leads_pure fun _ hp => ⟨hp, Term.over_pair trivial rfl htarget hvalue⟩
    · exact leads_pure fun _ hp => ⟨hp.1, htarget⟩
  · exact leads_pure fun _ hp => ⟨hp.1, htarget⟩

/-- A block, which holds a single expression. -/
theorem leads_block : Leads (Reached tokens) (block goals place) fun t p =>
    p.Fresh tokens ∧ t.Over (namesOf tokens) := by
  refine (leads_expect fun _ => id).bind fun _ => ?_
  refine leads_deeper.bind fun deep => leads_and fun hdeep => ?_
  have hdeep := hdeep.trans hplace
  extract_lets join
  rw [if_pos hdeep]
  refine (leads_assignment hgoals hdeep).bind fun body => leads_and fun hbody => ?_
  rw [pure_bind]
  refine (leads_expect fun _ => id).bind fun _ => leads_pure fun _ hp => ⟨hp, ?_⟩
  exact Term.over_single trivial rfl (Term.over_single trivial rfl hbody)

/-- The code of a template, which is a single expression. -/
theorem leads_code : Leads (Fresh tokens) (code goals place) fun t p =>
    p.Reached tokens ∧ t.Over (namesOf tokens) := by
  refine leads_deeper.bind fun deep => leads_and fun hdeep => ?_
  have hdeep := hdeep.trans hplace
  rw [if_pos hdeep]
  refine (leads_assignment hgoals hdeep).bind fun body => leads_and fun hbody => ?_
  have hcode : (Term.statement body).Over (namesOf tokens) := Term.over_single trivial rfl hbody
  exact leads_pure fun _ hp => ⟨hp, Term.over_single trivial rfl hcode⟩

end Rules

/-- Every rule ends as it should if the goals inside it do. -/
theorem passing_rule (hgoals : goals.Passing tokens) : Goals.Passing tokens (rule goals) := by
  intro goal place hplace
  cases goal with
  | expression => exact leads_expression hgoals hplace
  | operand => exact leads_operand hgoals hplace
  | operators above left =>
    exact leads_and fun hleft => leads_operators hgoals hplace hleft
  | statement => exact fun _ _ _ _ _ => trivial
  | block => exact leads_block hgoals hplace
  | conditional => exact leads_conditional hgoals hplace
  | code => exact leads_code hgoals hplace

/-- The grammar ends as it should. -/
theorem passing_grammar (fuel : Nat) : Goals.Passing tokens (grammar fuel) := by
  induction fuel with
  | zero => exact fun goal place _ => leads_throw
  | succ fuel ih => exact passing_rule ih

/-- In an expression no name follows a number directly, and its term is over
the names of its tokens. -/
theorem names_of_parseExpression {limits : Limits} {source : String} {program : Program}
    (h : Program.parseExpression limits source = .ok program) :
    ∃ tokens, lex limits source = .ok tokens ∧ Apart tokens ∧
      ∃ t : Term, t.Over (namesOf tokens) ∧ program = ⟨[t], [], source.length⟩ := by
  obtain ⟨tokens, hlex, h⟩ := exceptBind_eq_ok_iff.mp h
  obtain ⟨⟨found, rest⟩, hexpression, h⟩ := exceptBind_eq_ok_iff.mp h
  have hbegin : Fresh tokens { tokens } := ⟨[], rfl, apart_take_one _⟩
  obtain ⟨⟨taken, htokens, hapart⟩, hover⟩ :=
    (passing_grammar (nesting tokens)).expression rfl _ _ _ hbegin hexpression
  dsimp only at h htokens
  split at h
  · next hempty =>
    obtain rfl := Except.ok.inj h
    rw [List.isEmpty_iff.mp hempty, List.append_nil] at htokens
    rw [htokens] at hapart
    exact ⟨tokens, hlex, hapart, found, hover, rfl⟩
  · cases h

end ProcessDisplay.Script
