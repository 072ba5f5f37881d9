import Mathlib.Tactic.Common
import ProcessDisplay.Proofs.ParserYields
import ProcessDisplay.Script.Parser.Expression

/-!
# The nesting of compound terms

Around one token at most four terms nest: every rule that takes a token
builds a few terms, and goals that are entered without taking a token build
none. Here are the rows, selections, conditionals and loops, which are built
from the terms of other goals.
-/

namespace ProcessDisplay.Script

open ProcessDisplay.Script.Parser

/-- What a goal promises of a term for which it took so many tokens. -/
def Goal.Promises (n : Nat) (t : Term) : Goal → Prop
  | .expression | .operand | .block | .conditional => t.FitsOperand (4 * n)
  | .operators _ left => ∀ depth, left.FitsOperand depth → t.FitsOperand (depth + 4 * n)
  | .statement => t.isStatement = true ∧ t.Fits (4 * n + 1)
  | .code => t.FitsOperand (4 * n + 2)

/-- Every goal of a grammar keeps its promise. -/
def Goals.Bounded (total : Nat) (goals : Goals) : Prop :=
  ∀ goal place, Yields total (goals goal place) fun n t => goal.Promises n t

variable {total : Nat} {goals : Goals} {place : Place}

/-- A rule that is chosen is the first one or one of the others. -/
theorem eq_or_of_ite {α : Type} {chosen : Prop} [Decidable chosen] {a b : α} {others : Option α}
    (h : (if chosen then some a else others) = some b) : a = b ∨ others = some b := by
  by_cases hchosen : chosen
  · rw [if_pos hchosen] at h
    exact Or.inl (Option.some.inj h)
  · rw [if_neg hchosen] at h
    exact Or.inr h

/-- A check of a condition takes nothing. -/
theorem yields_checkCondition {t : Term} :
    Yields total (checkCondition t) fun n _ => n = 0 := by
  unfold checkCondition
  split
  all_goals first | exact yields_pure rfl | exact yields_throw

/-- A check of a source of elements takes nothing. -/
theorem yields_checkIterable {t : Term} :
    Yields total (checkIterable t) fun n _ => n = 0 := by
  unfold checkIterable
  split
  all_goals first | exact yields_pure rfl | exact yields_throw

/-- A check of an index takes nothing. -/
theorem yields_checkIndex {base position : Term} :
    Yields total (checkIndex base position) fun n _ => n = 0 := by
  unfold checkIndex
  repeat' split
  all_goals first | exact yields_pure rfl | exact yields_throw

/-- A check of a target takes nothing. -/
theorem yields_checkTarget {target : Term} :
    Yields total (checkTarget target) fun n _ => n = 0 := by
  unfold checkTarget
  split
  · refine yields_get.bind fun n p _ hn => ?_
    split
    · exact yields_throw
    · exact yields_pure hn
  · split
    · exact yields_throw
    · exact yields_pure rfl
  · exact yields_throw

/-- An operator is around its operands. -/
theorem yields_joinOperands {token : Token} {left right : Term} :
    Yields total (joinOperands token left right) fun n t => n = 0 ∧
      ∀ depth, left.FitsOperand depth → right.FitsOperand depth → t.FitsOperand (depth + 1) := by
  have haround : ∀ {t : Term} {depth : Nat}, t.isStatement = false → t.IsProper →
      t.children = [left, right] → left.FitsOperand depth → right.FitsOperand depth →
      t.FitsOperand (depth + 1) := by
    intro t depth hoperand hproper hchildren hleft hright
    exact Term.fitsOperand_pair hoperand hproper hchildren hleft.2 hright.2 (by omega) (by omega)
  unfold joinOperands
  split
  · exact yields_pure ⟨rfl, fun _ => haround rfl trivial rfl⟩
  · split
    · exact yields_pure ⟨rfl, fun _ => haround rfl trivial rfl⟩
    · split
      · refine yields_checkCondition.bind fun n _ _ hn => ?_
        refine yields_checkCondition.bind fun m _ _ hm => ?_
        exact yields_pure ⟨by omega, fun _ => haround rfl trivial rfl⟩
      · split
        · refine yields_checkCondition.bind fun n _ _ hn => ?_
          refine yields_checkCondition.bind fun m _ _ hm => ?_
          exact yields_pure ⟨by omega, fun _ => haround rfl trivial rfl⟩
        · split
          · exact yields_pure ⟨rfl, fun _ => haround rfl trivial rfl⟩
          · split
            · exact yields_pure ⟨rfl, fun _ => haround rfl trivial rfl⟩
            · exact yields_throw
  · exact yields_throw

/-- Rows of operands may take more tokens. -/
theorem fitsOperand_mono (n m : Nat) (t : Term) (h : t.FitsOperand (4 * n)) (hm : n ≤ m) :
    t.FitsOperand (4 * m) :=
  h.mono (by omega)

/-- A name of an entry is taken. -/
theorem yields_entryName : Yields total entryName fun n _ => n = 1 := by
  refine yields_next.bind fun n token _ hn => ?_
  split
  · exact yields_pure hn
  · exact yields_pure hn
  · exact yields_throw

/-- A literal of a case is taken. -/
theorem yields_caseValue : Yields total caseValue fun _ _ => True := by
  refine yields_next.bind fun n token _ _ => ?_
  split
  · exact yields_pure trivial
  · exact yields_pure trivial
  · exact yields_pure trivial
  · exact yields_pure trivial
  · split
    · exact yields_pure trivial
    · split
      · exact yields_pure trivial
      · exact yields_throw
  · split
    · refine yields_expect.bind fun _ _ _ _ => ?_
      exact yields_pure trivial
    · exact yields_throw
  · exact yields_throw

/-- A pattern is taken. -/
theorem yields_casePattern : Yields total casePattern fun _ _ => True := by
  refine yields_caseValue.bind fun n first _ _ => ?_
  refine yields_peek.bind fun m token _ _ => ?_
  split
  · split
    · refine yields_skip.bind fun k _ _ _ => ?_
      refine yields_caseValue.bind fun l last _ _ => ?_
      split
      · exact yields_pure trivial
      · exact yields_throw
    · exact yields_pure trivial
  · exact yields_pure trivial

/-- The patterns of a case are taken. -/
theorem yields_casePatterns : Yields total casePatterns fun _ _ => True := by
  refine yields_accept.bind fun n found _ _ => ?_
  cases found with
  | true => exact yields_pure trivial
  | false =>
    refine yields_casePattern.bind fun m first _ _ => ?_
    have hrest : Yields total (do
        if ← accept (.mark "|") then return some (← casePattern) else return none)
        fun _ _ => True := by
      refine yields_accept.bind fun k found _ _ => ?_
      cases found with
      | true =>
        refine yields_casePattern.bind fun _ _ _ _ => ?_
        exact yields_pure trivial
      | false => exact yields_pure trivial
    refine (yields_row hrest).bind fun _ _ _ _ => ?_
    exact yields_pure trivial

/-- A spread selection has the terms of its cases. -/
theorem mem_spreadCases {longMet : Bool} {cases : List (Case Term)} {t : Term}
    (h : t ∈ (spreadCases longMet cases).flatMap Case.terms) : t ∈ cases.flatMap Case.terms := by
  induction cases generalizing longMet with
  | nil => exact h
  | cons c rest ih =>
    rw [spreadCases, List.flatMap_cons, List.mem_append] at h
    rw [List.flatMap_cons, List.mem_append]
    exact h.imp id ih

section Rules

variable (hgoals : goals.Bounded total)

include hgoals

/-- Terms between commas. -/
theorem yields_separated {close : String} :
    Yields total (separated goals place close) fun n items =>
      ∀ t ∈ items, t.FitsOperand (4 * n) := by
  refine Yields.collectAll fitsOperand_mono ?_
  refine yields_accept.bind fun n found _ _ => ?_
  cases found with
  | true => exact yields_pure fun t ht => by cases ht
  | false =>
    refine (hgoals .expression place).bind fun m item _ hitem => ?_
    refine yields_peek.bind fun k token _ _ => ?_
    have hitem : item.FitsOperand (4 * m) := hitem
    split
    · refine yields_expect.bind fun l _ _ _ => ?_
      refine yields_pure fun t ht => ?_
      obtain rfl := Option.some.inj ht
      exact hitem.mono (by omega)
    · refine yields_pure fun t ht => ?_
      obtain rfl := Option.some.inj ht
      exact hitem.mono (by omega)

/-- The terms of the entries of a map. -/
theorem yields_entries : Yields total (entries goals place) fun n found =>
    ∀ entry ∈ found, entry.2.FitsOperand (4 * n) := by
  have hentries : Yields total (collectAll do
      if ← accept (.mark "\x7d") then return none
      else do
        let name ← entryName
        expect ":"
        let value ← goals .expression place
        if (← peek) ≠ some (.mark "\x7d") then expect ","
        return some (name, value)) fun n found =>
      ∀ entry ∈ found, entry.2.FitsOperand (4 * n) := by
    refine Yields.collectAll (fun n m entry h hm => fitsOperand_mono n m entry.2 h hm) ?_
    refine yields_accept.bind fun n found _ _ => ?_
    cases found with
    | true => exact yields_pure fun entry hentry => by cases hentry
    | false =>
      refine yields_entryName.bind fun m name _ _ => ?_
      refine yields_expect.bind fun k _ _ _ => ?_
      refine (hgoals .expression place).bind fun l value _ hvalue => ?_
      have hvalue : value.FitsOperand (4 * l) := hvalue
      refine yields_peek.bind fun j token _ _ => ?_
      split
      · refine yields_expect.bind fun _ _ _ _ => ?_
        refine yields_pure fun entry hentry => ?_
        obtain rfl := Option.some.inj hentry
        exact hvalue.mono (by omega)
      · refine yields_pure fun entry hentry => ?_
        obtain rfl := Option.some.inj hentry
        exact hvalue.mono (by omega)
  refine hentries.bind fun n found _ hfound => ?_
  split
  · exact yields_throw
  · exact yields_pure hfound

/-- The terms of one piece of a template. -/
theorem yields_templateCode : Yields total (templateCode goals place) fun n found =>
    ∀ piece, found = some piece → ∀ t ∈ piece, t.FitsOperand (4 * n + 2) := by
  refine yields_get.bind fun n p _ _ => ?_
  split
  · exact yields_throw
  · refine yields_peek.bind fun m token _ _ => ?_
    split
    · exact yields_pure fun piece hpiece => by cases hpiece
    · refine (hgoals .code place).bind fun k code _ hcode => ?_
      have hcode : code.FitsOperand (4 * k + 2) := hcode
      refine yields_peek.bind fun l token _ _ => ?_
      split
      · refine yields_skip.bind fun j _ _ _ => ?_
        refine yields_pure fun piece hpiece t ht => ?_
        obtain rfl := Option.some.inj hpiece
        rcases List.mem_cons.mp ht with rfl | hlast
        · exact hcode.mono (by omega)
        · obtain rfl := List.mem_singleton.mp hlast
          exact Term.fitsOperand_literal (by omega)
      · refine yields_pure fun piece hpiece t ht => ?_
        obtain rfl := Option.some.inj hpiece
        obtain rfl := List.mem_singleton.mp ht
        exact hcode.mono (by omega)
      · exact yields_throw

/-- The terms between the texts of a template. -/
theorem yields_templatePieces : Yields total (templatePieces goals place) fun n pieces =>
    ∀ t ∈ pieces, t.FitsOperand (4 * n + 2) := by
  have hpieces : Yields total (collectAll (templateCode goals place)) fun n found =>
      ∀ piece ∈ found, ∀ t ∈ piece, t.FitsOperand (4 * n + 2) :=
    Yields.collectAll (fun n m piece h hm t ht => (h t ht).mono (by omega))
      (yields_templateCode hgoals)
  refine hpieces.bind fun n pieces _ hfound => ?_
  refine yields_next.bind fun m token _ _ => ?_
  split
  · refine yields_pure fun t ht => ?_
    rcases List.mem_append.mp ht with hpiece | hlast
    · obtain ⟨piece, hpiece, ht⟩ := List.mem_flatten.mp hpiece
      exact (hfound piece hpiece t ht).mono (by omega)
    · obtain rfl := List.mem_singleton.mp hlast
      exact Term.fitsOperand_literal (by omega)
  · exact yields_throw

/-- The terms of the cases of a selection. -/
theorem yields_cases : Yields total (cases goals place) fun n found =>
    ∀ c ∈ found, ∀ t ∈ c.terms, t.Fits (4 * n + 1) := by
  refine Yields.collectAll (fun n m c h hm t ht => (h t ht).mono (by omega)) ?_
  refine yields_accept.bind fun n found _ _ => ?_
  cases found with
  | true => exact yields_pure fun c hc => by cases hc
  | false =>
    refine yields_casePatterns.bind fun m patterns _ _ => ?_
    refine yields_accept.bind fun k found _ _ => ?_
    extract_lets join
    have hjoin : ∀ (l : Nat) (guard : Option Term), (∀ t ∈ guard, t.Fits (4 * l)) →
        Yields total (join guard) fun n found =>
          ∀ c, found = some c → ∀ t ∈ c.terms, t.Fits (4 * (l + n) + 1) := by
      intro l guard hguard
      refine yields_expect.bind fun n₁ _ _ _ => ?_
      refine (hgoals _ place).bind fun n₂ result _ hresult => ?_
      have hresult : result.Fits (4 * n₂ + 1) := by
        split at hresult
        · exact hresult.2.mono (by omega)
        · exact hresult.2
      refine yields_peek.bind fun n₃ token _ _ => ?_
      extract_lets closed join
      have hjoin : ∀ (n₄ : Nat) (u : Unit), Yields total (join u) fun n found =>
          ∀ c, found = some c →
            ∀ t ∈ c.terms, t.Fits (4 * (l + (n₁ + (n₂ + (n₃ + (n₄ + n))))) + 1) := by
        intro n₄ u
        refine yields_pure fun c hc t ht => ?_
        obtain rfl := Option.some.inj hc
        rcases List.mem_append.mp ht with hguarded | hlast
        · exact (hguard t (Option.mem_toList.mp hguarded)).mono (by omega)
        · obtain rfl := List.mem_singleton.mp hlast
          exact hresult.mono (by omega)
      split
      · refine (yields_discard yields_accept).bind fun n₄ _ _ _ => ?_
        refine yields_peek.bind fun n₅ token _ _ => ?_
        split
        · exact yields_throw_bind
        · refine (hjoin (n₄ + n₅) ()).imp fun n₆ found hfound c hc t ht => ?_
          exact (hfound c hc t ht).mono (by omega)
      · split
        · refine yields_accept.bind fun n₄ found _ _ => ?_
          split
          · exact yields_throw_bind
          · refine (hjoin n₄ ()).imp fun n₅ found hfound c hc t ht => ?_
            exact (hfound c hc t ht).mono (by omega)
        · refine (hjoin 0 ()).imp fun n₅ found hfound c hc t ht => ?_
          exact (hfound c hc t ht).mono (by omega)
    have hnone : ∀ t ∈ (none : Option Term), t.Fits (4 * 0) := fun t ht => by cases ht
    split
    · refine (hjoin 0 none hnone).imp fun n₁ found hfound c hc t ht => ?_
      exact (hfound c hc t ht).mono (by omega)
    · split
      · refine (hgoals .expression place).bind fun l condition _ hcondition => ?_
        have hcondition : condition.FitsOperand (4 * l) := hcondition
        refine yields_checkCondition.bind fun _ _ _ _ => ?_
        refine (hjoin l (some condition) ?_).imp fun n₁ found hfound c hc t ht => ?_
        · rintro t ht
          obtain rfl := Option.some.inj ht
          exact hcondition.2
        · exact (hfound c hc t ht).mono (by omega)
      · refine (hjoin 0 none hnone).imp fun n₁ found hfound c hc t ht => ?_
        exact (hfound c hc t ht).mono (by omega)

/-- A selection. -/
theorem yields_selection : Yields total (selection goals place) fun n t =>
    t.FitsOperand (4 * n) := by
  refine yields_deeper.bind fun n₁ place _ _ => ?_
  refine (hgoals .expression place).bind fun n₂ subject _ hsubject => ?_
  refine yields_expect.bind fun n₃ _ _ hbrace => ?_
  refine (yields_cases hgoals).bind fun n₄ found _ hfound => ?_
  have hsubject : subject.FitsOperand (4 * n₂) := hsubject
  refine yields_pure ⟨rfl, Term.fits_of_children (4 * (n₂ + n₄) + 1) trivial ?_ (by omega)⟩
  intro u hu
  rcases List.mem_cons.mp hu with rfl | hcase
  · exact hsubject.2.mono (by omega)
  · obtain ⟨c, hc, hu⟩ := List.mem_flatMap.mp (mem_spreadCases hcase)
    exact (hfound c hc u hu).mono (by omega)

/-- A conditional. -/
theorem yields_conditional : Yields total (conditional goals place) fun n t =>
    t.FitsOperand (4 * n) := by
  refine yields_deeper.bind fun n₁ place _ _ => ?_
  refine (hgoals .expression place).bind fun n₂ condition _ hcondition => ?_
  refine yields_checkCondition.bind fun n₃ _ _ _ => ?_
  refine (hgoals .block place).bind fun n₄ yes _ hyes => ?_
  have hcondition : condition.FitsOperand (4 * n₂) := hcondition
  have hyes : yes.FitsOperand (4 * n₄) := hyes
  have hsome := hcondition.2.pos
  have hmore := hyes.2.pos
  have hfits : ∀ (n : Nat) (no : Term), no.Fits (4 * n + 1) →
      (condition.conditional yes no).FitsOperand (4 * (n₁ + (n₂ + (n₃ + (n₄ + n))))) := by
    intro n no hno
    refine ⟨rfl, Term.fits_of_children (4 * (n₁ + (n₂ + (n₃ + (n₄ + n)))) - 1) trivial ?_
      (by omega)⟩
    intro u hu
    rcases List.mem_cons.mp hu with rfl | hu
    · exact hcondition.2.mono (by omega)
    · rcases List.mem_cons.mp hu with rfl | hu
      · exact hyes.2.mono (by omega)
      · obtain rfl := List.mem_singleton.mp hu
        exact hno.mono (by omega)
  refine yields_accept.bind fun n₅ found _ _ => ?_
  split
  · refine yields_accept.bind fun n₆ found _ _ => ?_
    split
    · refine (hgoals .conditional place).bind fun n₇ no _ hno => ?_
      have hno : no.FitsOperand (4 * n₇) := hno
      exact yields_pure (hfits (n₅ + (n₆ + (n₇ + 0))) no (hno.2.mono (by omega)))
    · refine (hgoals .block place).bind fun n₇ no _ hno => ?_
      have hno : no.FitsOperand (4 * n₇) := hno
      exact yields_pure (hfits (n₅ + (n₆ + (n₇ + 0))) no (hno.2.mono (by omega)))
  · refine yields_pure (hfits (n₅ + 0) (.block []) ?_)
    exact Term.fits_leaf (fun s hs => by cases hs) rfl (by omega)

/-- A loop while a condition holds. -/
theorem yields_whileLoop : Yields total (whileLoop goals place) fun n t =>
    t.FitsOperand (4 * n + 1) := by
  refine yields_deeper.bind fun n₁ place _ _ => ?_
  refine (hgoals .expression place).bind fun n₂ condition _ hcondition => ?_
  refine yields_checkCondition.bind fun n₃ _ _ _ => ?_
  refine (hgoals .block _).bind fun n₄ body _ hbody => ?_
  have hcondition : condition.FitsOperand (4 * n₂) := hcondition
  have hbody : body.FitsOperand (4 * n₄) := hbody
  refine yields_pure (Term.fitsOperand_pair rfl trivial rfl hcondition.2 hbody.2 ?_ ?_)
  · omega
  · omega

/-- A loop without a condition. -/
theorem yields_endlessLoop : Yields total (endlessLoop goals place) fun n t =>
    t.FitsOperand (4 * n + 1) := by
  refine yields_deeper.bind fun n₁ place _ _ => ?_
  refine (hgoals .block _).bind fun n₂ body _ hbody => ?_
  have hbody : body.FitsOperand (4 * n₂) := hbody
  have hsome := hbody.2.pos
  have htest : (Term.literal (.bool true)).Fits (4 * n₂) := (Term.fitsOperand_literal hsome).2
  refine yields_pure (Term.fitsOperand_pair rfl trivial rfl htest hbody.2 ?_ ?_)
  · omega
  · omega

/-- A loop with its condition at the end. -/
theorem yields_doLoop : Yields total (doLoop goals place) fun n t =>
    t.FitsOperand (4 * n + 1) := by
  refine yields_deeper.bind fun n₁ place _ _ => ?_
  refine (hgoals .block _).bind fun n₂ body _ hbody => ?_
  have hbody : body.FitsOperand (4 * n₂) := hbody
  refine yields_next.bind fun n₃ token _ _ => ?_
  extract_lets join
  have hjoin : ∀ whileTrue, Yields total (join whileTrue) fun n t =>
      t.FitsOperand (4 * (n₁ + (n₂ + (n₃ + n))) + 1) := by
    intro whileTrue
    refine (hgoals .expression _).bind fun n₄ condition _ hcondition => ?_
    refine yields_checkCondition.bind fun n₅ _ _ _ => ?_
    have hcondition : condition.FitsOperand (4 * n₄) := hcondition
    refine yields_pure (Term.fitsOperand_pair rfl trivial rfl hbody.2 hcondition.2 ?_ ?_)
    · omega
    · omega
  split
  · exact hjoin true
  · exact hjoin false
  · exact yields_throw_bind

/-- A loop over elements. -/
theorem yields_forLoop : Yields total (forLoop goals place) fun n t =>
    t.FitsOperand (4 * n + 1) := by
  refine yields_deeper.bind fun n₁ place _ _ => ?_
  refine yields_accept.bind fun n₂ found _ _ => ?_
  extract_lets join
  have hjoin : ∀ (m : Nat) (named : String × Option String), Yields total (join named) fun n t =>
      t.FitsOperand (4 * (n₁ + (n₂ + (m + n))) + 1) := by
    rintro m ⟨name, counter⟩
    refine yields_accept.bind fun n₃ found _ _ => ?_
    extract_lets join
    have hrest : ∀ u, Yields total (join u) fun n t =>
        t.FitsOperand (4 * (n₁ + (n₂ + (m + (n₃ + n)))) + 1) := by
      intro u
      refine (hgoals .expression _).bind fun n₄ source _ hsource => ?_
      have hsource : source.FitsOperand (4 * n₄) := hsource
      refine yields_checkIterable.bind fun n₅ _ _ _ => ?_
      refine Yields.enclosed ?_
      refine yields_declare.bind fun n₆ _ _ _ => ?_
      extract_lets join
      have hbody : ∀ (k : Nat) (u : Unit), Yields total (join u) fun n t => t.FitsOperand
          (4 * (n₁ + (n₂ + (m + (n₃ + (n₄ + (n₅ + (n₆ + (k + n)))))))) + 1) := by
        intro k u
        refine (hgoals .block _).bind fun n₇ body _ hbody => ?_
        have hbody : body.FitsOperand (4 * n₇) := hbody
        refine yields_pure (Term.fitsOperand_pair rfl trivial rfl hsource.2 hbody.2 ?_ ?_)
        · omega
        · omega
      split
      · exact yields_declare.bind fun k _ _ _ => hbody k ()
      · refine (hbody 0 ()).imp fun n t ht => ?_
        exact ht.mono (by omega)
    split
    · exact yields_throw_bind
    · exact hrest ()
  split
  · refine yields_expectName.bind fun n₃ name _ _ => ?_
    refine yields_expect.bind fun n₄ _ _ _ => ?_
    refine yields_expectName.bind fun n₅ counter _ _ => ?_
    extract_lets joined
    split
    · exact yields_throw_bind
    · refine yields_expect.bind fun n₆ _ _ _ => ?_
      rw [pure_bind]
      have hrest := hjoin (n₃ + (n₄ + (n₅ + n₆))) (name, some counter)
      exact hrest.imp fun n t ht => ht.mono (by omega)
  · refine yields_expectName.bind fun n₃ name _ _ => ?_
    rw [pure_bind]
    exact hjoin n₃ (name, none)

/-- A loop that a word begins. -/
theorem yields_loop {w : String} {rule : Parser Term} (h : loop? goals place w = some rule) :
    Yields total rule fun n t => t.FitsOperand (4 * n + 1) := by
  unfold loop? at h
  split at h
  · cases h
  · rcases eq_or_of_ite h with rfl | h
    · exact yields_whileLoop hgoals
    rcases eq_or_of_ite h with rfl | h
    · exact yields_endlessLoop hgoals
    rcases eq_or_of_ite h with rfl | h
    · exact yields_doLoop hgoals
    rcases eq_or_of_ite h with rfl | h
    · exact yields_forLoop hgoals
    · cases h

end Rules

end ProcessDisplay.Script
