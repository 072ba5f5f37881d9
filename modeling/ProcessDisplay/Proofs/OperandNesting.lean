import Mathlib.Tactic.Common
import ProcessDisplay.Proofs.CompoundNesting
import ProcessDisplay.Script.Parser.Statement

/-!
# The nesting of operands and expressions

An operand takes a token before it goes on to other goals, an access or an
operator takes one for every term that it adds around its operands.
-/

namespace ProcessDisplay.Script

open ProcessDisplay.Script.Parser

variable {total : Nat} {goals : Goals} {place : Place}

/-- An access makes a term deeper by one more than what is inside it. -/
theorem fitsOperand_addAccess {depth inside : Nat} {base : Term} {step : Access Term}
    (hbase : base.FitsOperand depth) (hstep : ∀ u ∈ step.terms, u.Fits inside)
    {more : Nat} (hdepth : depth < more) (hinside : inside < more) :
    (addAccess base step).FitsOperand more := by
  obtain ⟨more, rfl⟩ : ∃ rest, more = rest + 1 := ⟨more - 1, by omega⟩
  have hsteps : ∀ u ∈ step.terms, u.Fits more := fun u hu => (hstep u hu).mono (by omega)
  unfold addAccess
  split
  · next root steps =>
    refine ⟨rfl, trivial, ?_⟩
    have hinner : ∀ u ∈ (Term.chain root steps).children, u.Fits more := by
      obtain ⟨depth, rfl⟩ : ∃ rest, depth = rest + 1 := ⟨depth - 1, by have := hbase.2.pos; omega⟩
      exact fun u hu => (hbase.2.2 u hu).mono (by omega)
    intro u hu
    rw [Term.children, List.flatMap_append, ← List.cons_append, List.mem_append] at hu
    rcases hu with hold | hnew
    · exact hinner u hold
    · exact hsteps u (by simpa using hnew)
  · refine ⟨rfl, trivial, fun u hu => ?_⟩
    rcases List.mem_cons.mp hu with rfl | hnew
    · exact hbase.2.mono (by omega)
    · exact hsteps u (by simpa using hnew)

/-- A term around terms that took one token less. -/
theorem fitsOperand_around {n m : Nat} {t : Term} (hoperand : t.isStatement = false)
    (hproper : t.IsProper) (h : ∀ u ∈ t.children, u.Fits (4 * n + 2)) (hmore : n < m) :
    t.FitsOperand (4 * m) :=
  ⟨hoperand, Term.fits_of_children _ hproper h (by omega)⟩

/-- Where a brace is next, an operand is a block. -/
theorem primary_brace {p p' : Parsing} {t : Term}
    (hhead : p.tokens.head? = some (.mark "\x7b"))
    (h : primary goals place p = .ok (t, p')) : goals .block place p = .ok (t, p') := by
  obtain ⟨token, p₁, hnext, h⟩ := bind_eq_ok_iff.mp h
  obtain ⟨htokens, hrest⟩ := next_eq_ok hnext
  obtain rfl : token = .mark "\x7b" := by
    rw [htokens] at hhead
    exact Option.some.inj hhead
  dsimp only at h
  rw [if_neg (by decide), if_neg (by decide), if_neg (by decide)] at h
  by_cases hplace : (!place.isExpression) = true
  · rw [if_pos ⟨rfl, hplace⟩] at h
    obtain ⟨_, p₂, hpush, h⟩ := bind_eq_ok_iff.mp h
    obtain rfl : p = p₂ := by
      have hback : ({ p₁ with tokens := .mark "\x7b" :: p₁.tokens } : Parsing) = p₂ :=
        congrArg Prod.snd (Except.ok.inj hpush)
      rw [← hback, hrest, ← htokens]
    exact h
  · rw [if_neg (fun hopens => hplace hopens.2)] at h
    cases h

section Rules

variable (hgoals : goals.Bounded total)

include hgoals

/-- An operand without signs and accesses. -/
theorem yields_primary : Yields total (primary goals place) fun n t =>
    t.FitsOperand (4 * n) := by
  intro p t p' hlength hbounded hdone
  by_cases hbrace : p.tokens.head? = some (.mark "\x7b")
  · exact hgoals .block place p t p' hlength hbounded (primary_brace hbrace hdone)
  · refine yields_next_of_head_ne hlength hbounded hbrace (fun token hne => ?_) hdone
    split
    · exact yields_pure (Term.fitsOperand_literal (by omega))
    · exact yields_pure (Term.fitsOperand_literal (by omega))
    · exact yields_pure (Term.fitsOperand_literal (by omega))
    · exact yields_pure (Term.fitsOperand_literal (by omega))
    · refine yields_deeper.bind fun n₁ _ _ _ => ?_
      refine (yields_templatePieces hgoals).bind fun n₂ pieces _ hpieces => ?_
      refine yields_pure (fitsOperand_around (n := n₂) rfl trivial ?_ (by omega))
      intro u hu
      rcases List.mem_cons.mp hu with rfl | hpiece
      · exact Term.fits_leaf trivial rfl (by omega)
      · exact (hpieces u hpiece).2
    · refine yields_accept.bind fun n₁ found _ _ => ?_
      split
      · refine yields_deeper.bind fun n₂ _ _ _ => ?_
        refine (yields_separated hgoals).bind fun n₃ items _ hitems => ?_
        refine yields_pure (fitsOperand_around (n := n₃) rfl trivial ?_ (by omega))
        exact fun u hu => (hitems u hu).2.mono (by omega)
      · exact yields_pure ⟨rfl, Term.fits_leaf trivial rfl (by omega)⟩
    · split
      · exact yields_pure (Term.fitsOperand_literal (by omega))
      · split
        · exact yields_pure (Term.fitsOperand_literal (by omega))
        · split
          · exact (yields_conditional hgoals).imp fun n t ht => ht.mono (by omega)
          · split
            · exact (yields_selection hgoals).imp fun n t ht => ht.mono (by omega)
            · split
              · next rule hrule =>
                exact (yields_loop hgoals hrule).imp fun n t ht => ht.mono (by omega)
              · exact yields_throw
    · split
      · refine yields_accept.bind fun n₁ found _ _ => ?_
        split
        · exact yields_pure (Term.fitsOperand_literal (by omega))
        · refine yields_deeper.bind fun n₂ _ _ _ => ?_
          refine (hgoals .expression _).bind fun n₃ inner _ hinner => ?_
          have hinner : inner.FitsOperand (4 * n₃) := hinner
          refine yields_expect.bind fun n₄ _ _ _ => ?_
          exact yields_pure (hinner.mono (by omega))
      · split
        · refine yields_deeper.bind fun n₁ _ _ _ => ?_
          refine (yields_separated hgoals).bind fun n₂ items _ hitems => ?_
          extract_lets join
          split
          · exact yields_throw_bind
          · refine yields_pure (fitsOperand_around (n := n₂) rfl trivial ?_ (by omega))
            exact fun u hu => (hitems u hu).2.mono (by omega)
        · split
          · refine yields_deeper.bind fun n₁ _ _ _ => ?_
            refine (yields_entries hgoals).bind fun n₂ found _ hfound => ?_
            extract_lets join
            split
            · exact yields_throw_bind
            · refine yields_pure (fitsOperand_around (n := n₂) rfl trivial ?_ (by omega))
              intro u hu
              obtain ⟨entry, hentry, rfl⟩ := List.mem_map.mp hu
              exact (hfound entry hentry).2.mono (by omega)
          · split
            · next hopens => exact absurd (congrArg Token.mark hopens.1) hne
            · exact yields_throw
    · exact yields_throw

/-- One access is around terms that took fewer tokens. -/
theorem yields_access {base : Term} : Yields total (access? goals place base) fun n step =>
    ∀ a, step = some a → 0 < n ∧ ∀ u ∈ a.terms, u.Fits (4 * n) := by
  refine yields_accept.bind fun n₁ found _ hfirst => ?_
  split
  · next hfound =>
    have hone := hfirst hfound
    refine yields_deeper.bind fun n₂ _ _ _ => ?_
    refine (hgoals .expression _).bind fun n₃ position _ hposition => ?_
    have hposition : position.FitsOperand (4 * n₃) := hposition
    refine yields_checkIndex.bind fun n₄ _ _ _ => ?_
    refine yields_expect.bind fun n₅ _ _ _ => ?_
    refine yields_pure fun a ha => ?_
    obtain rfl := Option.some.inj ha
    refine ⟨by omega, fun u hu => ?_⟩
    obtain rfl := List.mem_singleton.mp hu
    exact hposition.2.mono (by omega)
  · refine yields_accept.bind fun n₂ found _ hsecond => ?_
    split
    · next hfound =>
      have hone := hsecond hfound
      refine yields_expectName.bind fun n₃ name _ _ => ?_
      refine yields_accept.bind fun n₄ found _ _ => ?_
      split
      · refine yields_deeper.bind fun n₅ _ _ _ => ?_
        refine (yields_separated hgoals).bind fun n₆ items _ hitems => ?_
        refine yields_pure fun a ha => ?_
        obtain rfl := Option.some.inj ha
        exact ⟨by omega, fun u hu => (hitems u hu).2.mono (by omega)⟩
      · refine yields_pure fun a ha => ?_
        obtain rfl := Option.some.inj ha
        exact ⟨by omega, fun u hu => by cases hu⟩
    · exact yields_pure fun a ha => by cases ha

/-- The accesses after a term make it deeper by the tokens that they take. -/
theorem yields_accesses (fuel : Nat) {base : Term} {depth : Nat} (hbase : base.FitsOperand depth) :
    Yields total (accesses goals place fuel base) fun n t => t.FitsOperand (depth + 4 * n) := by
  induction fuel generalizing base depth with
  | zero => exact yields_pure hbase
  | succ fuel ih =>
    refine (yields_access hgoals).bind fun n step _ hstep => ?_
    have hsome := hbase.2.pos
    cases step with
    | none => exact yields_pure (hbase.mono (by omega))
    | some a =>
      obtain ⟨htaken, hinside⟩ := hstep a rfl
      have hmore : (addAccess base a).FitsOperand (depth + 4 * n) :=
        fitsOperand_addAccess hbase hinside (by omega) (by omega)
      exact (ih hmore).imp fun m t ht => ht.mono (by omega)

/-- An operand. -/
theorem yields_operand : Yields total (operand goals place) fun n t =>
    t.FitsOperand (4 * n) := by
  have hsigned : ∀ (n m : Nat) (symbol : String) (inner : Term), inner.FitsOperand (4 * m) →
      m < n → (Term.unary symbol inner).FitsOperand (4 * n) := by
    intro n m symbol inner hinner hmore
    exact Term.fitsOperand_single rfl trivial rfl hinner.2 (by omega)
  refine yields_accept.bind fun n₁ found _ hminus => ?_
  split
  · next hfound =>
    have hone := hminus hfound
    refine yields_deeper.bind fun n₂ _ _ _ => ?_
    refine (hgoals .operand _).bind fun n₃ inner _ hinner => ?_
    have hinner : inner.FitsOperand (4 * n₃) := hinner
    split
    · split
      · exact yields_pure (Term.fitsOperand_literal (by omega))
      · exact yields_pure (Term.fitsOperand_literal (by omega))
    · exact yields_pure (Term.fitsOperand_literal (by omega))
    · exact yields_pure (hsigned _ n₃ "-" inner hinner (by omega))
  · refine yields_accept.bind fun n₂ found _ hplus => ?_
    split
    · next hfound =>
      have hone := hplus hfound
      refine yields_deeper.bind fun n₃ _ _ _ => ?_
      refine (hgoals .operand _).bind fun n₄ inner _ hinner => ?_
      have hinner : inner.FitsOperand (4 * n₄) := hinner
      split
      · exact yields_pure (Term.fitsOperand_literal (by omega))
      · exact yields_pure (Term.fitsOperand_literal (by omega))
      · exact yields_pure (hsigned _ n₄ "+" inner hinner (by omega))
    · refine yields_accept.bind fun n₃ found _ hnot => ?_
      split
      · next hfound =>
        have hone := hnot hfound
        refine yields_deeper.bind fun n₄ _ _ _ => ?_
        refine (hgoals .operand _).bind fun n₅ inner _ hinner => ?_
        exact yields_pure (hsigned _ n₅ "!" inner hinner (by omega))
      · refine (yields_primary hgoals).bind fun n₄ base _ hbase => ?_
        refine yields_get.bind fun n₅ p _ _ => ?_
        exact (yields_accesses hgoals _ hbase).imp fun m t ht => ht.mono (by omega)

/-- The operators after a left operand. -/
theorem yields_operators {above : Nat} {left : Term} :
    Yields total (operators goals place above left) fun n t =>
      ∀ depth, left.FitsOperand depth → t.FitsOperand (depth + 4 * n) := by
  refine yields_deeper.bind fun n₁ place _ _ => ?_
  refine yields_peek.bind fun n₂ token _ _ => ?_
  extract_lets current
  split
  · exact yields_pure fun depth hleft => hleft.mono (by omega)
  · refine yields_next.bind fun n₃ token _ hone => ?_
    refine (hgoals .operand place).bind fun n₄ right _ hright => ?_
    have hright : right.FitsOperand (4 * n₄) := hright
    refine yields_peek.bind fun n₅ following _ _ => ?_
    extract_lets precedence join
    have hjoin : ∀ (n₆ : Nat) (right : Term), right.FitsOperand (4 * n₄ + 4 * n₆) →
        Yields total (join right) fun n t => ∀ depth, left.FitsOperand depth →
          t.FitsOperand (depth + 4 * (n₁ + (n₂ + (n₃ + (n₄ + (n₅ + (n₆ + n))))))) := by
      intro n₆ right hright
      refine yields_joinOperands.bind fun n₇ joined _ hjoined => ?_
      refine (hgoals (.operators above joined) place).imp fun n t ht depth hleft => ?_
      have hboth : joined.FitsOperand (depth + 4 * n₄ + 4 * n₆ + 1) :=
        hjoined.2 _ (hleft.mono (by omega)) (hright.mono (by omega))
      exact (ht _ hboth).mono (by omega)
    split
    · refine (hgoals (.operators _ right) place).bind fun n₆ more _ hmore => ?_
      exact hjoin n₆ more (hmore _ hright)
    · rw [pure_bind]
      refine (hjoin 0 right (hright.mono (by omega))).imp fun n t ht depth hleft => ?_
      exact (ht depth hleft).mono (by omega)

/-- An expression. -/
theorem yields_expression : Yields total (expression goals place) fun n t =>
    t.FitsOperand (4 * n) := by
  refine yields_deeper.bind fun n₁ place _ _ => ?_
  refine (hgoals .operand place).bind fun n₂ left _ hleft => ?_
  have hleft : left.FitsOperand (4 * n₂) := hleft
  refine (hgoals (.operators 1 left) place).imp fun n₃ t ht => ?_
  exact (ht _ hleft).mono (by omega)

/-- An expression or an assignment. -/
theorem yields_assignment : Yields total (assignment goals place) fun n t =>
    t.FitsOperand (4 * n) := by
  refine (hgoals .expression place).bind fun n₁ target _ htarget => ?_
  have htarget : target.FitsOperand (4 * n₁) := htarget
  have hsome := htarget.2.pos
  refine yields_peek.bind fun n₂ token _ _ => ?_
  split
  · split
    · refine yields_skip.bind fun n₃ _ _ _ => ?_
      refine yields_checkTarget.bind fun n₄ _ _ _ => ?_
      refine (hgoals .expression place).bind fun n₅ value _ hvalue => ?_
      have hvalue : value.FitsOperand (4 * n₅) := hvalue
      have hmore := hvalue.2.pos
      refine yields_pure (Term.fitsOperand_pair rfl trivial rfl htarget.2 hvalue.2 ?_ ?_)
      · omega
      · omega
    · exact yields_pure (htarget.mono (by omega))
  · exact yields_pure (htarget.mono (by omega))

end Rules

end ProcessDisplay.Script
