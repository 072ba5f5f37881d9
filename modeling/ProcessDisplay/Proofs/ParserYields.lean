import Mathlib.Tactic.Common
import ProcessDisplay.Proofs.FailingComputations
import ProcessDisplay.Proofs.TermNesting
import ProcessDisplay.Script.Parser.Basic

/-!
# What rules yield

A rule that succeeds has taken some tokens from the front, and what it yields
is related to how many they were. Rules are put together, and so are the
relations: the tokens of a sequence are those of its parts. A function that is
defined on the way has a body that is bounded by the tokens of the source.
-/

namespace ProcessDisplay.Script

/-- The bodies of all functions so far fit in the nesting of so many tokens. -/
def Parsing.Bounded (total : Nat) (p : Parsing) : Prop :=
  ∀ f ∈ p.functions, f.body.Fits (4 * total)

namespace Parser

variable {α β : Type} {total : Nat}

/-- Whenever a rule succeeds in a source of so many tokens, its yield is
related to the number of tokens it took, and the functions stay bounded. -/
def Yields (total : Nat) (rule : Parser α) (relation : Nat → α → Prop) : Prop :=
  ∀ p a p', p.tokens.length ≤ total → p.Bounded total → rule p = .ok (a, p') →
    ∃ n, p.tokens.length = p'.tokens.length + n ∧ p'.Bounded total ∧ relation n a

/-- A rule that takes nothing yields what it says. -/
theorem yields_pure {relation : Nat → α → Prop} {a : α} (h : relation 0 a) :
    Yields total (pure a) relation := by
  intro p b p' _ hbounded hrule
  obtain ⟨rfl, rfl⟩ := Prod.mk.inj (Except.ok.inj hrule)
  exact ⟨0, rfl, hbounded, h⟩

/-- A rule that fails yields nothing. -/
theorem yields_throw {relation : Nat → α → Prop} {problem : Problem} :
    Yields total (throw problem) relation := by
  intro p a p' _ _ hrule
  cases hrule

/-- Nothing follows a failure. -/
theorem yields_throw_bind {relation : Nat → β → Prop} {problem : Problem} {next : α → Parser β} :
    Yields total (throw problem >>= next) relation := by
  intro p a p' _ _ hrule
  cases hrule

/-- A sequence succeeds if both of its parts do. -/
theorem bind_eq_ok_iff {rule : Parser α} {next : α → Parser β} {p p' : Parsing} {b : β} :
    (rule >>= next) p = .ok (b, p') ↔
      ∃ a p₁, rule p = .ok (a, p₁) ∧ next a p₁ = .ok (b, p') := by
  change (rule p >>= fun found => next found.1 found.2) = _ ↔ _
  rw [exceptBind_eq_ok_iff, Prod.exists]

/-- A sequence takes the tokens of its parts. -/
theorem Yields.bind {rule : Parser α} {next : α → Parser β} {first : Nat → α → Prop}
    {relation : Nat → β → Prop} (hrule : Yields total rule first)
    (hnext : ∀ n a, n ≤ total → first n a →
      Yields total (next a) fun m b => relation (n + m) b) :
    Yields total (rule >>= next) relation := by
  intro p b p' hlength hbounded hdone
  obtain ⟨a, p₁, hfirst, hrest⟩ := bind_eq_ok_iff.mp hdone
  obtain ⟨n, htaken, hkept, ha⟩ := hrule p a p₁ hlength hbounded hfirst
  obtain ⟨m, hmore, hlast, hb⟩ := hnext n a (by omega) ha p₁ b p' (by omega) hkept hrest
  exact ⟨n + m, by omega, hlast, hb⟩

/-- A weaker relation holds as well. -/
theorem Yields.imp {rule : Parser α} {first relation : Nat → α → Prop}
    (hrule : Yields total rule first) (h : ∀ n a, first n a → relation n a) :
    Yields total rule relation := by
  intro p a p' hlength hbounded hdone
  obtain ⟨n, htaken, hkept, ha⟩ := hrule p a p' hlength hbounded hdone
  exact ⟨n, htaken, hkept, h n a ha⟩

/-- Looking at the state takes nothing. -/
theorem yields_get : Yields total get fun n (_ : Parsing) => n = 0 := by
  intro p a p' _ hbounded hrule
  obtain ⟨-, rfl⟩ := Prod.mk.inj (Except.ok.inj hrule)
  exact ⟨0, rfl, hbounded, rfl⟩

/-- A change of the state that removes so many tokens. -/
theorem yields_modify {change : Parsing → Parsing} {relation : Nat → PUnit → Prop}
    (h : ∀ p : Parsing, p.Bounded total → ∃ n,
      p.tokens.length = (change p).tokens.length + n ∧ (change p).Bounded total ∧
        relation n ⟨⟩) :
    Yields total (modify change) relation := by
  intro p a p' _ hbounded hrule
  obtain rfl : change p = p' := congrArg Prod.snd (Except.ok.inj hrule)
  exact h p hbounded

/-- A change of the scope takes nothing. -/
theorem yields_scope {scope : Parsing → List (String × Bool)} :
    Yields total (modify fun p => { p with scope := scope p }) fun n (_ : PUnit) => n = 0 :=
  yields_modify fun _ hbounded => ⟨0, rfl, hbounded, rfl⟩

/-- Looking at the next token takes nothing. -/
theorem yields_peek : Yields total peek fun n _ => n = 0 :=
  yields_get.bind fun _ _ _ hn => yields_pure (by omega)

/-- At most one token is removed. -/
theorem yields_skip : Yields total skip fun _ _ => True := by
  refine yields_modify fun p hbounded => ?_
  have hfewer : (p.tokens.drop 1).length ≤ p.tokens.length := (List.drop_sublist 1 _).length_le
  exact ⟨p.tokens.length - (p.tokens.drop 1).length, (Nat.add_sub_cancel' hfewer).symm,
    hbounded, trivial⟩

/-- Looking at the next token changes nothing. -/
theorem peek_eq_ok {p p' : Parsing} {head : Option Token} (h : peek p = .ok (head, p')) :
    head = p.tokens.head? ∧ p' = p := by
  obtain ⟨rfl, rfl⟩ := Prod.mk.inj (Except.ok.inj h)
  exact ⟨rfl, rfl⟩

/-- A rule that follows the removal of the next token, where there is one, has
one token more. -/
theorem yields_after_skip {rule : Parser α} (relation : Nat → α → Prop) {p p' : Parsing} {a : α}
    {token : Token} (hhead : p.tokens.head? = some token) (hlength : p.tokens.length ≤ total)
    (hbounded : p.Bounded total) (hrule : Yields total rule fun n a => relation (1 + n) a)
    (hdone : (skip >>= fun _ => rule) p = .ok (a, p')) :
    ∃ n, p.tokens.length = p'.tokens.length + n ∧ p'.Bounded total ∧ relation n a := by
  obtain ⟨u, p₁, hskip, hdone⟩ := bind_eq_ok_iff.mp hdone
  obtain rfl : ({ p with tokens := p.tokens.drop 1 } : Parsing) = p₁ :=
    congrArg Prod.snd (Except.ok.inj hskip)
  have hone : p.tokens.length = (p.tokens.drop 1).length + 1 := by
    cases htokens : p.tokens with
    | nil =>
      rw [htokens] at hhead
      cases hhead
    | cons first rest => rfl
  have hfewer : (p.tokens.drop 1).length ≤ total := by omega
  have htaken := hrule { p with tokens := p.tokens.drop 1 } a p' hfewer hbounded hdone
  obtain ⟨n, htaken, hlast, ha⟩ := htaken
  dsimp only at htaken
  exact ⟨1 + n, by omega, hlast, ha⟩

/-- The next token is there and is taken. -/
theorem next_eq_ok {p p' : Parsing} {token : Token} (h : next p = .ok (token, p')) :
    p.tokens = token :: p'.tokens ∧ p' = { p with tokens := p'.tokens } := by
  obtain ⟨tokens, scope, functions⟩ := p
  cases tokens with
  | nil => cases h
  | cons first rest =>
    obtain ⟨rfl, rfl⟩ := Prod.mk.inj (Except.ok.inj h)
    exact ⟨rfl, rfl⟩

/-- The next token is taken. -/
theorem yields_next : Yields total next fun n _ => n = 1 := by
  intro p a p' _ hbounded hrule
  obtain ⟨htokens, hrest⟩ := next_eq_ok hrule
  refine ⟨1, ?_, ?_, rfl⟩
  · rw [htokens, List.length_cons]
  · rw [hrest]
    exact hbounded

/-- What follows the next token, where that is not a certain one. -/
theorem yields_next_of_head_ne {avoided : Token} {rest : Token → Parser β}
    {relation : Nat → β → Prop} {p p' : Parsing} {b : β} (hlength : p.tokens.length ≤ total)
    (hbounded : p.Bounded total) (hhead : p.tokens.head? ≠ some avoided)
    (hrest : ∀ token, token ≠ avoided →
      Yields total (rest token) fun m b => relation (1 + m) b)
    (hdone : (next >>= rest) p = .ok (b, p')) :
    ∃ n, p.tokens.length = p'.tokens.length + n ∧ p'.Bounded total ∧ relation n b := by
  obtain ⟨token, p₁, hnext, hdone⟩ := bind_eq_ok_iff.mp hdone
  obtain ⟨n, htaken, hkept, rfl⟩ := yields_next p token p₁ hlength hbounded hnext
  have hne : token ≠ avoided := by
    rintro rfl
    rw [(next_eq_ok hnext).1] at hhead
    exact hhead rfl
  obtain ⟨m, hmore, hlast, hb⟩ := hrest token hne p₁ b p' (by omega) hkept hdone
  exact ⟨1 + m, by omega, hlast, hb⟩

/-- A token that is accepted is taken. -/
theorem yields_accept {token : Token} :
    Yields total (accept token) fun n found => found = true → n = 1 := by
  intro p a p' _ hbounded hrule
  by_cases hhead : p.tokens.head? = some token
  · have hdone : accept token p = .ok (true, { p with tokens := p.tokens.drop 1 }) := by
      change (if p.tokens.head? = some token then do
          skip
          return true
        else return false : Parser Bool) p = _
      rw [if_pos hhead]
      rfl
    obtain ⟨-, rfl⟩ := Prod.mk.inj (Except.ok.inj (hdone.symm.trans hrule))
    have hlength : p.tokens.length = (p.tokens.drop 1).length + 1 := by
      cases htokens : p.tokens with
      | nil =>
        rw [htokens] at hhead
        cases hhead
      | cons first rest => rfl
    exact ⟨1, hlength, hbounded, fun _ => rfl⟩
  · have hdone : accept token p = .ok (false, p) := by
      change (if p.tokens.head? = some token then do
          skip
          return true
        else return false : Parser Bool) p = _
      rw [if_neg hhead]
      rfl
    obtain ⟨rfl, rfl⟩ := Prod.mk.inj (Except.ok.inj (hdone.symm.trans hrule))
    exact ⟨0, rfl, hbounded, fun htrue => by cases htrue⟩

/-- A mark that is expected is taken. -/
theorem yields_expect {m : String} : Yields total (expect m) fun n _ => n = 1 := by
  refine yields_accept.bind fun n found _ hn => ?_
  cases found with
  | true => exact yields_pure (hn rfl)
  | false =>
    refine yields_peek.bind fun _ token _ _ => ?_
    split
    · exact yields_throw
    · exact yields_throw

/-- A name that is expected is taken. -/
theorem yields_expectName : Yields total expectName fun n _ => n = 1 := by
  refine yields_next.bind fun n token _ hn => ?_
  cases token with
  | name s => exact yields_pure hn
  | _ => exact yields_throw

/-- Going deeper takes nothing. -/
theorem yields_deeper {place : Place} : Yields total (deeper place) fun n _ => n = 0 := by
  unfold deeper
  split
  · exact yields_throw
  · exact yields_pure rfl

/-- A declaration takes nothing. -/
theorem yields_declare {name : String} {isConstant : Bool} :
    Yields total (declare name isConstant) fun n _ => n = 0 :=
  yields_scope

/-- A rule whose yield is dropped. -/
theorem yields_discard {rule : Parser α} {relation : Nat → α → Prop}
    (h : Yields total rule relation) : Yields total (discard rule) fun _ _ => True := by
  have hbind : discard rule = rule >>= fun _ => pure () := by
    rw [bind_pure_comp]
    rfl
  rw [hbind]
  exact h.bind fun _ _ _ _ => yields_pure trivial

/-- Forgetting variables takes nothing. -/
theorem Yields.enclosed {rule : Parser α} {relation : Nat → α → Prop}
    (h : Yields total rule relation) : Yields total (enclosed rule) relation := by
  refine yields_get.bind fun n before _ hn => ?_
  refine h.bind fun m a _ ha => ?_
  refine yields_scope.bind fun k _ _ hk => ?_
  refine yields_pure ?_
  have htaken : n + (m + (k + 0)) = m := by omega
  rw [htaken]
  exact ha

/-- A repeated rule yields items that are related to all tokens it took. -/
theorem Yields.collect {rule : Parser (Option α)} {relation : Nat → α → Prop}
    (hmono : ∀ n m a, relation n a → n ≤ m → relation m a)
    (h : Yields total rule fun n found => ∀ a, found = some a → relation n a) (fuel : Nat) :
    Yields total (collect rule fuel) fun n items => ∀ a ∈ items, relation n a := by
  induction fuel with
  | zero => exact yields_pure fun a ha => absurd ha List.not_mem_nil
  | succ fuel ih =>
    refine h.bind fun n found _ hn => ?_
    cases found with
    | none => exact yields_pure fun a ha => absurd ha List.not_mem_nil
    | some item =>
      refine ih.bind fun m items _ hm => ?_
      refine yields_pure fun a ha => ?_
      rcases List.mem_cons.mp ha with rfl | hrest
      · exact hmono n _ a (hn a rfl) (by omega)
      · exact hmono m _ a (hm a hrest) (by omega)

/-- A rule that is repeated as long as it takes tokens yields such items, too. -/
theorem Yields.collectAll {rule : Parser (Option α)} {relation : Nat → α → Prop}
    (hmono : ∀ n m a, relation n a → n ≤ m → relation m a)
    (h : Yields total rule fun n found => ∀ a, found = some a → relation n a) :
    Yields total (collectAll rule) fun n items => ∀ a ∈ items, relation n a := by
  refine yields_get.bind fun n p _ hn => ?_
  refine (h.collect hmono _).imp fun m items hitems => ?_
  rw [hn, Nat.zero_add]
  exact hitems

/-- Whatever is repeated takes some tokens. -/
theorem yields_row {rule : Parser (Option α)} (h : Yields total rule fun _ _ => True) :
    Yields total (collectAll rule) fun _ _ => True := by
  have hitems : Yields total (collectAll rule) fun _ items => ∀ a ∈ items, True :=
    Yields.collectAll (fun _ _ _ _ _ => trivial) (h.imp fun _ _ _ _ _ => trivial)
  exact hitems.imp fun _ _ _ => trivial

end Parser

end ProcessDisplay.Script
