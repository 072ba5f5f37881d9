import ProcessDisplay.Proofs.LexemeRows

/-!
# The passage of rules over tokens

A rule stands somewhere in a row of tokens. Behind it no name follows a
number, and before it is either any token or one that may follow what was
taken last. What a rule needs of its place and what it leaves are stated
together, and rules are put together accordingly.
-/

namespace ProcessDisplay.Script

variable {tokens : List Token} {token : Token}

namespace Parsing

/-- Some of the tokens have been taken, and no name follows a number among them. -/
def Reached (tokens : List Token) (p : Parsing) : Prop :=
  ∃ taken, taken ++ p.tokens = tokens ∧ Apart taken

/-- Nor does the next token follow a number if it is a name. -/
def Fresh (tokens : List Token) (p : Parsing) : Prop :=
  ∃ taken, taken ++ p.tokens = tokens ∧ Apart (taken ++ p.tokens.take 1)

variable {p p' : Parsing}

/-- What needs less of its place can stand wherever the next token may be a name. -/
theorem Fresh.reached (h : p.Fresh tokens) : p.Reached tokens := by
  obtain ⟨taken, htokens, hapart⟩ := h
  exact ⟨taken, htokens, hapart.left_of_append⟩

/-- At most one token follows itself. -/
theorem apart_take_one (tokens : List Token) : Apart (tokens.take 1) := by
  cases tokens with
  | nil => exact .nil
  | cons first rest => exact .singleton first

/-- Where no name is next, the last token may have been any one. -/
theorem Reached.fresh (h : p.Reached tokens) (hhead : p.tokens.head?.any Token.isName = false) :
    p.Fresh tokens := by
  obtain ⟨taken, htokens, hapart⟩ := h
  refine ⟨taken, htokens, List.isChain_append.mpr ⟨hapart, apart_take_one _, ?_⟩⟩
  intro first _ second hsecond _
  rw [List.head?_take, if_neg Nat.one_ne_zero] at hsecond
  rw [Option.mem_def.mp hsecond] at hhead
  exact hhead

/-- Where a name may be next, any token may be taken. -/
theorem Fresh.take (h : p.Fresh tokens) (hp : p.tokens = token :: p'.tokens) :
    p'.Reached tokens := by
  obtain ⟨taken, htokens, hapart⟩ := h
  rw [hp] at htokens hapart
  exact ⟨taken ++ [token], by rw [← htokens, List.append_assoc]; rfl, hapart⟩

/-- After a token that is no number, a name may be next. -/
theorem Fresh.take_plain (h : p.Fresh tokens) (hp : p.tokens = token :: p'.tokens)
    (hnumber : token.isNumber = false) : p'.Fresh tokens := by
  obtain ⟨taken, htokens, hapart⟩ := h
  rw [hp] at htokens hapart
  refine ⟨taken ++ [token], by rw [← htokens, List.append_assoc]; rfl, ?_⟩
  refine List.isChain_append.mpr ⟨hapart, apart_take_one _, ?_⟩
  intro first hfirst second _ hfirst'
  rw [List.getLast?_concat] at hfirst
  obtain rfl := Option.some.inj hfirst
  rw [hnumber] at hfirst'
  cases hfirst'

/-- What is next is one of the tokens. -/
theorem Reached.mem (h : p.Reached tokens) (hp : p.tokens = token :: p'.tokens) :
    token ∈ tokens := by
  obtain ⟨taken, htokens, -⟩ := h
  rw [← htokens, hp]
  exact List.mem_append_right _ List.mem_cons_self

end Parsing

namespace Parser

open Parsing

variable {α β : Type} {before before' : Parsing → Prop} {rule : Parser α} {next : α → Parser β}

/-- Whenever a rule succeeds where something holds of its place, something holds
of what it yields and of the place where it leaves off. -/
def Leads (before : Parsing → Prop) (rule : Parser α) (after : α → Parsing → Prop) : Prop :=
  ∀ p a p', before p → rule p = .ok (a, p') → after a p'

/-- A rule that takes nothing. -/
theorem leads_pure {after : α → Parsing → Prop} {a : α} (h : ∀ p, before p → after a p) :
    Leads before (pure a) after := by
  intro p b p' hp hrule
  obtain ⟨rfl, rfl⟩ := Prod.mk.inj (Except.ok.inj hrule)
  exact h p hp

/-- A rule that fails. -/
theorem leads_throw {after : α → Parsing → Prop} {problem : Problem} :
    Leads before (throw problem) after := by
  intro p a p' _ hrule
  cases hrule

/-- What follows a failure. -/
theorem leads_throw_bind {after : β → Parsing → Prop} {problem : Problem} :
    Leads before (throw problem >>= next) after := by
  intro p a p' _ hrule
  cases hrule

/-- A rule goes on where the one before it leaves off. -/
theorem Leads.bind {between : α → Parsing → Prop} {after : β → Parsing → Prop}
    (hrule : Leads before rule between) (hnext : ∀ a, Leads (between a) (next a) after) :
    Leads before (rule >>= next) after := by
  intro p b p' hp hdone
  obtain ⟨a, p₁, hfirst, hrest⟩ := bind_eq_ok_iff.mp hdone
  exact hnext a p₁ b p' (hrule p a p₁ hp hfirst) hrest

/-- A rule may be asked for less, or started where more holds. -/
theorem Leads.imp {after after' : α → Parsing → Prop} (hrule : Leads before rule after)
    (hbefore : ∀ p, before' p → before p) (hafter : ∀ a p, after a p → after' a p) :
    Leads before' rule after' :=
  fun p a p' hp hdone => hafter a p' (hrule p a p' (hbefore p hp) hdone)

/-- A rule may be started where more holds. -/
theorem Leads.from {after : α → Parsing → Prop} (hrule : Leads before rule after)
    (hbefore : ∀ p, before' p → before p) : Leads before' rule after :=
  hrule.imp hbefore fun _ _ => id

/-- What is known of the yield before does not depend on the place. -/
theorem leads_and {known : Prop} {after : α → Parsing → Prop}
    (h : known → Leads before rule after) : Leads (fun p => before p ∧ known) rule after :=
  fun p a p' hp hdone => h hp.2 p a p' hp.1 hdone

/-- Looking at the state. -/
theorem leads_get : Leads before get fun _ => before := by
  intro p a p' hp hrule
  obtain ⟨-, rfl⟩ := Prod.mk.inj (Except.ok.inj hrule)
  exact hp

/-- Looking at the next token. -/
theorem leads_peek : Leads before peek fun head p => before p ∧ p.tokens.head? = head := by
  intro p a p' hp hrule
  obtain ⟨rfl, rfl⟩ := peek_eq_ok hrule
  exact ⟨hp, rfl⟩

/-- Taking the next token where it may be any one. -/
theorem leads_next : Leads (Fresh tokens) Parser.next fun token p =>
    (p.Reached tokens ∧ (token.isNumber = false → p.Fresh tokens)) ∧ token ∈ tokens := by
  intro p token p' hp hrule
  obtain ⟨htokens, -⟩ := next_eq_ok hrule
  exact ⟨⟨hp.take htokens, hp.take_plain htokens⟩, hp.reached.mem htokens⟩

/-- Taking the next token, which is no name. -/
theorem leads_next_plain : Leads (Reached tokens) Parser.next fun token p =>
    token.isName = false → p.Reached tokens := by
  intro p token p' hp hrule hname
  obtain ⟨htokens, -⟩ := next_eq_ok hrule
  exact (hp.fresh (by rw [htokens]; exact hname)).take htokens

/-- Taking the next token, which is known to be neither a name nor a number. -/
theorem leads_next_between {head : Option Token} (hname : head.any Token.isName = false)
    (hnumber : head.any Token.isNumber = false) :
    Leads (fun p => p.Reached tokens ∧ p.tokens.head? = head) Parser.next
      fun _ => Fresh tokens := by
  rintro p token p' ⟨hp, rfl⟩ hrule
  obtain ⟨htokens, -⟩ := next_eq_ok hrule
  have hplain : token.isNumber = false := by
    rw [htokens] at hnumber
    exact hnumber
  exact (hp.fresh hname).take_plain htokens hplain

/-- Removing the next token, which is neither a name nor a number. -/
theorem leads_skip (hname : token.isName = false) (hnumber : token.isNumber = false) :
    Leads (fun p => p.Reached tokens ∧ p.tokens.head? = some token) skip
      fun _ => Fresh tokens := by
  rintro p u p' ⟨hp, hhead⟩ hrule
  obtain rfl : ({ p with tokens := p.tokens.drop 1 } : Parsing) = p' :=
    congrArg Prod.snd (Except.ok.inj hrule)
  obtain ⟨rest, htokens⟩ := List.head?_eq_some_iff.mp hhead
  have hfresh : p.Fresh tokens := hp.fresh (by rw [hhead]; exact hname)
  exact hfresh.take_plain (by rw [htokens]; rfl) hnumber

/-- Accepting a token that is neither a name nor a number. -/
theorem Leads.accept_bind {next : Bool → Parser β} {after : β → Parsing → Prop}
    (hname : token.isName = false) (hnumber : token.isNumber = false)
    (hbefore : ∀ p, before p → p.Reached tokens) (hyes : Leads (Fresh tokens) (next true) after)
    (hno : Leads before (next false) after) : Leads before (accept token >>= next) after := by
  intro p b p' hp hdone
  obtain ⟨found, p₁, haccept, hdone⟩ := bind_eq_ok_iff.mp hdone
  obtain ⟨head, p₂, hpeek, haccept⟩ := bind_eq_ok_iff.mp haccept
  obtain ⟨rfl, rfl⟩ := peek_eq_ok hpeek
  split at haccept
  · next hhead =>
    obtain ⟨u, p₃, hskip, hpure⟩ := bind_eq_ok_iff.mp haccept
    obtain ⟨rfl, rfl⟩ := Prod.mk.inj (Except.ok.inj hpure)
    exact hyes _ b p' (leads_skip hname hnumber _ u _ ⟨hbefore _ hp, hhead⟩ hskip) hdone
  · obtain ⟨rfl, rfl⟩ := Prod.mk.inj (Except.ok.inj haccept)
    exact hno _ b p' hp hdone

/-- Accepting a token that is neither a name nor a number, whatever is next. -/
theorem leads_accept (hname : token.isName = false) (hnumber : token.isNumber = false) :
    Leads (Reached tokens) (accept token) fun found p =>
      p.Reached tokens ∧ (found = true → p.Fresh tokens) := by
  rw [← bind_pure (accept token)]
  refine Leads.accept_bind hname hnumber (fun _ => id) ?_ ?_
  · exact leads_pure fun _ hp => ⟨hp.reached, fun _ => hp⟩
  · exact leads_pure fun _ hp => ⟨hp, fun hfalse => by cases hfalse⟩

/-- A rule whose yield is dropped. -/
theorem Leads.discard {after : Parsing → Prop} (h : Leads before rule fun _ => after) :
    Leads before (discard rule) fun _ => after := by
  have hbind : Functor.discard rule = rule >>= fun _ => pure () := by
    rw [bind_pure_comp]
    rfl
  rw [hbind]
  exact h.bind fun _ => leads_pure fun _ => id

/-- Taking a mark that must be next. -/
theorem leads_expect {m : String} (hbefore : ∀ p, before p → p.Reached tokens) :
    Leads before (expect m) fun _ => Fresh tokens := by
  refine Leads.accept_bind rfl rfl hbefore ?_ ?_
  · exact leads_pure fun _ => id
  · refine leads_peek.bind fun head => ?_
    split
    · exact leads_throw
    · exact leads_throw

/-- Taking a name that must be next. -/
theorem leads_expectName : Leads (Fresh tokens) expectName fun _ => Fresh tokens := by
  refine leads_next.bind fun token => ?_
  split
  · exact leads_pure fun _ h => h.1.2 rfl
  · exact leads_throw

/-- Going deeper, which keeps the kind of the place. -/
theorem leads_deeper {place : Place} : Leads before (deeper place) fun deep p =>
    before p ∧ deep.isExpression = place.isExpression := by
  unfold deeper
  split
  · exact leads_throw
  · exact leads_pure fun _ h => ⟨h, rfl⟩

/-- A repeated rule that always leaves off where it can start again. -/
theorem Leads.collect {rule : Parser (Option α)} {good : α → Prop}
    (h : Leads before rule fun found p => before p ∧ ∀ a, found = some a → good a) (fuel : Nat) :
    Leads before (collect rule fuel) fun items p => before p ∧ ∀ a ∈ items, good a := by
  induction fuel with
  | zero => exact leads_pure fun _ hp => ⟨hp, fun a ha => absurd ha List.not_mem_nil⟩
  | succ fuel ih =>
    refine h.bind fun found => ?_
    cases found with
    | none => exact leads_pure fun _ hp => ⟨hp.1, fun a ha => absurd ha List.not_mem_nil⟩
    | some item =>
      refine leads_and fun hitem => ?_
      refine ih.bind fun items => leads_pure fun _ hitems => ⟨hitems.1, fun a ha => ?_⟩
      rcases List.mem_cons.mp ha with rfl | hrest
      · exact hitem a rfl
      · exact hitems.2 a hrest

/-- A rule that is repeated as long as it can take tokens. -/
theorem Leads.collectAll {rule : Parser (Option α)} {good : α → Prop}
    (h : Leads before rule fun found p => before p ∧ ∀ a, found = some a → good a) :
    Leads before (collectAll rule) fun items p => before p ∧ ∀ a ∈ items, good a :=
  leads_get.bind fun _ => h.collect _

end Parser

end ProcessDisplay.Script
