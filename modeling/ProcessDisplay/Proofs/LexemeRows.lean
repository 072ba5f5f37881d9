import Mathlib.Data.List.Chain
import ProcessDisplay.Proofs.Lexemes
import ProcessDisplay.Proofs.TextParts

/-!
# Rows of lexemes

The steps from the beginning of a source cut it into a row of lexemes, which
is the only one. Where no name follows a number directly, the characters
around a name continue it on neither side.
-/

namespace ProcessDisplay.Script

/-- The lexemes that the steps from a state take, up to the end of the source. -/
inductive Lexes (limits : Limits) : LexState → List Char → List Lexeme → Prop where
  /-- Nothing is left, and no template is open. -/
  | done {state : LexState} (h : state.templates = []) : Lexes limits state [] []
  /-- One step and those that follow it. -/
  | step {state state' : LexState} {text rest : List Char} {token : Option Token}
    {lexemes : List Lexeme} (htext : text ≠ [])
    (h : lexStep limits state (text ++ rest) = .ok (token, state', rest))
    (hrest : Lexes limits state' rest lexemes) :
    Lexes limits state (text ++ rest) (⟨token, text⟩ :: lexemes)

/-- The tokens of lexemes. -/
def tokensOf (lexemes : List Lexeme) : List Token := lexemes.filterMap Lexeme.token

/-- The characters of lexemes, lexeme by lexeme. -/
def textsOf (lexemes : List Lexeme) : List (List Char) := lexemes.map Lexeme.text

/-- Whether a token is a name. -/
def Token.isName : Token → Bool
  | .name _ => true
  | _ => false

/-- No name follows a number directly. -/
def Apart (tokens : List Token) : Prop :=
  tokens.IsChain fun first second => first.isNumber = true → second.isName = false

variable {limits : Limits} {state : LexState} {cs : List Char} {lexemes : List Lexeme}

/-- With fuel for every character, all tokens are those of the lexemes of a text. -/
theorem lexes_of_lexAll {fuel : Nat} {tokens : List Token} (hfuel : cs.length < fuel)
    (h : lexAll limits fuel state cs = .ok tokens) :
    ∃ lexemes, Lexes limits state cs lexemes ∧ tokens = tokensOf lexemes := by
  induction fuel generalizing state cs tokens with
  | zero => exact absurd hfuel (Nat.not_lt_zero _)
  | succ fuel ih =>
    rw [lexAll] at h
    split at h
    · next hempty =>
      obtain rfl := List.isEmpty_iff.mp hempty
      split at h
      · next hclosed =>
        obtain rfl := Except.ok.inj h
        exact ⟨[], .done (List.isEmpty_iff.mp hclosed), rfl⟩
      · cases h
    · next hsome =>
      obtain ⟨⟨token, state', rest⟩, hstep, h⟩ := exceptBind_eq_ok_iff.mp h
      obtain ⟨more, hmore, h⟩ := exceptBind_eq_ok_iff.mp h
      obtain ⟨text, rfl, htext, -⟩ := lexStep_spec (by simpa using hsome) hstep
      have htaken := List.length_pos_iff.mpr htext
      have hless : rest.length < fuel := by
        rw [List.length_append] at hfuel
        omega
      obtain ⟨lexemes, hlexes, rfl⟩ := ih hless hmore
      refine ⟨⟨token, text⟩ :: lexemes, .step htext hstep hlexes, ?_⟩
      obtain rfl := Except.ok.inj h
      cases token with
      | none => rfl
      | some token => rfl

/-- The tokens of a source are those of its lexemes. -/
theorem lexes_of_lex {source : String} {tokens : List Token} (h : lex limits source = .ok tokens) :
    ∃ lexemes, Lexes limits {} source.toList lexemes ∧ tokens = tokensOf lexemes := by
  refine lexes_of_lexAll ?_ h
  rw [String.length_toList]
  exact Nat.lt_succ_self _

namespace Lexes

/-- The lexemes make up the whole text. -/
theorem flatten_textsOf (h : Lexes limits state cs lexemes) : (textsOf lexemes).flatten = cs := by
  induction h with
  | done _ => rfl
  | step _ _ _ ih => rw [textsOf, List.map_cons, List.flatten_cons, ← textsOf, ih]

/-- A text has only one row of lexemes. -/
theorem unique {others : List Lexeme} (h : Lexes limits state cs lexemes)
    (hothers : Lexes limits state cs others) : lexemes = others := by
  induction h generalizing others with
  | done _ =>
    generalize hcs : ([] : List Char) = cs at hothers
    cases hothers with
    | done _ => rfl
    | step htext _ _ => exact absurd (List.append_eq_nil_iff.mp hcs.symm).1 htext
  | @step state state' text rest token lexemes htext hstep _ ih =>
    generalize hcs : text ++ rest = cs at hothers
    cases hothers with
    | done _ => exact absurd (List.append_eq_nil_iff.mp hcs).1 htext
    | step _ hstep' hrest' =>
      rw [hcs] at hstep
      obtain ⟨rfl, hmore⟩ := Prod.mk.inj (Except.ok.inj (hstep.symm.trans hstep'))
      obtain ⟨rfl, rfl⟩ := Prod.mk.inj hmore
      obtain rfl := List.append_cancel_right hcs
      rw [ih hrest']

/-- Each lexeme stands as its token says. -/
theorem stands {k : Nat} {lexeme : Lexeme} (h : Lexes limits state cs lexemes)
    (hk : lexemes[k]? = some lexeme) :
    lexeme.text ≠ [] ∧
      Stands lexeme.text ((textsOf lexemes).drop (k + 1)).flatten lexeme.token := by
  induction h generalizing k with
  | done _ => cases hk
  | @step state state' text rest token lexemes htext hstep hrest ih =>
    cases k with
    | zero =>
      obtain rfl := Option.some.inj hk
      obtain ⟨text', hsame, hsome, hstands⟩ := lexStep_spec (by simp [htext]) hstep
      obtain rfl := List.append_cancel_right hsame
      refine ⟨htext, ?_⟩
      rw [textsOf, List.map_cons, List.drop_one, List.tail_cons, ← textsOf, hrest.flatten_textsOf]
      exact hstands
    | succ k => exact ih hk

/-- Lexemes next to each other are tokens next to each other. -/
theorem apart {k : Nat} {first second : Token} {text text' : List Char}
    (hapart : Apart (tokensOf lexemes)) (hfirst : lexemes[k]? = some ⟨some first, text⟩)
    (hsecond : lexemes[k + 1]? = some ⟨some second, text'⟩) (hnumber : first.isNumber = true) :
    second.isName = false := by
  obtain ⟨hk, hat⟩ := List.getElem?_eq_some_iff.mp hfirst
  obtain ⟨hk', hat'⟩ := List.getElem?_eq_some_iff.mp hsecond
  have hrow : lexemes = lexemes.take k ++ ⟨some first, text⟩ :: ⟨some second, text'⟩ ::
      lexemes.drop (k + 2) := by
    rw [← hat, ← hat', List.getElem_cons_drop, List.getElem_cons_drop, List.take_append_drop]
  rw [hrow] at hapart
  simp only [tokensOf, List.filterMap_append, List.filterMap_cons] at hapart
  exact (List.isChain_append_cons_cons.mp hapart).2.1 hnumber

/-- Where no name follows a number, the characters around a name do not continue it. -/
theorem name {k : Nat} {s : String} {text : List Char} (h : Lexes limits state cs lexemes)
    (hapart : Apart (tokensOf lexemes)) (hk : lexemes[k]? = some ⟨some (.name s), text⟩) :
    ((textsOf lexemes).take k).flatten.getLast?.any isNamePart = false ∧
      Spells s text ((textsOf lexemes).drop (k + 1)).flatten := by
  have hspells : Spells s text ((textsOf lexemes).drop (k + 1)).flatten := (h.stands hk).2
  refine ⟨?_, hspells⟩
  cases k with
  | zero => rfl
  | succ k =>
    have hlast : k < lexemes.length := Nat.lt_of_succ_lt (List.getElem?_eq_some_iff.mp hk).1
    obtain ⟨⟨token, before⟩, hprevious⟩ : ∃ previous, lexemes[k]? = some previous :=
      ⟨_, List.getElem?_eq_getElem hlast⟩
    obtain ⟨hsome, hstands⟩ := h.stands hprevious
    have hrest : ((textsOf lexemes).drop (k + 1)).flatten =
        text ++ ((textsOf lexemes).drop (k + 1 + 1)).flatten :=
      Text.drop_flatten_of_getElem? (by rw [textsOf, List.getElem?_map, hk]; rfl)
    have htake : (textsOf lexemes).take (k + 1) = (textsOf lexemes).take k ++ [before] := by
      rw [List.take_add_one, textsOf, List.getElem?_map, hprevious]
      rfl
    rw [hrest] at hstands
    rw [htake, List.flatten_append, List.flatten_singleton, List.getLast?_append_of_ne_nil _ hsome]
    have hfollows := hspells.head?
    have hclosed : Closed before (text ++ ((textsOf lexemes).drop (k + 1 + 1)).flatten) →
        before.getLast?.any isNamePart = false := by
      rintro (hlast | hnext)
      · exact hlast
      · rw [hnext] at hfollows
        cases hfollows
    have hnumber : ∀ number : Token, token = some number → number.isNumber = true →
        before.getLast?.any isNamePart = false := by
      rintro number rfl hnumber
      cases Lexes.apart hapart hprevious hk hnumber
    cases token with
    | none => exact hclosed hstands
    | some token =>
      cases token with
      | integer _ | float _ => exact hnumber _ rfl rfl
      | character _ | text _ | templateOpen _ | templateNext _ | templateClose _ =>
        exact hclosed hstands
      | name _ => exact hclosed (.inr hstands.ends)
      | word _ => exact hclosed (.inr hstands.1.ends)
      | mark _ => exact hclosed hstands.2

end Lexes

end ProcessDisplay.Script
