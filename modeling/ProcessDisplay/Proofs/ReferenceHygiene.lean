import ProcessDisplay.Proofs.ExpressionNames
import ProcessDisplay.Proofs.LexemeRows
import ProcessDisplay.Proofs.ReferencePieces

/-!
# Hygiene of references

The replacement of quoted references is hygienic if the identifiers of the
parameters are tokens of the expression exactly where they were quoted. It
looks at single characters and knows neither names nor comments. So it is
hygienic exactly if the formula itself spells none of the identifiers, no
reference touches a name and no reference stands in a text, a template or a
comment.
-/

namespace ProcessDisplay.Formula

open Script (Lexeme Token lex Lexes isNamePart Apart tokensOf textsOf Spells Term namesOf)
open Text (offset Covers)

/-- A formula with its pieces and the lexemes of its expression. -/
structure Rewriting (limits : Script.Limits) (source : String) (names : List String) where
  /-- The pieces of the formula. -/
  pieces : List Piece
  /-- The lexemes of the expression. -/
  lexemes : List Lexeme
  /-- The formula is cut into the pieces. -/
  cut : Cuts names .expression source.toList pieces
  /-- The expression is cut into the lexemes. -/
  lexes : Lexes limits {} (outputsOf pieces).flatten lexemes

namespace Rewriting

variable {limits : Script.Limits} {source : String} {names : List String}

/-- The characters of the expression. -/
def text (w : Rewriting limits source names) : List Char := (outputsOf w.pieces).flatten

/-- A piece is a reference to a name, and its identifier begins at a position. -/
def Quotes (w : Rewriting limits source names) (k n i : Nat) : Prop :=
  (∃ raw, w.pieces[k]? = some (.reference raw i)) ∧ offset (outputsOf w.pieces) k = n

/-- A lexeme is the identifier of a name, and it begins at a position. -/
def Spells (w : Rewriting limits source names) (m n i : Nat) : Prop :=
  (∃ text, w.lexemes[m]? = some ⟨some (.name (referenceName i)), text⟩) ∧
    offset (textsOf w.lexemes) m = n

/-- No character that continues a name touches a reference. -/
def StandsApart (w : Rewriting limits source names) : Prop :=
  ∀ k n i, w.Quotes k n i →
    ((outputsOf w.pieces).take k).flatten.getLast?.any isNamePart = false ∧
      ((outputsOf w.pieces).drop (k + 1)).flatten.head?.any isNamePart = false

/-- The token of a lexeme of code, which is no text, template or comment. -/
def IsCode : Option Token → Prop
  | some (.name _) | some (.word _) | some (.integer _) | some (.float _) | some (.mark _) => True
  | _ => False

section Positions

variable {w : Rewriting limits source names} {k m n i : Nat}

/-- The lexemes and the pieces make up the same expression. -/
theorem flatten_textsOf (w : Rewriting limits source names) :
    (textsOf w.lexemes).flatten = (outputsOf w.pieces).flatten := w.lexes.flatten_textsOf

/-- The identifier of a reference. -/
theorem Quotes.output (h : w.Quotes k n i) :
    (outputsOf w.pieces)[k]? = some (referenceName i).toList := by
  obtain ⟨⟨raw, hk⟩, -⟩ := h
  rw [outputsOf, List.getElem?_map, hk]
  rfl

/-- A reference covers the position at which its identifier begins. -/
theorem Quotes.covers (h : w.Quotes k n i) : Covers (outputsOf w.pieces) k n := by
  rw [← h.2]
  exact Text.covers_offset h.output (by rw [toList_referenceName]; exact List.cons_ne_nil _ _)

/-- At a position at most one reference begins. -/
theorem Quotes.unique {k' i' : Nat} (h : w.Quotes k n i) (h' : w.Quotes k' n i') :
    k = k' ∧ i = i' := by
  obtain rfl := h.covers.unique h'.covers
  obtain ⟨⟨raw, hk⟩, -⟩ := h
  obtain ⟨⟨raw', hk'⟩, -⟩ := h'
  exact ⟨rfl, (Piece.reference.inj (Option.some.inj (hk.symm.trans hk'))).2⟩

/-- The characters of an identifier. -/
theorem Spells.text (h : w.Spells m n i) :
    (textsOf w.lexemes)[m]? = some (referenceName i).toList := by
  obtain ⟨⟨text, hm⟩, -⟩ := h
  have hspells : Script.Spells (referenceName i) text _ := (w.lexes.stands hm).2
  rw [textsOf, List.getElem?_map, hm, ← hspells.text_eq]
  rfl

/-- An identifier covers the position at which it begins. -/
theorem Spells.covers (h : w.Spells m n i) : Covers (textsOf w.lexemes) m n := by
  rw [← h.2]
  exact Text.covers_offset h.text (by rw [toList_referenceName]; exact List.cons_ne_nil _ _)

/-- At a position at most one identifier begins. -/
theorem Spells.unique {m' i' : Nat} (h : w.Spells m n i) (h' : w.Spells m' n i') :
    m = m' ∧ i = i' := by
  obtain rfl := h.covers.unique h'.covers
  obtain ⟨⟨text, hm⟩, -⟩ := h
  obtain ⟨⟨text', hm'⟩, -⟩ := h'
  have hsame := congrArg Lexeme.token (Option.some.inj (hm.symm.trans hm'))
  exact ⟨rfl, referenceName_inj (Token.name.inj (Option.some.inj hsame))⟩

end Positions

section Alignment

variable {w : Rewriting limits source names} {k m n i : Nat} {lexeme : Lexeme}

/-- What covers the beginning of a reference contains the letter it begins with. -/
theorem Quotes.mem_text (h : w.Quotes k n i) (hm : w.lexemes[m]? = some lexeme)
    (hcovers : Covers (textsOf w.lexemes) m n) : 'p' ∈ lexeme.text := by
  have htext : (textsOf w.lexemes)[m]? = some lexeme.text := by
    rw [textsOf, List.getElem?_map, hm]
    rfl
  rw [← h.2] at hcovers
  obtain ⟨inside, more, hparts, hmore, -, hdrop⟩ :=
    Text.split_of_covers w.flatten_textsOf htext hcovers
  obtain ⟨first, rest, rfl⟩ := List.exists_cons_of_ne_nil hmore
  rw [Text.drop_flatten_of_getElem? h.output, toList_referenceName] at hdrop
  obtain rfl := (List.cons.inj hdrop).1
  rw [hparts]
  exact List.mem_append_right _ List.mem_cons_self

/-- A word that covers the beginning of a reference that no name touches is its
identifier: it begins there, since its characters all continue a name, and so it
ends with the identifier. -/
theorem Quotes.eq_of_word (h : w.Quotes k n i) (hapart : w.StandsApart)
    (hm : w.lexemes[m]? = some lexeme) (hcovers : Covers (textsOf w.lexemes) m n) {s : String}
    (hword : Script.Spells s lexeme.text ((textsOf w.lexemes).drop (m + 1)).flatten) :
    s = referenceName i ∧ offset (textsOf w.lexemes) m = n := by
  obtain ⟨hbefore, hafter⟩ := hapart k n i h
  have htext : (textsOf w.lexemes)[m]? = some lexeme.text := by
    rw [textsOf, List.getElem?_map, hm]
    rfl
  rw [← h.2] at hcovers
  obtain ⟨inside, more, hparts, -, htake, hdrop⟩ :=
    Text.split_of_covers w.flatten_textsOf htext hcovers
  have hcontinues := hword.continues
  -- A part of the word before the reference would end with the character before it.
  obtain rfl : inside = [] := by
    by_contra hinside
    rw [htake, List.getLast?_append_of_ne_nil _ hinside, List.getLast?_eq_some_getLast hinside]
      at hbefore
    have hlast : isNamePart (inside.getLast hinside) = true :=
      hcontinues _ (by rw [hparts]; exact List.mem_append_left _ (List.getLast_mem hinside))
    rw [Option.any_some, hlast] at hbefore
    cases hbefore
  rw [List.nil_append] at hparts
  rw [List.append_nil] at htake
  rw [Text.drop_flatten_of_getElem? h.output, ← hparts] at hdrop
  -- Both are what the expression has there up to the first character that continues no name.
  have hsame : (referenceName i).toList = lexeme.text := by
    rw [← Text.takeWhile_append_of_stop (fun _ => isNamePart_of_mem_referenceName) hafter, hdrop,
      Text.takeWhile_append_of_stop hcontinues hword.ends]
  refine ⟨String.toList_inj.mp (hword.text_eq.symm.trans hsame.symm), ?_⟩
  rw [← h.2, offset, offset, htake]

/-- A lexeme of code that covers the beginning of a reference that no name
touches is its identifier. -/
theorem Quotes.spells (h : w.Quotes k n i) (hapart : w.StandsApart)
    (hm : w.lexemes[m]? = some lexeme) (hcovers : Covers (textsOf w.lexemes) m n)
    (hcode : IsCode lexeme.token) : w.Spells m n i := by
  have hp := h.mem_text hm hcovers
  obtain ⟨token, text⟩ := lexeme
  obtain ⟨-, hstands⟩ := w.lexes.stands hm
  cases token with
  | none => exact hcode.elim
  | some token =>
    cases token with
    | name s =>
      obtain ⟨rfl, hoffset⟩ := h.eq_of_word hapart hm hcovers hstands
      exact ⟨⟨text, hm⟩, hoffset⟩
    | word s =>
      obtain ⟨rfl, -⟩ := h.eq_of_word hapart hm hcovers hstands.1
      exact absurd hstands.2 (not_isReserved_referenceName i)
    | integer _ | float _ => exact absurd hp hstands
    | mark _ => exact absurd hp hstands.1
    | character _ | text _ | templateOpen _ | templateNext _ | templateClose _ =>
      exact hcode.elim

end Alignment

end Rewriting

end ProcessDisplay.Formula
