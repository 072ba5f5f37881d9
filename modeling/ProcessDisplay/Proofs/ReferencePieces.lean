import ProcessDisplay.Proofs.ExpressionContract
import ProcessDisplay.Proofs.Lexemes
import ProcessDisplay.Proofs.NumberedNames
import ProcessDisplay.Proofs.TextParts

/-!
# The pieces of a formula

A formula is cut into quoted references and single characters. Its expression
has the same pieces in the same order: an identifier for every reference, and
every other character as it is.
-/

namespace ProcessDisplay.Formula

/-- A piece of a formula. -/
inductive Piece where
  /-- A character that is copied. -/
  | copied (c : Char)
  /-- What stands between two quotes, and the position of its name. -/
  | reference (raw : List Char) (index : Nat)

/-- What a piece is in the formula. -/
def Piece.source : Piece → List Char
  | copied c => [c]
  | reference raw _ => '\'' :: raw ++ ['\'']

/-- What a piece is in the expression. -/
def Piece.output : Piece → List Char
  | copied c => [c]
  | reference _ index => (referenceName index).toList

/-- What some pieces are in the expression, piece by piece. -/
def outputsOf (pieces : List Piece) : List (List Char) := pieces.map Piece.output

/-- Where the character after one of a text stands. -/
def afterText (isProtected : Bool) (c : Char) : Region :=
  if isProtected then .text false
  else if c = '\\' then .text true
  else if c = '"' then .expression
  else .text false

/-- What is left of a formula from a region on, outside references, and its
pieces. Only quotes outside texts belong to references, and each reference is
to the name that it quotes. -/
inductive Cuts (names : List String) : Region → List Char → List Piece → Prop where
  /-- Nothing is left. -/
  | done {region : Region} : Cuts names region [] []
  /-- A character of an expression. -/
  | code {c : Char} {rest : List Char} {pieces : List Piece} (hc : c ≠ '\'')
    (hrest : Cuts names (if c = '"' then .text false else .expression) rest pieces) :
    Cuts names .expression (c :: rest) (.copied c :: pieces)
  /-- A character of a text. -/
  | text {isProtected : Bool} {c : Char} {rest : List Char} {pieces : List Piece}
    (hrest : Cuts names (afterText isProtected c) rest pieces) :
    Cuts names (.text isProtected) (c :: rest) (.copied c :: pieces)
  /-- A reference. -/
  | reference {raw rest : List Char} {index : Nat} {pieces : List Piece} (hraw : '\'' ∉ raw)
    (hname : names[index]? = some (String.ofList (Text.trimmed raw)))
    (hrest : Cuts names .expression rest pieces) :
    Cuts names .expression ('\'' :: raw ++ '\'' :: rest) (.reference raw index :: pieces)

/-- What is left of a formula from any region on, and its pieces. Within a
reference the first piece is the whole reference. -/
def Continues (names : List String) : Region → List Char → List Piece → Prop
  | .reference read, cs, pieces => ∃ raw rest index more,
      cs = raw ++ '\'' :: rest ∧ '\'' ∉ raw ∧
      names[index]? = some (String.ofList (Text.trimmed (read.reverse ++ raw))) ∧
      Cuts names .expression rest more ∧ pieces = .reference (read.reverse ++ raw) index :: more
  | region, cs, pieces => Cuts names region cs pieces

namespace Cuts

variable {names : List String} {region : Region} {cs : List Char} {pieces : List Piece}

/-- Up to its closing quote there is one way to read a reference. -/
theorem eq_of_append_quote {raw raw' rest rest' : List Char} (hraw : '\'' ∉ raw)
    (hraw' : '\'' ∉ raw') (h : raw ++ '\'' :: rest = raw' ++ '\'' :: rest') :
    raw = raw' ∧ rest = rest' := by
  have htake : ∀ {raw rest : List Char}, '\'' ∉ raw →
      (raw ++ '\'' :: rest).takeWhile (fun c => c ≠ '\'') = raw := fun hraw =>
    Text.takeWhile_append_of_stop (fun c hc => decide_eq_true fun hquote => hraw (hquote ▸ hc)) rfl
  have hsame : raw = raw' := by rw [← htake hraw, h, htake hraw']
  subst hsame
  exact ⟨rfl, (List.cons.inj (List.append_cancel_left h)).2⟩

/-- Where names differ, there is only one way to cut a formula. -/
theorem unique {others : List Piece} (hnames : names.Nodup) (h : Cuts names region cs pieces)
    (hothers : Cuts names region cs others) : pieces = others := by
  induction h generalizing others with
  | done => cases hothers with | done => rfl
  | code hc _ ih =>
    cases hothers with
    | code _ hrest => rw [ih hrest]
    | reference => exact absurd rfl hc
  | text _ ih => cases hothers with | text hrest => rw [ih hrest]
  | @reference raw rest index pieces hraw hname _ ih =>
    generalize hcs : '\'' :: raw ++ '\'' :: rest = cs at hothers
    cases hothers with
    | done => cases hcs
    | code hc => exact absurd (List.cons.inj hcs).1.symm hc
    | reference hraw' hname' hrest' =>
      obtain ⟨rfl, rfl⟩ := eq_of_append_quote hraw hraw' (List.cons.inj hcs).2
      obtain ⟨hindex, hat⟩ := List.getElem?_eq_some_iff.mp hname
      obtain ⟨hindex', hat'⟩ := List.getElem?_eq_some_iff.mp hname'
      obtain rfl := (hnames.getElem_inj_iff).mp (hat.trans hat'.symm)
      rw [ih hrest']

/-- Characters that are no quotes are copied. -/
theorem copied (names : List String) {cs : List Char}
    (h : cs.all (fun c => decide (c ≠ '\'') && decide (c ≠ '"')) = true) :
    Cuts names .expression cs (cs.map .copied) := by
  induction cs with
  | nil => exact .done
  | cons c rest ih =>
    rw [List.all_cons] at h
    obtain ⟨hfirst, hrest⟩ := Bool.and_eq_true_iff.mp h
    obtain ⟨hquote, htext⟩ := Bool.and_eq_true_iff.mp hfirst
    refine .code (of_decide_eq_true hquote) ?_
    rw [if_neg (of_decide_eq_true htext)]
    exact ih hrest

end Cuts

/-- Outside references what is left is cut into pieces. -/
theorem cuts_of_continues {names : List String} {region : Region} {cs : List Char}
    {pieces : List Piece} (hregion : ∀ read, region ≠ .reference read)
    (h : Continues names region cs pieces) : Cuts names region cs pieces := by
  cases region with
  | expression | text isProtected => exact h
  | reference read => exact absurd rfl (hregion read)

/-- A registered name is among the names at its position, and the names before stay. -/
theorem register_spec (names : List String) (name : String) :
    names <+: (register names name).1 ∧
      (register names name).1[(register names name).2]? = some name := by
  unfold register
  cases hfound : names.idxOf? name with
  | some index =>
    obtain ⟨hindex, hat, -⟩ := List.idxOf?_eq_some_iff.mp hfound
    exact ⟨List.prefix_rfl, List.getElem?_eq_some_iff.mpr ⟨hindex, hat⟩⟩
  | none => exact ⟨List.prefix_append _ _, by simp⟩

/-- A formula whose references are replaced is cut into pieces. -/
theorem continues_of_replaceFrom {source : String} {names found : List String} {region : Region}
    {cs out : List Char} (h : replaceFrom source names region cs = .ok (out, found)) :
    names <+: found ∧
      ∃ pieces, Continues found region cs pieces ∧ out = (outputsOf pieces).flatten := by
  -- The names at the end are those of all pieces, since later references only add names.
  induction cs generalizing names region out with
  | nil =>
    cases region with
    | expression | text isProtected =>
      obtain ⟨rfl, rfl⟩ := Prod.mk.inj (Except.ok.inj h)
      exact ⟨List.prefix_rfl, [], .done, rfl⟩
    | reference read => cases h
  | cons c rest ih =>
    cases region with
    | expression =>
      rw [replaceFrom] at h
      split at h
      · next hquote =>
        subst hquote
        obtain ⟨hnames, pieces, hpieces, hout⟩ := ih h
        obtain ⟨raw, rest, index, more, rfl, hraw, hname, hmore, rfl⟩ := hpieces
        exact ⟨hnames, _, .reference hraw hname hmore, hout⟩
      · next hc =>
        obtain ⟨⟨out', found'⟩, hrest, hpair⟩ := exceptMap_eq_ok_iff.mp h
        obtain ⟨rfl, rfl⟩ := Prod.mk.inj hpair
        obtain ⟨hnames, pieces, hpieces, rfl⟩ := ih hrest
        refine ⟨hnames, .copied c :: pieces, .code hc (cuts_of_continues ?_ hpieces), rfl⟩
        intro read
        split <;> exact Region.noConfusion
    | text isProtected =>
      obtain ⟨⟨out', found'⟩, hrest, hpair⟩ := exceptMap_eq_ok_iff.mp h
      obtain ⟨rfl, rfl⟩ := Prod.mk.inj hpair
      obtain ⟨hnames, pieces, hpieces, rfl⟩ := ih hrest
      refine ⟨hnames, .copied c :: pieces, .text (cuts_of_continues ?_ hpieces), rfl⟩
      intro read
      unfold afterText
      split_ifs <;> exact Region.noConfusion
    | reference read =>
      rw [replaceFrom] at h
      split at h
      · next hquote =>
        subst hquote
        dsimp only at h
        split at h
        · cases h
        · obtain ⟨⟨out', found'⟩, hrest, hpair⟩ := exceptMap_eq_ok_iff.mp h
          obtain ⟨rfl, rfl⟩ := Prod.mk.inj hpair
          obtain ⟨hnames, pieces, hpieces, rfl⟩ := ih hrest
          obtain ⟨hkept, hname⟩ :=
            register_spec names (String.ofList (Text.trimmed read.reverse))
          refine ⟨hkept.trans hnames, _,
            ⟨[], rest, _, pieces, rfl, List.not_mem_nil, ?_, hpieces, rfl⟩, rfl⟩
          rw [List.append_nil]
          obtain ⟨hindex, hat⟩ := List.getElem?_eq_some_iff.mp hname
          rw [List.prefix_iff_getElem?.mp hnames _ hindex, hat]
      · next hc =>
        obtain ⟨hnames, pieces, hpieces, hout⟩ := ih h
        obtain ⟨raw, rest, index, more, rfl, hraw, hname, hmore, rfl⟩ := hpieces
        have hread : (c :: read).reverse ++ raw = read.reverse ++ c :: raw := by simp
        rw [hread] at hname hout
        refine ⟨hnames, _, ⟨c :: raw, rest, index, more, rfl, ?_, hname, hmore, rfl⟩, hout⟩
        exact List.not_mem_cons_of_ne_of_not_mem (Ne.symm hc) hraw

/-- A compiled formula is cut into pieces, and its expression is read from them. -/
theorem pieces_of_compile {L : Script.Language} {limits : Script.Limits} {source : String}
    {f : ExpressionFormula} (h : ExpressionFormula.compile L limits source = .ok f) :
    ∃ pieces, Cuts f.parameters .expression source.toList pieces ∧
      replaceReferences source = .ok (String.ofList (outputsOf pieces).flatten, f.parameters) ∧
      L.expression limits (String.ofList (outputsOf pieces).flatten) = .ok f.expression := by
  obtain ⟨text, hreplace, hexpression, -⟩ := ExpressionFormula.exists_of_compile h
  obtain ⟨⟨out, names⟩, hfrom, hpair⟩ := exceptMap_eq_ok_iff.mp hreplace
  obtain ⟨rfl, rfl⟩ := Prod.mk.inj hpair
  obtain ⟨-, pieces, hpieces, rfl⟩ := continues_of_replaceFrom hfrom
  exact ⟨pieces, hpieces, hreplace, hexpression⟩

/-- The identifiers of different references differ. -/
theorem referenceName_inj {i j : Nat} (h : referenceName i = referenceName j) : i = j := by
  have hstem : referenceStem.toList.all (fun c => !c.isDigit) = true := by decide
  exact (Decimal.numbered_inj hstem hstem h).2

/-- The identifier of a reference is its stem and its number. -/
theorem toList_referenceName (i : Nat) :
    (referenceName i).toList = 'p' :: 'v' :: 'r' :: 'e' :: 'f' :: (toString i).toList := by
  rw [referenceName, String.toList_append]
  rfl

/-- The identifier of a reference may continue a name with each of its characters. -/
theorem isNamePart_of_mem_referenceName {i : Nat} {c : Char} (h : c ∈ (referenceName i).toList) :
    Script.isNamePart c = true := by
  rw [referenceName, String.toList_append] at h
  rcases List.mem_append.mp h with hstem | hdigits
  · have hall : referenceStem.toList.all Script.isNamePart = true := by decide
    exact List.all_eq_true.mp hall c hstem
  · simp [Script.isNamePart, Char.isAlphanum, Decimal.isDigit_of_mem_toString hdigits]

/-- The identifier of a reference is no reserved word. -/
theorem not_isReserved_referenceName (i : Nat) : ¬Script.IsReserved (referenceName i) := by
  have hwords : ∀ s ∈ Script.keywords ++ Script.reservedWords ++ ["_"],
      s.toList.take 2 ≠ ['p', 'v'] := by
    decide
  intro hreserved
  refine hwords (referenceName i) ?_ (by rw [toList_referenceName]; rfl)
  simpa [Script.IsReserved, or_assoc] using hreserved

end ProcessDisplay.Formula
