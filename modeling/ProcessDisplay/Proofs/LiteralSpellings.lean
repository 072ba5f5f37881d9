import ProcessDisplay.Proofs.PlainNumerals
import ProcessDisplay.Value.Literal

/-!
# Literals cover every value

Every value has a literal: a number, a truth word or a bracketed array is its
own text, and a text stands between two equal quotes, whatever it holds. A
quote or a bracket can not begin a number or a truth word, and the closing one
is the last character, so nothing inside ends the literal early.
-/

namespace ProcessDisplay

namespace Text

variable {separator : Char} {cs : List Char} {parts : List (List Char)}

/-- There is nothing to trim where there is no blank. -/
theorem trimmed_of_plain (h : ∀ c ∈ cs, isBlank c = false) : trimmed cs = cs := by
  have hleft : cs.dropWhile isBlank = cs := by
    cases cs with
    | nil => rfl
    | cons c rest => exact List.dropWhile_cons_of_neg (by simp [h c List.mem_cons_self])
  rw [trimmed_eq_rdropWhile, hleft, List.rdropWhile_eq_self_iff]
  intro hne
  simp [h _ (List.getLast_mem hne)]

/-- Characters between two that are not blank are trimmed. -/
theorem trimmed_enclosed {first last : Char} (hfirst : isBlank first = false)
    (hlast : isBlank last = false) (cs : List Char) :
    trimmed (first :: (cs ++ [last])) = first :: (cs ++ [last]) := by
  refine trimmed_append hfirst (List.cons_ne_nil _ _) ?_
  rw [List.rdropWhile_eq_self_iff]
  intro _
  simp [hlast]

/-- A blank in front changes no trimmed piece. -/
theorem map_trimmed_pieces_cons {c : Char} (hblank : isBlank c = true) (hc : c ≠ separator)
    (cs : List Char) :
    (pieces separator (c :: cs)).map trimmed = (pieces separator cs).map trimmed := by
  have htrimmed : ∀ piece, trimmed (c :: piece) = trimmed piece := by
    intro piece
    unfold trimmed
    rw [List.dropWhile_cons_of_pos hblank]
  rw [pieces, if_neg hc]
  split
  · next hnil => exact absurd hnil (pieces_ne_nil separator cs)
  · next first others hpieces => rw [hpieces, List.map_cons, List.map_cons, htrimmed]

/-- Parts without blanks, joined with a separator and a blank, come apart again. -/
theorem map_trimmed_pieces (hne : parts ≠ []) (hseparator : separator ≠ ' ')
    (h : ∀ part ∈ parts, ∀ c ∈ part, isBlank c = false ∧ c ≠ separator) :
    (pieces separator (List.intercalate [separator, ' '] parts)).map trimmed = parts := by
  induction parts with
  | nil => exact absurd rfl hne
  | cons part rest ih =>
    have hpart := h part List.mem_cons_self
    have hfree : separator ∉ part := fun hmem => (hpart separator hmem).2 rfl
    have htrimmed : trimmed part = part := trimmed_of_plain fun c hc => (hpart c hc).1
    cases rest with
    | nil =>
      rw [List.intercalate_singleton, pieces_of_not_mem hfree, List.map_singleton, htrimmed]
    | cons next others =>
      have hrest := ih (by simp) fun p hp => h p (List.mem_cons_of_mem _ hp)
      rw [List.intercalate_cons_cons, List.append_assoc, List.cons_append, List.singleton_append,
        pieces_append hfree, List.map_cons, htrimmed,
        map_trimmed_pieces_cons rfl hseparator.symm, hrest]

end Text

namespace Decimal

/-- The characters that enclose a text or begin an array. -/
def delimiters : List Char := ['"', '\'', '[']

/-- A row of characters is no other one with another beginning. -/
theorem cons_ne_of_head? {c : Char} {w : List Char} (h : w.head? ≠ some c) (rest : List Char) :
    c :: rest ≠ w := by
  rintro rfl
  exact h rfl

/-- No number begins with a quote or a bracket. -/
theorem number?_eq_none {c : Char} (hc : c ∈ delimiters) (rest : List Char) :
    number? (c :: rest) = none := by
  have hfirst : delimiters.all (fun c => !c.isDigit && c != '.' && c != '+' && c != '-' &&
      c.toLower != 'i' && c.toLower != 'n') = true := by decide
  have hall := List.all_eq_true.mp hfirst c hc
  simp only [Bool.and_eq_true, Bool.not_eq_true', bne_iff_ne] at hall
  obtain ⟨⟨⟨⟨⟨hdigit, hpoint⟩, hplus⟩, hminus⟩, hi⟩, hn⟩ := hall
  have hword : ∀ w : List Char, w.head? = some 'i' ∨ w.head? = some 'n' →
      (c :: rest).map Char.toLower ≠ w := by
    intro w hw
    refine cons_ne_of_head? ?_ _
    rcases hw with hw | hw <;> rw [hw, ne_eq, Option.some_inj]
    · exact hi.symm
    · exact hn.symm
  have hunsigned : unsigned? (c :: rest) = none := by
    unfold unsigned?
    simp only [hword "inf".toList (.inl rfl), hword "infinity".toList (.inl rfl),
      hword "nan".toList (.inr rfl), decide_false, Bool.or_self, Bool.false_eq_true, if_false]
    rw [List.takeWhile_cons_of_neg (by simp [hdigit]),
      List.dropWhile_cons_of_neg (by simp [hdigit])]
    split
    · next heq => exact absurd (List.cons.inj heq).1 hpoint
    · rfl
  unfold number?
  split
  · next heq => exact absurd (List.cons.inj heq).1 hplus
  · next heq => exact absurd (List.cons.inj heq).1 hminus
  · exact hunsigned

end Decimal

namespace Value

/-- The literals of a value: a text between two double or two single quotes,
and the text view of any other value. -/
def spellings : Value → List String
  | text s => ["\"" ++ s ++ "\"", "'" ++ s ++ "'"]
  | v => [v.toText none]

/-- A quote or a bracket begins neither a number nor a truth word, so what
follows is read as a text in quotes, an array or a text. -/
theorem ofTrimmed_delimited {c : Char} (hc : c ∈ Decimal.delimiters) (rest : List Char) :
    ofTrimmed (c :: rest) =
      ((unquoted? (c :: rest)).map fun inner => text (String.ofList inner)).getD
        (((bracketed? (c :: rest)).map array).getD (text (String.ofList (c :: rest)))) := by
  have hfirst : Decimal.delimiters.all (fun c => c != 't' && c != 'f') = true := by decide
  have hletters := List.all_eq_true.mp hfirst c hc
  simp only [Bool.and_eq_true, bne_iff_ne] at hletters
  have htrue : c :: rest ≠ "true".toList :=
    Decimal.cons_ne_of_head? (by simpa using hletters.1.symm) rest
  have hfalse : c :: rest ≠ "false".toList :=
    Decimal.cons_ne_of_head? (by simpa using hletters.2.symm) rest
  rw [ofTrimmed, Decimal.number?_eq_none hc]
  dsimp only
  rw [if_neg htrue, if_neg hfalse]
  cases unquoted? (c :: rest) with
  | some inner => rfl
  | none => cases bracketed? (c :: rest) <;> rfl

/-- A number is spelled by its text. -/
theorem ofLiteral_number (x : Float) : ofLiteral (numberText none x) = number x := by
  have hblank : ∀ c ∈ Decimal.Layout.plain.render x, Text.isBlank c = false :=
    fun c hc => ((Decimal.isNumeric_render x).plain hc).1
  unfold ofLiteral numberText Decimal.plainText
  rw [String.toList_ofList, Text.trimmed_of_plain hblank, ofTrimmed, Decimal.number?_render]

/-- Characters between two equal quotes spell the text of these characters. -/
theorem ofTrimmed_quoted {quote : Char} (h : quote = '"' ∨ quote = '\'') (cs : List Char) :
    ofTrimmed (Text.trimmed (quote :: (cs ++ [quote]))) = text (String.ofList cs) := by
  have hblank : Text.isBlank quote = false := by rcases h with rfl | rfl <;> rfl
  have hdelimiter : quote ∈ Decimal.delimiters := by rcases h with rfl | rfl <;> decide
  have hinner : unquoted? (quote :: (cs ++ [quote])) = some cs := by
    rw [unquoted?, if_pos (by simpa using h), Text.beforeLast?_append]
  rw [Text.trimmed_enclosed hblank hblank, ofTrimmed_delimited hdelimiter, hinner]
  rfl

/-- The numbers of an array are read from its text. -/
theorem elements?_joined (xs : List Float) :
    elements? (Text.joined ", " (xs.map (numberText none))).toList = some xs := by
  have hparts : (xs.map (numberText none)).map String.toList =
      xs.map Decimal.Layout.plain.render := by
    rw [List.map_map]
    exact List.map_congr_left fun x _ => String.toList_ofList
  unfold elements? Text.joined
  rw [String.toList_intercalate, hparts]
  cases xs with
  | nil => rfl
  | cons x rest =>
    have hplain : ∀ part ∈ (x :: rest).map Decimal.Layout.plain.render, ∀ c ∈ part,
        Text.isBlank c = false ∧ c ≠ ',' := by
      intro part hpart c hc
      obtain ⟨y, -, rfl⟩ := List.mem_map.mp hpart
      exact (Decimal.isNumeric_render y).plain hc
    have hpieces := Text.map_trimmed_pieces (by simp) (by decide) hplain
    have hsome : ∀ part ∈ (x :: rest).map Decimal.Layout.plain.render,
        (!part.isEmpty) = true := by
      intro part hpart
      obtain ⟨y, -, rfl⟩ := List.mem_map.mp hpart
      simp [Decimal.render_ne_nil y]
    change (((Text.pieces ',' (List.intercalate [',', ' '] _)).map Text.trimmed).filter _).mapM
      _ = _
    rw [hpieces, List.filter_eq_self.mpr hsome]
    generalize x :: rest = ys
    induction ys with
    | nil => rfl
    | cons y ys ih => simp [Decimal.number?_render, ih]

/-- An array is spelled by its text. -/
theorem ofLiteral_array (xs : List Float) : ofLiteral ((array xs).toText none) = array xs := by
  have htext : ((array xs).toText none).toList =
      '[' :: ((Text.joined ", " (xs.map (numberText none))).toList ++ [']']) := by
    simp [toText]
  have helements := elements?_joined xs
  generalize (Text.joined ", " (xs.map (numberText none))).toList = inner at *
  have hquote : unquoted? ('[' :: (inner ++ [']'])) = none := rfl
  have hbrackets : bracketed? ('[' :: (inner ++ [']'])) = some xs := by
    rw [bracketed?, Text.beforeLast?_append, Option.bind_some, helements]
  unfold ofLiteral
  rw [htext, Text.trimmed_enclosed rfl rfl, ofTrimmed_delimited (by decide), hquote, hbrackets]
  rfl

/-- Every literal of a value is read as this value, for every number with NaN
and the infinities, for arrays of any length, and for a text between quotes
whatever it holds. -/
theorem ofLiteral_spelling (v : Value) {literal : String} (h : literal ∈ v.spellings) :
    ofLiteral literal = v := by
  cases v with
  | bool b =>
    obtain rfl := List.mem_singleton.mp h
    cases b <;> rfl
  | number x =>
    obtain rfl := List.mem_singleton.mp h
    exact ofLiteral_number x
  | text s =>
    have hquoted : literal = "\"" ++ s ++ "\"" ∨ literal = "'" ++ s ++ "'" := by
      simpa [spellings] using h
    unfold ofLiteral
    rcases hquoted with rfl | rfl <;> rw [String.toList_append, String.toList_append]
    · exact (ofTrimmed_quoted (.inl rfl) s.toList).trans (congrArg text String.ofList_toList)
    · exact (ofTrimmed_quoted (.inr rfl) s.toList).trans (congrArg text String.ofList_toList)
  | array xs =>
    obtain rfl := List.mem_singleton.mp h
    exact ofLiteral_array xs

/-- A text of quotes, brackets, digits, blanks and letters of several bytes is
spelled between single quotes. -/
theorem ofLiteral_spelling_mixed :
    "'\"[1, 2]' ä'" ∈ (text "\"[1, 2]' ä").spellings ∧
      ofLiteral "'\"[1, 2]' ä'" = text "\"[1, 2]' ä" := by
  have hspelling : "'\"[1, 2]' ä'" ∈ (text "\"[1, 2]' ä").spellings := by decide
  exact ⟨hspelling, ofLiteral_spelling _ hspelling⟩

end Value

end ProcessDisplay
