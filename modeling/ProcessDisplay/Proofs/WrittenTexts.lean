import ProcessDisplay.Proofs.DocumentLines

/-!
# Written texts are read back

A text is written in one of four forms: with escapes or without any, on one
line or on several. In every form a character is written so that the reader
sees this character and goes on behind it, and the closing quotes are the
first ones that the reader takes for such.
-/

namespace ProcessDisplay.Document.Toml

section Escapes

/-- The four digits of a code in an escape. -/
def codeDigits (n : Nat) : List Char :=
  List.replicate (4 - (Nat.toDigits 16 n).length) '0' ++ (Nat.toDigits 16 n).map Char.toUpper

/-- The characters of an escape with a code. -/
theorem toList_escape (n : Nat) :
    ("\\u" ++ Text.padLeft '0' 4 (Text.hexText n).toUpper).toList =
      '\\' :: 'u' :: codeDigits n := by
  have hupper : (String.toUpper (String.ofList (Nat.toDigits 16 n))).toList =
      (Nat.toDigits 16 n).map Char.toUpper := by
    simp [String.toUpper]
  unfold Text.padLeft Text.hexText codeDigits
  rw [String.toList_append, String.toList_append, String.toList_ofList, ← String.length_toList,
    hupper, List.length_map, String.toList_ofList]
  rfl

/-- The codes of the characters that are not printed. -/
theorem codeDigits_control : ∀ n < 32,
    (codeDigits n).length = 4 ∧ Text.hexCharacter? (codeDigits n) = some (Char.ofNat n) := by
  decide

/-- The code of the last character that is not printed. -/
theorem codeDigits_delete :
    (codeDigits 127).length = 4 ∧ Text.hexCharacter? (codeDigits 127) = some (Char.ofNat 127) := by
  decide

/-- An escape with a code is read as its character. -/
theorem escape?_code {n : Nat} (h : n < 32 ∨ n = 127) (rest : List Char) :
    escape? ('u' :: (codeDigits n ++ rest)) = some (Char.ofNat n, rest) := by
  obtain ⟨hlength, hcharacter⟩ : (codeDigits n).length = 4 ∧
      Text.hexCharacter? (codeDigits n) = some (Char.ofNat n) := by
    rcases h with hlt | rfl
    · exact codeDigits_control n hlt
    · exact codeDigits_delete
  have hletter : simpleEscape? 'u' = none := rfl
  have hwidth : escapeWidth? 'u' = some 4 := rfl
  have henough : ¬(codeDigits n ++ rest).length < 4 := by
    rw [List.length_append, hlength]
    omega
  unfold escape?
  simp only [hletter, hwidth, Option.bind_eq_bind, Option.bind_some, if_neg henough]
  rw [← hlength, List.take_left, List.drop_left, hcharacter]
  rfl

/-- Whether a letter may stand behind a backslash. -/
def isEscapeLetter (c : Char) : Bool := (simpleEscape? c).isSome || (escapeWidth? c).isSome

/-- How a character is written between double quotes. -/
inductive Writes (severalLines : Bool) (c : Char) : List Char → Prop
  /-- A letter behind a backslash, and perhaps a code, stand for the character. -/
  | escape (letter : Char) (code : List Char) (hletter : isEscapeLetter letter = true)
      (h : ∀ rest, escape? (letter :: (code ++ rest)) = some (c, rest)) :
      Writes severalLines c ('\\' :: letter :: code)
  /-- The character stands for itself. -/
  | plain (hprint : isPrintable c = true) (hquote : c ≠ '"') (hescape : c ≠ '\\') :
      Writes severalLines c [c]
  /-- A line ends. -/
  | lineEnd (hlines : severalLines = true) (hc : c = '\n') : Writes severalLines c ['\n']

/-- Every character is written in one of these ways. -/
theorem writes_escapedChar (severalLines : Bool) (c : Char) :
    Writes severalLines c (escapedChar severalLines c).toList := by
  unfold escapedChar
  split
  · next h => exact h ▸ .escape 'b' [] rfl fun _ => rfl
  split
  · next h => exact h ▸ .escape 't' [] rfl fun _ => rfl
  split
  · next h =>
    cases severalLines with
    | true => exact h ▸ .lineEnd rfl rfl
    | false => exact h ▸ .escape 'n' [] rfl fun _ => rfl
  split
  · next h => exact h ▸ .escape 'f' [] rfl fun _ => rfl
  split
  · next h => exact h ▸ .escape 'r' [] rfl fun _ => rfl
  split
  · next h => exact h ▸ .escape '"' [] rfl fun _ => rfl
  split
  · next h => exact h ▸ .escape '\\' [] rfl fun _ => rfl
  next hquote hescape =>
  split
  · next hcontrol =>
    rw [Bool.or_eq_true, decide_eq_true_iff, decide_eq_true_iff] at hcontrol
    rw [toList_escape]
    refine .escape 'u' _ rfl fun rest => ?_
    rw [escape?_code hcontrol, Char.ofNat_toNat]
  · next hcontrol =>
    rw [Bool.or_eq_true, decide_eq_true_iff, decide_eq_true_iff] at hcontrol
    rw [String.toList_singleton]
    obtain ⟨hge, hne⟩ := not_or.mp hcontrol
    refine .plain ?_ hquote hescape
    simp [isPrintable, Nat.le_of_not_lt hge, hne]

/-- Every character takes at least one. -/
theorem Writes.length_pos {severalLines : Bool} {c : Char} {written : List Char}
    (h : Writes severalLines c written) : 0 < written.length := by
  cases h <;> exact Nat.succ_pos _

/-- No character begins with a double quote. -/
theorem Writes.ne_quote {severalLines : Bool} {c : Char} {written : List Char}
    (h : Writes severalLines c written) (more others : List Char) :
    written ++ more ≠ '"' :: others := by
  intro heq
  cases h with
  | escape letter code _ _ => exact absurd (List.cons.inj heq).1 (by decide)
  | plain _ hquote _ => exact hquote (List.cons.inj heq).1
  | lineEnd _ _ => exact absurd (List.cons.inj heq).1 (by decide)

end Escapes

section Basic

variable {severalLines : Bool} {c : Char} {written more rest : List Char}

/-- The reader of one line goes on behind a character. -/
theorem basicLine?_writes (h : Writes false c written) (fuel : Nat) (more : List Char) :
    basicLine? (fuel + 1) (written ++ more) =
      (basicLine? fuel more).map fun (read, rest) => (c :: read, rest) := by
  cases h with
  | escape letter code _ h =>
    rw [List.cons_append, List.cons_append, basicLine?, h]
    simp only [Option.bind_eq_bind, Option.bind_some]
    cases basicLine? fuel more <;> rfl
  | plain hprint hquote hescape =>
    rw [List.singleton_append, basicLine?, if_pos hprint]
    · exact hquote
    · exact hescape
  | lineEnd hlines => cases hlines

/-- The letter of an escape neither ends a line nor is a blank. -/
theorem joinLines?_letter (h : isEscapeLetter c = true) (more : List Char) :
    joinLines? (c :: more) = none := by
  have hother : ∀ d, isEscapeLetter d = false → c ≠ d := by
    rintro d hd rfl
    exact Bool.false_ne_true (hd.symm.trans h)
  have hspace : isSpace c = false := by simp [isSpace, hother ' ' rfl, hother '\t' rfl]
  unfold joinLines? skipSpace
  rw [List.dropWhile_cons_of_neg (by simp [hspace])]
  unfold afterLineEnd?
  split
  · next heq => exact absurd (List.cons.inj heq).1 (hother _ rfl)
  · next heq => exact absurd (List.cons.inj heq).1 (hother _ rfl)
  · rfl

/-- Other characters than quotes close nothing. -/
theorem closing?_other {quote : Char} (h : c ≠ quote) (more : List Char) :
    closing? quote (c :: more) = none := by
  unfold closing?
  rw [List.takeWhile_cons_of_neg (by simpa using h)]
  rfl

/-- A printable character ends no line. -/
theorem afterLineEnd?_printable (h : isPrintable c = true) (more : List Char) :
    afterLineEnd? (c :: more) = none := by
  have hother : ∀ d, isPrintable d = false → c ≠ d := by
    rintro d hd rfl
    exact Bool.false_ne_true (hd.symm.trans h)
  unfold afterLineEnd?
  split
  · next heq => exact absurd (List.cons.inj heq).1 (hother _ rfl)
  · next heq => exact absurd (List.cons.inj heq).1 (hother _ rfl)
  · rfl

/-- The reader of several lines goes on behind a character. -/
theorem basicLines?_writes (h : Writes true c written) (fuel : Nat) (more : List Char) :
    basicLines? (fuel + 1) (written ++ more) =
      (basicLines? fuel more).map fun (read, rest) => (c :: read, rest) := by
  cases h with
  | escape letter code hletter h =>
    rw [List.cons_append, List.cons_append, basicLines?, closing?_other (by decide)]
    dsimp only
    rw [joinLines?_letter hletter, h]
    simp only [Option.bind_eq_bind, Option.bind_some]
    cases basicLines? fuel more <;> rfl
  | plain hprint hquote hescape =>
    rw [List.singleton_append, basicLines?, closing?_other hquote, afterLineEnd?_printable hprint]
    · dsimp only
      rw [if_pos hprint]
    · exact hescape
  | lineEnd _ hc =>
    subst hc
    rw [List.singleton_append, basicLines?, closing?_other (by decide)]
    · rfl
    · decide

/-- The characters of a text between double quotes. -/
def escapedText (severalLines : Bool) (cs : List Char) : List Char :=
  cs.flatMap fun c => (escapedChar severalLines c).toList

/-- A text takes at least as many characters as it has. -/
theorem length_le_escapedText (severalLines : Bool) (cs : List Char) :
    cs.length ≤ (escapedText severalLines cs).length := by
  induction cs with
  | nil => exact Nat.le_refl _
  | cons c cs ih =>
    have hsome := (writes_escapedChar severalLines c).length_pos
    rw [escapedText, List.flatMap_cons, List.length_append, List.length_cons]
    rw [escapedText] at ih
    omega

/-- A text of one line is read up to its closing quote. -/
theorem basicLine?_escapedText (cs rest : List Char) (fuel : Nat) (h : cs.length < fuel) :
    basicLine? fuel (escapedText false cs ++ '"' :: rest) = some (cs, rest) := by
  induction cs generalizing fuel with
  | nil =>
    obtain ⟨fuel, rfl⟩ := Nat.exists_eq_succ_of_ne_zero (Nat.ne_of_gt h)
    rfl
  | cons c cs ih =>
    obtain ⟨fuel, rfl⟩ := Nat.exists_eq_succ_of_ne_zero (Nat.ne_of_gt (Nat.zero_lt_of_lt h))
    rw [escapedText, List.flatMap_cons, List.append_assoc,
      basicLine?_writes (writes_escapedChar false c)]
    rw [← escapedText, ih fuel (Nat.lt_of_succ_lt_succ h)]
    rfl

/-- A text of several lines is read up to its closing quotes. -/
theorem basicLines?_escapedText (cs rest : List Char) (fuel : Nat) (h : cs.length < fuel) :
    basicLines? fuel (escapedText true cs ++ '"' :: '"' :: '"' :: '\n' :: rest) =
      some (cs, '\n' :: rest) := by
  induction cs generalizing fuel with
  | nil =>
    obtain ⟨fuel, rfl⟩ := Nat.exists_eq_succ_of_ne_zero (Nat.ne_of_gt h)
    rfl
  | cons c cs ih =>
    obtain ⟨fuel, rfl⟩ := Nat.exists_eq_succ_of_ne_zero (Nat.ne_of_gt (Nat.zero_lt_of_lt h))
    rw [escapedText, List.flatMap_cons, List.append_assoc,
      basicLines?_writes (writes_escapedChar true c)]
    rw [← escapedText, ih fuel (Nat.lt_of_succ_lt_succ h)]
    rfl

end Basic

section Literal

variable {cs rest : List Char} {c : Char}

/-- A text without single quotes is read up to the first one. -/
theorem literalLine?_plain (hprint : ∀ c ∈ cs, isPrintable c = true) (hquote : '\'' ∉ cs)
    (rest : List Char) : literalLine? (cs ++ '\'' :: rest) = some (cs, rest) := by
  induction cs with
  | nil => rfl
  | cons c cs ih =>
    have hc : c ≠ '\'' := fun heq => hquote (by simp [heq])
    rw [List.cons_append, literalLine?, if_pos (hprint c List.mem_cons_self),
      ih (fun d hd => hprint d (List.mem_cons_of_mem _ hd))
        fun hmem => hquote (List.mem_cons_of_mem _ hmem)]
    · rfl
    · exact hc

/-- One more character: the most single quotes so far and those at the end. -/
def countQuote (counts : Nat × Nat) (c : Char) : Nat × Nat :=
  if c = '\'' then (max counts.1 (counts.2 + 1), counts.2 + 1) else (counts.1, 0)

/-- The most single quotes in a row are counted character by character. -/
theorem longestQuotes_eq (cs : List Char) :
    longestQuotes cs = (cs.foldl countQuote (0, 0)).1 := rfl

/-- Counts only grow. -/
theorem le_countQuotes (cs : List Char) (counts : Nat × Nat) :
    counts.1 ≤ (cs.foldl countQuote counts).1 := by
  induction cs generalizing counts with
  | nil => exact Nat.le_refl _
  | cons c cs ih =>
    refine Nat.le_trans ?_ (ih _)
    unfold countQuote
    split
    · exact Nat.le_max_left _ _
    · exact Nat.le_refl _

/-- The quotes at the front are counted. -/
theorem length_takeWhile_le (cs : List Char) (counts : Nat × Nat) (h : counts.2 ≤ counts.1) :
    counts.2 + (cs.takeWhile (· = '\'')).length ≤ (cs.foldl countQuote counts).1 := by
  induction cs generalizing counts with
  | nil => exact h
  | cons c cs ih =>
    by_cases hc : c = '\''
    · have hmore := ih (countQuote counts c) (by
        rw [countQuote, if_pos hc]
        exact Nat.le_max_right _ _)
      rw [List.takeWhile_cons_of_pos (by simpa using hc), List.length_cons, List.foldl_cons]
      rw [countQuote, if_pos hc] at hmore ⊢
      dsimp only at hmore ⊢
      omega
    · rw [List.takeWhile_cons_of_neg (by simpa using hc)]
      exact Nat.le_trans h (le_countQuotes _ _)

/-- The quotes at the end of a row of quotes count as many as those at the front. -/
theorem countQuote_le (counts : Nat × Nat) (c : Char) :
    (countQuote counts c).2 ≤ (countQuote counts c).1 := by
  unfold countQuote
  split
  · exact Nat.le_max_right _ _
  · exact Nat.zero_le _

/-- Fewer than three quotes close nothing, if other characters follow them. -/
theorem closing?_short (hshort : (cs.takeWhile (· = '\'')).length < 3) (hsome : cs ≠ [])
    (hlast : cs.getLast? ≠ some '\'') (rest : List Char) : closing? '\'' (cs ++ rest) = none := by
  have hinside : (cs ++ rest).takeWhile (· = '\'') = cs.takeWhile (· = '\'') := by
    rw [List.takeWhile_append, if_neg]
    intro hall
    have hquotes : ∀ c ∈ cs, c = '\'' := by
      have hself := List.all_takeWhile (p := (· = '\'')) (l := cs)
      rw [(List.takeWhile_prefix _).eq_of_length hall, List.all_eq_true] at hself
      exact fun c hc => of_decide_eq_true (hself c hc)
    rw [List.getLast?_eq_some_getLast hsome] at hlast
    exact hlast (congrArg some (hquotes _ (List.getLast_mem hsome)))
  unfold closing?
  dsimp only
  rw [hinside, if_pos]
  exact Nat.lt_of_le_of_lt (Nat.min_le_right _ _) hshort

/-- A character between single quotes is printed, but for a line end. -/
theorem isPrintable_of_isLiteral {c : Char} (h : isLiteral c = true) (hc : c ≠ '\n') :
    isPrintable c = true := by
  unfold isLiteral at h
  simpa [hc, isPrintable] using h

/-- The reader of several lines goes on behind a character between single quotes. -/
theorem literalLines?_cons (hliteral : isLiteral c = true)
    (hclosing : closing? '\'' (c :: rest) = none) (fuel : Nat) :
    literalLines? (fuel + 1) (c :: rest) =
      (literalLines? fuel rest).map fun (read, rest) => (c :: read, rest) := by
  rw [literalLines?, hclosing]
  dsimp only
  by_cases hc : c = '\n'
  · subst hc
    rfl
  · have hprint := isPrintable_of_isLiteral hliteral hc
    rw [afterLineEnd?_printable hprint]
    dsimp only
    rw [if_pos hprint]

/-- A text of several lines without three single quotes in a row is read up to
its closing quotes. -/
theorem literalLines?_plain (hliteral : ∀ c ∈ cs, isLiteral c = true) {counts : Nat × Nat}
    (hcounts : counts.2 ≤ counts.1) (hquotes : (cs.foldl countQuote counts).1 < 3)
    (hlast : cs.getLast? ≠ some '\'') (rest : List Char) (fuel : Nat) (h : cs.length < fuel) :
    literalLines? fuel (cs ++ '\'' :: '\'' :: '\'' :: '\n' :: rest) =
      some (cs, '\n' :: rest) := by
  induction cs generalizing fuel counts with
  | nil =>
    obtain ⟨fuel, rfl⟩ := Nat.exists_eq_succ_of_ne_zero (Nat.ne_of_gt h)
    rfl
  | cons c cs ih =>
    obtain ⟨fuel, rfl⟩ := Nat.exists_eq_succ_of_ne_zero (Nat.ne_of_gt (Nat.zero_lt_of_lt h))
    have hshort := Nat.lt_of_le_of_lt
      (Nat.le_trans (Nat.le_add_left _ _) (length_takeWhile_le (c :: cs) counts hcounts)) hquotes
    have hclosing := closing?_short hshort (List.cons_ne_nil c cs) hlast
      ('\'' :: '\'' :: '\'' :: '\n' :: rest)
    have hlater : cs.getLast? ≠ some '\'' := by
      cases cs with
      | nil => exact fun hnone => nomatch hnone
      | cons d more => rwa [List.getLast?_cons_cons] at hlast
    rw [List.cons_append] at hclosing ⊢
    rw [literalLines?_cons (hliteral c List.mem_cons_self) hclosing,
      ih (fun d hd => hliteral d (List.mem_cons_of_mem _ hd)) (countQuote_le counts c)
        hquotes hlater fuel (Nat.lt_of_succ_lt_succ h)]
    rfl

end Literal

section Texts

variable {cs : List Char} {s : String}

/-- A quoted text on a line of its own is the text of its value. -/
theorem spells_quoted {c : Char} {more : List Char} (hcs : cs = c :: more)
    (hquote : c = '"' ∨ c = '\'')
    (h : ∀ rest, text? (cs ++ '\n' :: rest) = some (s, '\n' :: rest)) : Spells cs (.text s) := by
  have hother : isSpace c = false ∧ c ≠ '[' ∧ c ≠ '\x7b' := by
    rcases hquote with rfl | rfl <;> decide
  obtain ⟨hspace, hlist, htable⟩ := hother
  constructor
  · intro rest
    rw [hcs, List.cons_append, skipSpace, List.dropWhile_cons_of_neg (by simp [hspace])]
  · intro fuel rest
    have htext := h rest
    rw [hcs, List.cons_append] at htext ⊢
    unfold value?
    split
    · next heq => exact absurd (List.cons.inj heq).1 hlist
    · next heq => exact absurd (List.cons.inj heq).1 htable
    · next heq =>
      cases heq
      rw [if_pos (by simpa using hquote), htext]
      rfl
    · next heq => cases heq

/-- A literal text has only characters that may stand between single quotes,
and its quotes close nothing. -/
theorem prefersLiteral_iff (cs : List Char) : prefersLiteral cs = true ↔
    ('"' ∈ cs ∨ '\\' ∈ cs) ∧ (∀ c ∈ cs, isLiteral c = true) ∧ longestQuotes cs < 3 ∧
      cs.getLast? ≠ some '\'' := by
  unfold prefersLiteral
  simp [and_assoc]

variable {read rest more : List Char}

/-- What is behind three single quotes is a text of several lines. -/
theorem text?_literalLines
    (h : literalLines? (rest.length + 1) (dropLineEnd rest) = some (read, more)) :
    text? ('\'' :: '\'' :: '\'' :: rest) = some (String.ofList read, more) := by
  change Option.map _ (literalLines? (rest.length + 1) (dropLineEnd rest)) = _
  rw [h]
  rfl

/-- What is behind three double quotes is a text of several lines. -/
theorem text?_basicLines
    (h : basicLines? (rest.length + 1) (dropLineEnd rest) = some (read, more)) :
    text? ('"' :: '"' :: '"' :: rest) = some (String.ofList read, more) := by
  change Option.map _ (basicLines? (rest.length + 1) (dropLineEnd rest)) = _
  rw [h]
  rfl

/-- What is behind one single quote is a text of one line. -/
theorem text?_literalLine (hone : ∀ others, rest ≠ '\'' :: '\'' :: others)
    (h : literalLine? rest = some (read, more)) :
    text? ('\'' :: rest) = some (String.ofList read, more) := by
  unfold text?
  dsimp only
  split
  · next heq => cases heq
  · next heq =>
    cases heq
    exact absurd rfl (hone _)
  · next heq => cases heq
  · next heq =>
    cases heq
    rw [h, Option.map_some]
  · next hother => exact (hother _ rfl).elim

/-- What is behind one double quote is a text of one line. -/
theorem text?_basicLine (hone : ∀ others, rest ≠ '"' :: '"' :: others)
    (h : basicLine? (rest.length + 1) rest = some (read, more)) :
    text? ('"' :: rest) = some (String.ofList read, more) := by
  unfold text?
  dsimp only
  split
  · next heq =>
    cases heq
    exact absurd rfl (hone _)
  · next heq => cases heq
  · next heq =>
    cases heq
    rw [h, Option.map_some]
  · next heq => cases heq
  · next hother _ => exact (hother _ rfl).elim

/-- A text in three single quotes on several lines. -/
theorem spells_literalLines (hread : ∀ rest fuel, s.toList.length < fuel →
    literalLines? fuel (s.toList ++ '\'' :: '\'' :: '\'' :: '\n' :: rest) =
      some (s.toList, '\n' :: rest)) : Spells ("'''\n" ++ s ++ "'''").toList (.text s) := by
  have htext : ("'''\n" ++ s ++ "'''").toList =
      '\'' :: '\'' :: '\'' :: '\n' :: (s.toList ++ ['\'', '\'', '\'']) := by
    simp
  rw [htext]
  refine spells_quoted rfl (.inr rfl) fun rest => ?_
  simp only [List.cons_append, List.append_assoc, List.nil_append]
  have hbody : literalLines?
      (('\n' :: (s.toList ++ '\'' :: '\'' :: '\'' :: '\n' :: rest)).length + 1)
      (dropLineEnd ('\n' :: (s.toList ++ '\'' :: '\'' :: '\'' :: '\n' :: rest))) =
        some (s.toList, '\n' :: rest) := by
    refine hread rest _ ?_
    rw [List.length_cons, List.length_append]
    omega
  rw [text?_literalLines hbody, String.ofList_toList]

/-- A text in three single quotes on one line. -/
theorem spells_literalQuotes (hsome : s.toList ≠ [])
    (hplain : ∀ c ∈ s.toList, isPrintable c = true)
    (hread : ∀ rest fuel, s.toList.length < fuel →
      literalLines? fuel (s.toList ++ '\'' :: '\'' :: '\'' :: '\n' :: rest) =
        some (s.toList, '\n' :: rest)) : Spells ("'''" ++ s ++ "'''").toList (.text s) := by
  obtain ⟨c, more, hcs⟩ := List.exists_cons_of_ne_nil hsome
  have htext : ("'''" ++ s ++ "'''").toList =
      '\'' :: '\'' :: '\'' :: (s.toList ++ ['\'', '\'', '\'']) := by
    simp
  -- The first character ends no line, so that none is dropped behind the opening quotes.
  have hdrop : ∀ rest, dropLineEnd (s.toList ++ rest) = s.toList ++ rest := by
    intro rest
    rw [hcs, List.cons_append, dropLineEnd,
      afterLineEnd?_printable (hplain c (by simp [hcs])), Option.getD_none]
  rw [htext]
  refine spells_quoted rfl (.inr rfl) fun rest => ?_
  simp only [List.cons_append, List.append_assoc, List.nil_append]
  have hbody : literalLines?
      ((s.toList ++ '\'' :: '\'' :: '\'' :: '\n' :: rest).length + 1)
      (dropLineEnd (s.toList ++ '\'' :: '\'' :: '\'' :: '\n' :: rest)) =
        some (s.toList, '\n' :: rest) := by
    rw [hdrop]
    refine hread rest _ ?_
    rw [List.length_append]
    omega
  rw [text?_literalLines hbody, String.ofList_toList]

/-- A text in single quotes. -/
theorem spells_literalLine (hsome : s.toList ≠ [])
    (hplain : ∀ c ∈ s.toList, isPrintable c = true) (hnone : '\'' ∉ s.toList) :
    Spells ("'" ++ s ++ "'").toList (.text s) := by
  obtain ⟨c, more, hcs⟩ := List.exists_cons_of_ne_nil hsome
  have htext : ("'" ++ s ++ "'").toList = '\'' :: (s.toList ++ ['\'']) := by simp
  rw [htext]
  refine spells_quoted rfl (.inr rfl) fun rest => ?_
  simp only [List.cons_append, List.append_assoc, List.nil_append]
  have hone : ∀ others, s.toList ++ '\'' :: '\n' :: rest ≠ '\'' :: '\'' :: others := by
    intro others heq
    rw [hcs] at heq hnone
    exact hnone (by simp [(List.cons.inj heq).1])
  rw [text?_literalLine hone (literalLine?_plain hplain hnone ('\n' :: rest)),
    String.ofList_toList]

/-- A text is read back from single quotes, if its characters may stand there. -/
theorem spells_literal (h : prefersLiteral s.toList = true) :
    Spells (writtenText s).toList (.text s) := by
  obtain ⟨hescaped, hliteral, hshort, hlast⟩ := (prefersLiteral_iff _).mp h
  rw [longestQuotes_eq] at hshort
  have hread : ∀ rest fuel, s.toList.length < fuel →
      literalLines? fuel (s.toList ++ '\'' :: '\'' :: '\'' :: '\n' :: rest) =
        some (s.toList, '\n' :: rest) := fun rest fuel =>
    literalLines?_plain hliteral (Nat.le_refl 0) hshort hlast rest fuel
  have hsome : s.toList ≠ [] := by
    rintro hnil
    simp [hnil] at hescaped
  unfold writtenText
  dsimp only
  rw [if_pos h]
  split
  · exact spells_literalLines hread
  next hlines =>
  have hplain : ∀ c ∈ s.toList, isPrintable c = true := fun c hc =>
    isPrintable_of_isLiteral (hliteral c hc) (by
      rintro rfl
      exact hlines (List.contains_iff_mem.mpr hc))
  split
  · exact spells_literalQuotes hsome hplain hread
  · next hquote =>
    exact spells_literalLine hsome hplain fun hmem => hquote (List.contains_iff_mem.mpr hmem)

variable {inner : String}

/-- A text in three double quotes on several lines. -/
theorem spells_basicLines (hinner : inner.toList = escapedText true s.toList) :
    Spells ("\"\"\"\n" ++ inner ++ "\"\"\"").toList (.text s) := by
  have htext : ("\"\"\"\n" ++ inner ++ "\"\"\"").toList =
      '"' :: '"' :: '"' :: '\n' :: (escapedText true s.toList ++ ['"', '"', '"']) := by
    simp [hinner]
  rw [htext]
  refine spells_quoted rfl (.inl rfl) fun rest => ?_
  simp only [List.cons_append, List.append_assoc, List.nil_append]
  have hbody : basicLines?
      (('\n' :: (escapedText true s.toList ++ '"' :: '"' :: '"' :: '\n' :: rest)).length + 1)
      (dropLineEnd ('\n' :: (escapedText true s.toList ++ '"' :: '"' :: '"' :: '\n' :: rest))) =
        some (s.toList, '\n' :: rest) := by
    refine basicLines?_escapedText _ _ _ ?_
    have hlength := length_le_escapedText true s.toList
    rw [List.length_cons, List.length_append]
    omega
  rw [text?_basicLines hbody, String.ofList_toList]

/-- A text in double quotes. -/
theorem spells_basicLine (hinner : inner.toList = escapedText false s.toList) :
    Spells ("\"" ++ inner ++ "\"").toList (.text s) := by
  have htext : ("\"" ++ inner ++ "\"").toList =
      '"' :: (escapedText false s.toList ++ ['"']) := by
    simp [hinner]
  rw [htext]
  refine spells_quoted rfl (.inl rfl) fun rest => ?_
  simp only [List.cons_append, List.append_assoc, List.nil_append]
  have hbody : basicLine? ((escapedText false s.toList ++ '"' :: '\n' :: rest).length + 1)
      (escapedText false s.toList ++ '"' :: '\n' :: rest) = some (s.toList, '\n' :: rest) := by
    refine basicLine?_escapedText _ _ _ ?_
    have hlength := length_le_escapedText false s.toList
    rw [List.length_append]
    omega
  -- Two quotes side by side would open a text of several lines, but a line end follows the first
  -- pair and no character is written with a quote in front.
  have hone : ∀ others,
      escapedText false s.toList ++ '"' :: '\n' :: rest ≠ '"' :: '"' :: others := by
    intro others heq
    cases hcs : s.toList with
    | nil =>
      rw [hcs] at heq
      exact absurd (List.cons.inj (List.cons.inj heq).2).1 (by decide)
    | cons c more =>
      rw [hcs, escapedText, List.flatMap_cons, List.append_assoc] at heq
      exact (writes_escapedChar false c).ne_quote _ _ heq
  rw [text?_basicLine hone hbody, String.ofList_toList]

/-- A text is read back from double quotes. -/
theorem spells_basic (h : prefersLiteral s.toList = false) :
    Spells (writtenText s).toList (.text s) := by
  have hinner : ∀ severalLines, (String.join (s.toList.map (escapedChar severalLines))).toList =
      escapedText severalLines s.toList := by
    intro severalLines
    simp [escapedText, List.flatMap_def, Function.comp_def]
  unfold writtenText
  dsimp only
  rw [h, if_neg Bool.false_ne_true]
  split
  · next hlines => exact spells_basicLines (hlines ▸ hinner _)
  · next hlines => exact spells_basicLine (Bool.eq_false_iff.mpr hlines ▸ hinner _)

/-- Every text is read back. -/
theorem spells_text (s : String) : Spells (writtenText s).toList (.text s) := by
  cases h : prefersLiteral s.toList with
  | true => exact spells_literal h
  | false => exact spells_basic h

end Texts

end ProcessDisplay.Document.Toml
