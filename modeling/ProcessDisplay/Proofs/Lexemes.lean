import Mathlib.Tactic.Common
import ProcessDisplay.Proofs.NameKeys
import ProcessDisplay.Proofs.ParserYields

/-!
# Lexemes

Every character of a source text belongs to one lexeme: the characters of a
token, a blank or a comment. A name is taken as a whole, so the characters
around it continue no name. The only lexemes that leave their boundary open
are numbers: a name may follow one directly.
-/

namespace ProcessDisplay.Script

/-- The characters that one step takes, and the token that they are, if they are one. -/
structure Lexeme where
  /-- The token. -/
  token : Option Token
  /-- The characters. -/
  text : List Char

/-- The characters are a name, and the ones after them do not continue it. -/
structure Spells (s : String) (text rest : List Char) : Prop where
  /-- They are those of the name. -/
  text_eq : text = s.toList
  /-- The first one may begin a name. -/
  begins : text.head?.any isNameStart = true
  /-- Each of them may continue a name. -/
  continues : ∀ c ∈ text, isNamePart c = true
  /-- The next one may not. -/
  ends : rest.head?.any isNamePart = false

/-- The word can be no name. -/
def IsReserved (s : String) : Prop := s ∈ keywords ∨ s ∈ reservedWords ∨ s = "_"

/-- No name goes on from some characters to those after them. -/
def Closed (text rest : List Char) : Prop :=
  text.getLast?.any isNamePart = false ∨ rest.head?.any isNamePart = false

/-- What is known of the characters of a lexeme and of the ones after them.
The letter that identifiers of inputs begin with stands in no number and no
mark. -/
def Stands (text rest : List Char) : Option Token → Prop
  | some (.name s) => Spells s text rest
  | some (.word s) => Spells s text rest ∧ IsReserved s
  | some (.integer _) | some (.float _) => 'p' ∉ text
  | some (.mark _) => 'p' ∉ text ∧ Closed text rest
  | _ => Closed text rest

/-- Whether a token is a number. -/
def Token.isNumber : Token → Bool
  | .integer _ | .float _ => true
  | _ => false

/-- A name is followed by itself and the characters after it. -/
theorem Spells.head? {s : String} {text rest : List Char} (h : Spells s text rest) :
    (text ++ rest).head?.any isNamePart = true := by
  have hbegins := h.begins
  cases htext : text with
  | nil =>
    rw [htext] at hbegins
    cases hbegins
  | cons c more => exact h.continues c (by rw [htext]; exact List.mem_cons_self)

/-- What ends a rest, ends it after one character more. -/
theorem exists_cons_append {tail rest : List Char} (c : Char)
    (h : ∃ text, rest = text ++ tail) : ∃ text, c :: rest = text ++ tail := by
  obtain ⟨text, rfl⟩ := h
  exact ⟨c :: text, rfl⟩

/-- The inside of a quoted literal ends with the quote. -/
theorem quoted_spec {quote : Char} {fuel : Nat} {cs inner rest : List Char}
    (h : quoted quote fuel cs = .ok (inner, rest)) : ∃ text, cs = text ++ quote :: rest := by
  fun_induction quoted quote fuel cs generalizing inner rest with
  | case1 | case2 | case5 | case7 | case8 | case12 => cases h
  | case3 fuel more ih => exact exists_cons_append _ (exists_cons_append _ (ih h))
  | case4 fuel c more _ plain _ ih =>
    obtain ⟨⟨inner', rest'⟩, hmore, hpair⟩ := exceptMap_eq_ok_iff.mp h
    obtain ⟨-, rfl⟩ := Prod.mk.inj hpair
    exact exists_cons_append _ (exists_cons_append _ (ih hmore))
  | case6 fuel c more _ width _ _ _ plain _ ih =>
    obtain ⟨⟨inner', rest'⟩, hmore, hpair⟩ := exceptMap_eq_ok_iff.mp h
    obtain ⟨-, rfl⟩ := Prod.mk.inj hpair
    obtain ⟨text, htext⟩ := ih hmore
    refine exists_cons_append _ (exists_cons_append _ ⟨more.take width ++ text, ?_⟩)
    rw [List.append_assoc, ← htext, List.take_append_drop]
  | case9 fuel more _ ih =>
    obtain ⟨⟨inner', rest'⟩, hmore, hpair⟩ := exceptMap_eq_ok_iff.mp h
    obtain ⟨-, rfl⟩ := Prod.mk.inj hpair
    exact exists_cons_append _ (exists_cons_append _ (ih hmore))
  | case10 | case11 =>
    obtain ⟨-, rfl⟩ := Prod.mk.inj (Except.ok.inj h)
    exact ⟨[], rfl⟩
  | case13 fuel c more _ _ _ ih =>
    obtain ⟨⟨inner', rest'⟩, hmore, hpair⟩ := exceptMap_eq_ok_iff.mp h
    obtain ⟨-, rfl⟩ := Prod.mk.inj hpair
    exact exists_cons_append _ (ih hmore)

/-- The text of a template ends with a backtick or with the brace before its code. -/
theorem templateText_spec {cs inner rest : List Char} {stop : TemplateEnd}
    (h : templateText cs = .ok (inner, stop, rest)) :
    ∃ last, isNamePart last = false ∧ ∃ text, cs = text ++ last :: rest := by
  have hmore : ∀ {c : Char} {more tail : List Char},
      (∃ last, isNamePart last = false ∧ ∃ text, more = text ++ last :: tail) →
      ∃ last, isNamePart last = false ∧ ∃ text, c :: more = text ++ last :: tail :=
    fun ⟨last, hlast, htext⟩ => ⟨last, hlast, exists_cons_append _ htext⟩
  fun_induction templateText cs generalizing inner stop rest with
  | case1 => cases h
  | case2 more ih =>
    obtain ⟨⟨inner', stop', rest'⟩, hinner, hresult⟩ := exceptMap_eq_ok_iff.mp h
    obtain rfl : rest' = rest := congrArg (fun found => found.2.2) hresult
    exact hmore (hmore (ih hinner))
  | case3 more _ =>
    obtain rfl : more = rest := congrArg (fun found => found.2.2) (Except.ok.inj h)
    exact ⟨'\x60', rfl, [], rfl⟩
  | case4 more =>
    obtain rfl : more = rest := congrArg (fun found => found.2.2) (Except.ok.inj h)
    exact ⟨'\x7b', rfl, ['$'], rfl⟩
  | case5 c more _ _ _ ih =>
    obtain ⟨⟨inner', stop', rest'⟩, hinner, hresult⟩ := exceptMap_eq_ok_iff.mp h
    obtain rfl : rest' = rest := congrArg (fun found => found.2.2) hresult
    exact hmore (ih hinner)

/-- A block comment ends with its slash, or with the source. -/
theorem afterComment_spec (depth : Nat) (cs : List Char) :
    afterComment depth cs = [] ∨ ∃ text, cs = text ++ '/' :: afterComment depth cs := by
  have hmore : ∀ {c : Char} {more tail : List Char},
      (tail = [] ∨ ∃ text, more = text ++ '/' :: tail) →
      tail = [] ∨ ∃ text, c :: more = text ++ '/' :: tail :=
    fun h => h.imp id (exists_cons_append _)
  fun_induction afterComment depth cs with
  | case1 => exact .inl rfl
  | case2 depth more ih => exact hmore (hmore ih)
  | case3 more => exact .inr ⟨['*'], rfl⟩
  | case4 depth more _ ih => exact hmore (hmore ih)
  | case5 depth c more _ _ ih => exact hmore ih

/-- A decimal number takes digits, points, exponents with their signs, and separators. -/
theorem decimalText_spec (cs : List Char) :
    ∃ text, cs = text ++ (decimalText cs).2 ∧ 'p' ∉ text := by
  have hmore : ∀ {c : Char} {rest tail : List Char}, c ≠ 'p' →
      (∃ text, rest = text ++ tail ∧ 'p' ∉ text) →
      ∃ text, c :: rest = text ++ tail ∧ 'p' ∉ text := by
    rintro c rest tail hc ⟨text, rfl, htext⟩
    exact ⟨c :: text, rfl, List.not_mem_cons_of_ne_of_not_mem hc.symm htext⟩
  have hdigit : ∀ {c : Char}, c.isDigit = true → c ≠ 'p' := by
    rintro c hc rfl
    cases hc
  fun_induction decimalText cs with
  | case1 | case3 | case7 | case10 => exact ⟨[], rfl, List.not_mem_nil⟩
  | case2 next more hnext inner rest heq ih =>
    rw [heq] at ih
    exact hmore (by decide) ih
  | case4 next more _ _ inner rest heq ih =>
    rw [heq] at ih
    exact hmore (by decide) ih
  | case5 next more hnext inner rest heq ih =>
    rw [heq] at ih
    exact hmore (by decide) ih
  | case6 next more _ hsign inner rest heq ih =>
    rw [heq] at ih
    have hnext : next ≠ 'p' := by
      rintro rfl
      cases hsign
    exact hmore (by decide) (hmore hnext ih)
  | case8 c more _ _ hc inner rest heq ih =>
    rw [heq] at ih
    exact hmore (hdigit hc) ih
  | case9 more _ _ _ ih => exact hmore (by decide) ih

/-- A decimal number takes all digits that follow. -/
theorem decimalText_ends (cs : List Char) : (decimalText cs).2.head?.any Char.isDigit = false := by
  fun_induction decimalText cs with
  | case1 | case3 | case7 => rfl
  | case10 c _ _ _ hc _ => simpa using hc
  | case2 _ _ _ _ _ heq ih | case4 _ _ _ _ _ _ heq ih | case5 _ _ _ _ _ heq ih
  | case6 _ _ _ _ _ _ heq ih | case8 _ _ _ _ _ _ _ heq ih =>
    rw [heq] at ih
    exact ih
  | case9 _ _ _ _ ih => exact ih

/-- The characters of a number. -/
theorem stands_number {text rest : List Char} {token : Token} (htoken : token.isNumber = true)
    (h : 'p' ∉ text) : Stands text rest (some token) := by
  cases token with
  | integer n => exact h
  | float x => exact h
  | _ => cases htoken

/-- What begins a name may continue one. -/
theorem isNamePart_of_isNameStart {c : Char} (h : isNameStart c = true) : isNamePart c = true := by
  simp only [isNameStart, isNamePart, Char.isAlphanum, Bool.or_eq_true] at h ⊢
  exact h.imp_left .inl

/-- Characters whose last one continues no name are closed. -/
theorem closed_append {text rest : List Char} {last : Char} (h : isNamePart last = false) :
    Closed (text ++ [last]) rest := by
  left
  simpa using h

/-- A blank continues no name. -/
theorem isNamePart_of_isBlank {c : Char} (h : Text.isBlank c = true) : isNamePart c = false := by
  have hcode : c.toNat < 48 ∨ 122 < c.toNat := by
    simp only [Text.isBlank, Bool.or_eq_true, Bool.and_eq_true, decide_eq_true_eq, beq_iff_eq] at h
    omega
  have hval : c.val.toNat = c.toNat := rfl
  have hline : c ≠ '_' := by
    rintro rfl
    exact hcode.elim (by decide) (by decide)
  have halpha : c.isAlpha = (c.isUpper || c.isLower) := rfl
  have hupper : c.isUpper = decide (c.val ≥ 65 ∧ c.val ≤ 90) := rfl
  have hlower : c.isLower = (decide (c.val ≥ 97) && decide (c.val ≤ 122)) := rfl
  simp only [isNamePart, Char.isAlphanum, halpha, hupper, hlower, Char.isDigit,
    Bool.or_eq_false_iff, Bool.and_eq_false_iff, decide_eq_false_iff_not, ge_iff_le,
    UInt32.le_iff_toNat_le, Char.reduceVal, UInt32.reduceToNat]
  exact ⟨⟨⟨by omega, by omega⟩, by omega⟩, hline⟩

/-- What is known of a mark of the table. -/
theorem markToken?_spec {cs rest : List Char} {m : String} (h : markToken? cs = some (m, rest)) :
    cs = m.toList ++ rest ∧ m.toList ≠ [] ∧ 'p' ∉ m.toList ∧
      m.toList.getLast?.any isNamePart = false := by
  have hmarks : ∀ m ∈ marks, m.toList ≠ [] ∧ 'p' ∉ m.toList ∧
      m.toList.getLast?.any isNamePart = false := by
    decide
  obtain ⟨m', hm', hafter⟩ := List.exists_of_findSome?_eq_some h
  obtain ⟨rest', hrest, hpair⟩ := Option.map_eq_some_iff.mp hafter
  obtain ⟨rfl, rfl⟩ := Prod.mk.inj hpair
  exact ⟨Text.after?_eq_some_iff.mp hrest, hmarks m' hm'⟩

/-- A decimal number is read as a number. -/
theorem decimalToken_spec {negative : Bool} {cs rest : List Char} {token : Token}
    (h : decimalToken negative cs = .ok (token, rest)) :
    token.isNumber = true ∧ rest = (decimalText cs).2 := by
  rw [decimalToken] at h
  split at h
  next digits after hdigits =>
  rw [hdigits]
  extract_lets whole signed at h
  split at h
  · obtain ⟨rfl, rfl⟩ := Prod.mk.inj (Except.ok.inj h)
    exact ⟨rfl, rfl⟩
  · split at h
    · obtain ⟨rfl, rfl⟩ := Prod.mk.inj (Except.ok.inj h)
      exact ⟨rfl, rfl⟩
    · cases h

/-- A number in another radix takes its digits and separators. -/
theorem radixToken_spec {negative : Bool} {radix : Nat} {cs rest : List Char} {token : Token}
    (h : radixToken negative radix cs = .ok (token, rest)) :
    token.isNumber = true ∧ ∃ text, cs = text ++ rest ∧ 'p' ∉ text := by
  rw [radixToken] at h
  split at h
  · cases h
  · obtain ⟨rfl, rfl⟩ := Prod.mk.inj (Except.ok.inj h)
    refine ⟨rfl, _, List.takeWhile_append_dropWhile.symm, fun hp => ?_⟩
    have hdigit := List.mem_takeWhile_imp hp
    cases hdigit

/-- A number takes at least the digit that it begins with. -/
theorem numberToken_spec {negative : Bool} {c : Char} {cs rest : List Char} {token : Token}
    (hc : c.isDigit = true) (h : numberToken negative (c :: cs) = .ok (token, rest)) :
    token.isNumber = true ∧ ∃ text, c :: cs = text ++ rest ∧ text ≠ [] ∧ 'p' ∉ text := by
  have hdecimal : decimalToken negative (c :: cs) = .ok (token, rest) →
      token.isNumber = true ∧ ∃ text, c :: cs = text ++ rest ∧ text ≠ [] ∧ 'p' ∉ text := by
    intro h
    obtain ⟨htoken, rfl⟩ := decimalToken_spec h
    obtain ⟨text, htext, hp⟩ := decimalText_spec (c :: cs)
    refine ⟨htoken, text, htext, ?_, hp⟩
    rintro rfl
    have hends := decimalText_ends (c :: cs)
    rw [← List.nil_append (decimalText (c :: cs)).2, ← htext] at hends
    simp [hc] at hends
  unfold numberToken at h
  split at h
  · next letter more heq =>
    split at h
    · next radix hradix =>
      rw [heq]
      obtain ⟨htoken, text, rfl, hp⟩ := radixToken_spec h
      have hletter : letter ≠ 'p' := by
        rintro rfl
        cases hradix
      refine ⟨htoken, '0' :: letter :: text, rfl, List.cons_ne_nil _ _, ?_⟩
      simp [hp, hletter.symm]
    · exact hdecimal h
  · exact hdecimal h

/-- A step takes some characters, and they stand as its token says. -/
def Takes (cs rest : List Char) (token : Option Token) : Prop :=
  ∃ text, cs = text ++ rest ∧ text ≠ [] ∧ Stands text rest token

/-- What ends with a character that continues no name is closed. -/
theorem takes_until {cs rest : List Char} {token : Option Token} (first : Char)
    (hstands : ∀ text, Closed text rest → Stands text rest token)
    (h : ∃ last, isNamePart last = false ∧ ∃ text, cs = text ++ last :: rest) :
    Takes (first :: cs) rest token := by
  obtain ⟨last, hlast, text, rfl⟩ := h
  exact ⟨first :: text ++ [last], by simp, by simp, hstands _ (closed_append hlast)⟩

/-- The token and the rest of a step that succeeds. -/
theorem eq_of_step {ε α β γ : Type} {a a' : α} {b b' : β} {c c' : γ}
    (h : (Except.ok (a, b, c) : Except ε (α × β × γ)) = .ok (a', b', c')) : a = a' ∧ c = c' := by
  obtain ⟨rfl, hrest⟩ := Prod.mk.inj (Except.ok.inj h)
  exact ⟨rfl, (Prod.mk.inj hrest).2⟩

/-- The character before which a row of characters stops. -/
theorem head?_dropWhile_any {stays ends : Char → Bool} (cs : List Char)
    (h : ∀ c, stays c = false → ends c = false) :
    (cs.dropWhile stays).head?.any ends = false := by
  have hstops := List.head?_dropWhile_not stays cs
  cases hrest : (cs.dropWhile stays).head? with
  | none => rfl
  | some c =>
    rw [hrest] at hstops
    exact h c (by simpa using hstops)

/-- A piece of template text is closed. -/
theorem templatePiece_spec {limits : Limits} {isFirst : Bool} {state state' : LexState}
    {cs rest : List Char} {token : Token}
    (h : templatePiece limits isFirst state cs = .ok (token, state', rest)) :
    (∀ text, Closed text rest → Stands text rest (some token)) ∧
      ∃ last, isNamePart last = false ∧ ∃ text, cs = text ++ last :: rest := by
  obtain ⟨⟨inner, stop, after⟩, htext, h⟩ := exceptBind_eq_ok_iff.mp h
  obtain ⟨s, -, h⟩ := exceptBind_eq_ok_iff.mp h
  have hends := templateText_spec htext
  cases stop with
  | code =>
    obtain ⟨rfl, rfl⟩ := eq_of_step h
    refine ⟨fun text hclosed => ?_, hends⟩
    cases isFirst <;> exact hclosed
  | close =>
    obtain ⟨rfl, rfl⟩ := eq_of_step h
    refine ⟨fun text hclosed => ?_, hends⟩
    cases isFirst <;> exact hclosed

/-- A name or a word is taken as a whole. -/
theorem stands_wordToken {c : Char} {cs : List Char} {token : Token} (hc : isNameStart c = true)
    (h : wordToken (String.ofList ((c :: cs).takeWhile isNamePart)) = .ok token) :
    Takes (c :: cs) ((c :: cs).dropWhile isNamePart) (some token) := by
  have hpart := isNamePart_of_isNameStart hc
  have hspells : Spells (String.ofList ((c :: cs).takeWhile isNamePart))
      ((c :: cs).takeWhile isNamePart) ((c :: cs).dropWhile isNamePart) := by
    refine ⟨(String.toList_ofList).symm, ?_, fun d hd => List.mem_takeWhile_imp hd, ?_⟩
    · rw [List.takeWhile_cons_of_pos hpart]
      exact hc
    · exact head?_dropWhile_any _ fun _ => id
  refine ⟨_, List.takeWhile_append_dropWhile.symm, ?_, ?_⟩
  · rw [List.takeWhile_cons_of_pos hpart]
    exact List.cons_ne_nil _ _
  · unfold wordToken at h
    split at h
    · next hreserved =>
      obtain rfl := Except.ok.inj h
      rw [Bool.or_eq_true, List.contains_iff_mem, List.contains_iff_mem] at hreserved
      exact ⟨hspells, hreserved.imp_right .inl⟩
    · split at h
      · obtain rfl := Except.ok.inj h
        exact hspells
      · split at h
        · next hline =>
          obtain rfl := Except.ok.inj h
          exact ⟨hspells, .inr (.inr hline)⟩
        · cases h

/-- A mark ends with a character that continues no name, or no name follows it. -/
theorem lexMark_spec {state state' : LexState} {cs rest : List Char} {token : Option Token}
    (h : lexStep.lexMark state cs = .ok (token, state', rest)) : Takes cs rest token := by
  have hplain : lexStep.plainMark state cs = .ok (token, state', rest) → Takes cs rest token := by
    intro h
    unfold lexStep.plainMark at h
    split at h
    · next m after hmark =>
      obtain ⟨rfl, rfl⟩ := eq_of_step h
      obtain ⟨hcs, hsome, hp, hlast⟩ := markToken?_spec hmark
      exact ⟨m.toList, hcs, hsome, hp, .inl hlast⟩
    · cases h
  unfold lexStep.lexMark at h
  split at h
  · next after hafter =>
    split at h
    · exact hplain h
    · next hname =>
      obtain ⟨rfl, rfl⟩ := eq_of_step h
      refine ⟨"!in".toList, Text.after?_eq_some_iff.mp hafter, by decide, by decide, .inr ?_⟩
      simpa using hname
  · exact hplain h

/-- What one step takes. -/
theorem lexStep_spec {limits : Limits} {state state' : LexState} {cs rest : List Char}
    {token : Option Token} (hcs : cs ≠ [])
    (h : lexStep limits state cs = .ok (token, state', rest)) : Takes cs rest token := by
  unfold lexStep at h
  split at h
  · exact absurd rfl hcs
  -- A comment up to the end of its line, which continues no name.
  · next line =>
    obtain ⟨rfl, rfl⟩ := eq_of_step h
    refine ⟨'/' :: '/' :: line.takeWhile (· ≠ '\n'), by simp, by simp, .inr ?_⟩
    refine head?_dropWhile_any line fun c hc => ?_
    obtain rfl : c = '\n' := by simpa using hc
    decide
  -- A comment that ends with its slash, or with the source.
  · next comment =>
    obtain ⟨rfl, rfl⟩ := eq_of_step h
    rcases afterComment_spec 0 comment with hopen | hclosed
    · rw [hopen]
      exact ⟨'/' :: '*' :: comment, by simp, by simp, .inr rfl⟩
    · exact takes_until '/' (fun _ => id) ⟨'/', rfl, exists_cons_append _ hclosed⟩
  -- A text, a character and the beginning of a template end with a quote or a brace.
  · obtain ⟨⟨inner, after⟩, hquoted, h⟩ := exceptBind_eq_ok_iff.mp h
    obtain ⟨s, -, h⟩ := exceptBind_eq_ok_iff.mp h
    obtain ⟨rfl, rfl⟩ := eq_of_step h
    exact takes_until _ (fun _ => id) ⟨'"', rfl, quoted_spec hquoted⟩
  · obtain ⟨⟨inner, after⟩, hquoted, h⟩ := exceptBind_eq_ok_iff.mp h
    dsimp only at h
    split at h
    · obtain ⟨rfl, rfl⟩ := eq_of_step h
      exact takes_until _ (fun _ => id) ⟨'\'', rfl, quoted_spec hquoted⟩
    · cases h
  · next more =>
    extract_lets start at h
    obtain ⟨⟨piece, state₁, after⟩, hpiece, h⟩ := exceptBind_eq_ok_iff.mp h
    obtain ⟨rfl, rfl⟩ := eq_of_step h
    obtain ⟨hstands, last, hlast, text, htext⟩ := templatePiece_spec hpiece
    have hstart : ∃ skipped, more = skipped ++ start := by
      dsimp only [start]
      split
      · exact ⟨['\n'], rfl⟩
      · exact ⟨[], rfl⟩
    obtain ⟨skipped, hstart⟩ := hstart
    refine takes_until _ hstands ⟨last, hlast, skipped ++ text, ?_⟩
    rw [hstart, htext, List.append_assoc]
  -- A blank, a number without and with its sign, a word, more of a template, a mark.
  · next c more _ _ _ _ _ =>
    split at h
    · next hblank =>
      obtain ⟨rfl, rfl⟩ := eq_of_step h
      exact ⟨[c], rfl, List.cons_ne_nil _ _, Or.inl (isNamePart_of_isBlank hblank)⟩
    split at h
    · next hdigit =>
      obtain ⟨⟨number, after⟩, hnumber, h⟩ := exceptBind_eq_ok_iff.mp h
      obtain ⟨rfl, rfl⟩ := eq_of_step h
      obtain ⟨hkind, text, htext, hsome, hp⟩ := numberToken_spec hdigit hnumber
      exact ⟨text, htext, hsome, stands_number hkind hp⟩
    split at h
    · next hsign =>
      obtain ⟨⟨number, after⟩, hnumber, h⟩ := exceptBind_eq_ok_iff.mp h
      obtain ⟨rfl, rfl⟩ := eq_of_step h
      simp only [Bool.and_eq_true, decide_eq_true_eq] at hsign
      obtain ⟨⟨rfl, -⟩, hdigit⟩ := hsign
      cases more with
      | nil => cases hdigit
      | cons d more =>
        obtain ⟨hkind, text, htext, -, hp⟩ := numberToken_spec (by simpa using hdigit) hnumber
        refine ⟨'-' :: text, by rw [htext, List.cons_append], List.cons_ne_nil _ _, ?_⟩
        exact stands_number hkind (by simp [hp])
    split at h
    · next hstart =>
      obtain ⟨name, hname, h⟩ := exceptBind_eq_ok_iff.mp h
      obtain ⟨rfl, rfl⟩ := eq_of_step h
      exact stands_wordToken hstart hname
    split at h
    · split at h
      · obtain ⟨⟨piece, state₁, after⟩, hpiece, h⟩ := exceptBind_eq_ok_iff.mp h
        obtain ⟨rfl, rfl⟩ := eq_of_step h
        obtain ⟨hstands, hends⟩ := templatePiece_spec hpiece
        exact takes_until _ hstands hends
      · exact lexMark_spec h
    · exact lexMark_spec h

end ProcessDisplay.Script
