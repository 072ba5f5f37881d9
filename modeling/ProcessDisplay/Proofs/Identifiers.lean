import Mathlib.Data.Bool.Basic
import Mathlib.Data.List.Basic
import Mathlib.Data.List.TakeWhile
import ProcessDisplay.Proofs.TextParts
import ProcessDisplay.Rule.Accessor

/-!
# Identifiers of a text

The scanner of rules finds exactly the words that stand in a text as
identifiers: from a character that begins one, with none open before it, up to
the next character that continues none. A character that continues none divides
a text into parts with identifiers of their own.
-/

namespace ProcessDisplay.Rule

/-- A word is an identifier between other parts of a text: it begins like one and
goes on up to the first character that continues none. Digits may stand before it,
since they begin none. -/
structure IsIdentifier (before digits word after : List Char) : Prop where
  /-- No identifier goes on up to the digits. -/
  apart : before.getLast?.any continuesIdentifier = false
  /-- Only digits stand between. -/
  digits : ∀ c ∈ digits, c.isDigit = true
  /-- Its first character begins an identifier. -/
  begins : word.head?.any beginsIdentifier = true
  /-- All of its characters continue one. -/
  continues : ∀ c ∈ word, continuesIdentifier c = true
  /-- The next character continues none. -/
  ends : after.head?.any continuesIdentifier = false

/-- A word stands in a text as an identifier. -/
def Occurs (word text : List Char) : Prop :=
  ∃ before digits after, text = before ++ (digits ++ (word ++ after)) ∧
    IsIdentifier before digits word after

section Identifiers

variable {c : Char} {word text rest : List Char}

/-- What begins an identifier continues one. -/
theorem continues_of_begins (h : beginsIdentifier c = true) : continuesIdentifier c = true := by
  unfold beginsIdentifier at h
  unfold continuesIdentifier Char.isAlphanum
  simp only [Bool.or_eq_true] at h ⊢
  exact h.imp_left Or.inl

/-- What continues no identifier begins none. -/
theorem begins_of_not_continues (h : continuesIdentifier c = false) :
    beginsIdentifier c = false := by
  refine Bool.eq_false_of_not_eq_true fun hbegins => ?_
  rw [continues_of_begins hbegins] at h
  cases h

/-- What continues an identifier and begins none is a digit. -/
theorem isDigit_of_continues (h : continuesIdentifier c = true)
    (hbegins : beginsIdentifier c = false) : c.isDigit = true := by
  unfold beginsIdentifier at hbegins
  unfold continuesIdentifier Char.isAlphanum at h
  simp only [Bool.or_eq_true, Bool.or_eq_false_iff] at h hbegins
  rcases h with (halpha | hdigit) | hline
  · rw [hbegins.1] at halpha
    cases halpha
  · exact hdigit
  · rw [hbegins.2] at hline
    cases hline

/-- A digit begins no identifier. -/
theorem begins_of_isDigit (h : c.isDigit = true) : beginsIdentifier c = false := by
  have hrange : 48 ≤ c.val.toNat ∧ c.val.toNat ≤ 57 := by
    simp only [Char.isDigit, Bool.and_eq_true, decide_eq_true_eq] at h
    exact h
  have hline : c ≠ '_' := by
    rintro rfl
    cases h
  have hupper : c.isUpper = false := decide_eq_false fun h => by
    have hlow : 65 ≤ c.val.toNat := h.1
    omega
  have hlower : c.isLower = false := by
    refine Bool.and_eq_false_iff.mpr (.inl (decide_eq_false fun h => ?_))
    have hlow : 97 ≤ c.val.toNat := h
    omega
  have hletter : c.isAlpha = false := Bool.or_eq_false_iff.mpr ⟨hupper, hlower⟩
  rw [beginsIdentifier, hletter, decide_eq_false hline]
  rfl

/-- An open identifier goes on up to the first character that continues none. -/
theorem identifiersFrom_some (read text : List Char) : identifiersFrom (some read) text =
    (read.reverse ++ text.takeWhile continuesIdentifier) ::
      identifiers (text.dropWhile continuesIdentifier) := by
  induction text generalizing read with
  | nil => rw [identifiersFrom, List.takeWhile_nil, List.append_nil]; rfl
  | cons c rest ih =>
    rw [identifiersFrom]
    by_cases hc : continuesIdentifier c = true
    · rw [if_pos hc, ih, List.takeWhile_cons_of_pos hc, List.dropWhile_cons_of_pos hc,
        List.reverse_cons, List.append_assoc, List.singleton_append]
    · have hbegins : beginsIdentifier c = false :=
        begins_of_not_continues (Bool.eq_false_of_not_eq_true hc)
      rw [if_neg hc, List.takeWhile_cons_of_neg hc, List.dropWhile_cons_of_neg hc, List.append_nil,
        identifiers, identifiersFrom, hbegins]
      rfl

/-- An identifier is found where it begins, and then those behind it. -/
theorem identifiers_of_begins (h : beginsIdentifier c = true) : identifiers (c :: rest) =
    (c :: rest.takeWhile continuesIdentifier) ::
      identifiers (rest.dropWhile continuesIdentifier) := by
  rw [identifiers, identifiersFrom, if_pos h, identifiersFrom_some]
  rfl

/-- A character that begins no identifier is passed over. -/
theorem identifiers_of_not_begins (h : beginsIdentifier c = false) :
    identifiers (c :: rest) = identifiers rest := by
  rw [identifiers, identifiersFrom, h]
  rfl

/-- A character that continues no identifier divides the identifiers of a text. -/
theorem identifiersFrom_append (hc : continuesIdentifier c = false) (read : Option (List Char))
    (before : List Char) : identifiersFrom read (before ++ c :: rest) =
      identifiersFrom read before ++ identifiers rest := by
  have hbegins : beginsIdentifier c = false := begins_of_not_continues hc
  induction before generalizing read with
  | nil =>
    cases read with
    | none => exact identifiers_of_not_begins hbegins
    | some read =>
      have hnot : ¬continuesIdentifier c = true := by simp [hc]
      rw [List.nil_append, identifiersFrom_some, List.takeWhile_cons_of_neg hnot,
        List.dropWhile_cons_of_neg hnot, List.append_nil, identifiers_of_not_begins hbegins]
      rfl
  | cons d before ih =>
    rw [List.cons_append]
    cases read with
    | none => rw [identifiersFrom, identifiersFrom, ih]
    | some read =>
      rw [identifiersFrom, identifiersFrom]
      split
      · rw [ih]
      · rw [ih, List.cons_append]

/-- What stands behind a character that continues no identifier stands in the whole text. -/
theorem Occurs.behind (h : Occurs word rest) (hc : continuesIdentifier c = false)
    (front : List Char) : Occurs word (front ++ c :: rest) := by
  obtain ⟨before, digits, after, rfl, hword⟩ := h
  have htext : front ++ c :: (before ++ (digits ++ (word ++ after))) =
      (front ++ c :: before) ++ (digits ++ (word ++ after)) := by simp
  refine ⟨front ++ c :: before, digits, after, htext, { hword with apart := ?_ }⟩
  cases before with
  | nil =>
    rw [List.getLast?_concat]
    exact hc
  | cons d before =>
    rw [List.getLast?_append_cons, List.getLast?_cons_cons]
    exact hword.apart

/-- What stands behind a digit stands in the whole text. -/
theorem Occurs.behind_digit (h : Occurs word rest) (hc : c.isDigit = true) :
    Occurs word (c :: rest) := by
  obtain ⟨before, digits, after, rfl, hword⟩ := h
  cases before with
  | nil =>
    exact ⟨[], c :: digits, after, rfl,
      { hword with digits := List.forall_mem_cons.mpr ⟨hc, hword.digits⟩ }⟩
  | cons d before =>
    refine ⟨c :: d :: before, digits, after, rfl, { hword with apart := ?_ }⟩
    rw [List.getLast?_cons_cons]
    exact hword.apart

/-- What is left behind an identifier does not continue it. -/
theorem head?_dropWhile_continues (text : List Char) :
    (text.dropWhile continuesIdentifier).head?.any continuesIdentifier = false := by
  have hhead := List.head?_dropWhile_not continuesIdentifier text
  cases hafter : (text.dropWhile continuesIdentifier).head? with
  | none => rfl
  | some d =>
    rw [hafter] at hhead
    exact hhead

/-- The characters from the beginning of an identifier up to its end are one. -/
theorem occurs_of_begins (h : beginsIdentifier c = true) :
    Occurs (c :: rest.takeWhile continuesIdentifier) (c :: rest) := by
  refine ⟨[], [], rest.dropWhile continuesIdentifier, ?_, rfl, ?_, h, ?_,
    head?_dropWhile_continues rest⟩
  · rw [List.nil_append, List.nil_append, List.cons_append, List.takeWhile_append_dropWhile]
  · exact fun d hd => absurd hd List.not_mem_nil
  · refine List.forall_mem_cons.mpr ⟨continues_of_begins h, fun d hd => ?_⟩
    exact List.mem_takeWhile_imp hd

/-- Every identifier that is found stands in the text. -/
theorem occurs_of_mem (h : word ∈ identifiers text) : Occurs word text := by
  -- What is left behind an identifier is any shorter part of the text, hence the length.
  induction hlength : text.length using Nat.strong_induction_on generalizing text with
  | _ n ih =>
    cases text with
    | nil => cases h
    | cons c rest =>
      have hrest : word ∈ identifiers rest → Occurs word rest :=
        fun hmem => ih rest.length (by rw [← hlength]; exact Nat.lt_succ_self _) hmem rfl
      by_cases hbegins : beginsIdentifier c = true
      · rw [identifiers_of_begins hbegins] at h
        rcases List.mem_cons.mp h with rfl | hlater
        · exact occurs_of_begins hbegins
        · cases hafter : rest.dropWhile continuesIdentifier with
          | nil =>
            rw [hafter] at hlater
            cases hlater
          | cons d after =>
            have hd : continuesIdentifier d = false := by
              have hhead := head?_dropWhile_continues rest
              rw [hafter] at hhead
              exact hhead
            have htext : c :: rest = (c :: rest.takeWhile continuesIdentifier) ++ d :: after := by
              rw [← hafter, List.cons_append, List.takeWhile_append_dropWhile]
            have hshorter : after.length < n := by
              rw [← hlength, htext, List.length_append, List.length_cons, List.length_cons]
              omega
            rw [hafter, identifiers_of_not_begins (begins_of_not_continues hd)] at hlater
            rw [htext]
            exact (ih after.length hshorter hlater rfl).behind hd _
      · have hnot : beginsIdentifier c = false := Bool.eq_false_of_not_eq_true hbegins
        rw [identifiers_of_not_begins hnot] at h
        by_cases hc : continuesIdentifier c = true
        · exact (hrest h).behind_digit (isDigit_of_continues hc hnot)
        · exact (hrest h).behind (Bool.eq_false_of_not_eq_true hc) []

/-- Digits alone contain no identifier. -/
theorem identifiers_append_of_digits {digits : List Char} (h : ∀ c ∈ digits, c.isDigit = true) :
    identifiers (digits ++ text) = identifiers text := by
  induction digits with
  | nil => rfl
  | cons c digits ih =>
    obtain ⟨hc, hmore⟩ := List.forall_mem_cons.mp h
    rw [List.cons_append, identifiers_of_not_begins (begins_of_isDigit hc), ih hmore]

/-- The scanner finds exactly the words that stand in a text as identifiers. -/
theorem mem_identifiers_iff : word ∈ identifiers text ↔ Occurs word text := by
  refine ⟨occurs_of_mem, ?_⟩
  rintro ⟨before, digits, after, rfl, hword⟩
  have hfound : word ∈ identifiers (digits ++ (word ++ after)) := by
    rw [identifiers_append_of_digits hword.digits]
    have hbegins := hword.begins
    have hcontinues := hword.continues
    cases word with
    | nil => cases hbegins
    | cons c more =>
      have htake : (more ++ after).takeWhile continuesIdentifier = more :=
        Text.takeWhile_append_of_stop (List.forall_mem_cons.mp hcontinues).2 hword.ends
      rw [List.cons_append, identifiers_of_begins hbegins, htake]
      exact List.mem_cons_self
  rcases List.eq_nil_or_concat before with rfl | ⟨before, c, rfl⟩
  · exact hfound
  · have hc : continuesIdentifier c = false := by
      have hapart := hword.apart
      rwa [List.concat_eq_append, List.getLast?_concat] at hapart
    rw [List.concat_eq_append, List.append_assoc, List.singleton_append, identifiers,
      identifiersFrom_append hc]
    exact List.mem_append_right _ hfound

end Identifiers

end ProcessDisplay.Rule
