import Mathlib.Data.List.DropRight
import Mathlib.Tactic.Common
import ProcessDisplay.VariableName

/-!
# Registry keys read again

The key of a parsed name, read as a name once more, is the same name without
its initializer. It is refused only where a closing parenthesis stands within
the identifier of a variable of the display. So a spelling can not change its
variable because its own text has become a key in the meantime. A key has no
blanks around it.
-/

namespace ProcessDisplay

namespace Text

/-- Trimming removes blanks on the left and then on the right. -/
theorem trimmed_eq_rdropWhile (cs : List Char) :
    trimmed cs = (cs.dropWhile isBlank).rdropWhile isBlank := rfl

/-- Trimming only removes characters. -/
theorem mem_of_mem_trimmed {c : Char} {cs : List Char} (h : c ∈ trimmed cs) : c ∈ cs := by
  rw [trimmed_eq_rdropWhile] at h
  exact (List.dropWhile_suffix _).subset ((List.rdropWhile_prefix _ _).subset h)

/-- Trimming removes nothing but blanks. -/
theorem mem_trimmed_of_not_isBlank {c : Char} {cs : List Char} (h : c ∈ cs)
    (hc : ¬isBlank c = true) : c ∈ trimmed cs := by
  have hleft : c ∈ cs.dropWhile isBlank := by
    rw [← List.takeWhile_append_dropWhile (p := isBlank) (l := cs), List.mem_append] at h
    exact h.resolve_left fun hm => hc (List.mem_takeWhile_imp hm)
  rw [← List.rdropWhile_append_rtakeWhile (p := isBlank) (l := cs.dropWhile isBlank),
    List.mem_append] at hleft
  exact hleft.resolve_right fun hm => hc (List.mem_rtakeWhile_imp hm)

/-- A text is blank if its trimmed text is. -/
theorem isBlankText_of_trimmed {cs : List Char} (h : isBlankText (trimmed cs) = true) :
    isBlankText cs = true := by
  rw [isBlankText, List.all_eq_true] at *
  intro c hc
  by_contra hblank
  exact hblank (h c (mem_trimmed_of_not_isBlank hc hblank))

/-- Nothing is left of a blank text after trimming, and of no other. -/
theorem trimmed_eq_nil_iff {cs : List Char} : trimmed cs = [] ↔ isBlankText cs = true := by
  refine ⟨fun h => isBlankText_of_trimmed (by rw [h]; rfl), fun h => ?_⟩
  rw [trimmed_eq_rdropWhile, List.dropWhile_eq_nil_iff.mpr (List.all_eq_true.mp h)]
  rfl

/-- Nothing is left to trim after trimming. -/
theorem trimmed_trimmed (cs : List Char) : trimmed (trimmed cs) = trimmed cs := by
  have hleft : (trimmed cs).dropWhile isBlank = trimmed cs := by
    rw [List.dropWhile_eq_self_iff]
    intro hlen
    obtain ⟨rest, hrest⟩ := List.rdropWhile_prefix isBlank (cs.dropWhile isBlank)
    rw [← trimmed_eq_rdropWhile] at hrest
    have hlen' : 0 < (cs.dropWhile isBlank).length := by
      rw [← hrest, List.length_append]
      omega
    have hhead : (cs.dropWhile isBlank).get ⟨0, hlen'⟩ = (trimmed cs).get ⟨0, hlen⟩ := by
      simp only [List.get_eq_getElem, ← hrest, List.getElem_append_left hlen]
    rw [List.get_eq_getElem, List.get_eq_getElem] at hhead
    rw [← hhead]
    exact List.dropWhile_eq_self_iff.mp (List.dropWhile_idempotent isBlank cs) hlen'
  rw [trimmed_eq_rdropWhile (trimmed cs), hleft]
  exact List.rdropWhile_idempotent isBlank _

/-- Trimmed characters end with no blank. -/
theorem rdropWhile_of_trimmed {cs : List Char} (h : trimmed cs = cs) :
    cs.rdropWhile isBlank = cs := by
  have hidempotent := List.rdropWhile_idempotent isBlank (cs.dropWhile isBlank)
  rw [← trimmed_eq_rdropWhile, h] at hidempotent
  exact hidempotent

/-- Characters that begin with one that is not blank and end with no blank are
trimmed. -/
theorem trimmed_append {first : Char} {start tail : List Char} (hfirst : isBlank first = false)
    (htail : tail ≠ []) (hlast : tail.rdropWhile isBlank = tail) :
    trimmed (first :: start ++ tail) = first :: start ++ tail := by
  have hleft : (first :: start ++ tail).dropWhile isBlank = first :: start ++ tail := by
    rw [List.cons_append, List.dropWhile_cons_of_neg (by simp [hfirst])]
  rw [trimmed_eq_rdropWhile, hleft, List.rdropWhile_eq_self_iff]
  intro hne
  rw [List.getLast_append_of_ne_nil hne htail]
  exact List.rdropWhile_eq_self_iff.mp hlast htail

/-- The trimmed text of a text, as characters. -/
@[simp] theorem toList_trim (text : String) : (trim text).toList = trimmed text.toList := by
  simp [trim]

/-- Nothing is left to trim from a trimmed text. -/
@[simp] theorem trim_trim (text : String) : trim (trim text) = trim text := by
  rw [trim, toList_trim, trimmed_trimmed]
  rfl

/-- What follows a beginning, put back after it. -/
theorem after?_eq_some_iff {start cs rest : List Char} :
    after? start cs = some rest ↔ cs = start ++ rest := by
  induction start generalizing cs with
  | nil => simp [after?]
  | cons p ps ih =>
    cases cs with
    | nil => simp [after?]
    | cons c cs =>
      by_cases h : p = c
      · simp [after?, h, ih]
      · simp [after?, h, Ne.symm h]

/-- What precedes a closing character, put back before it. -/
theorem beforeLast?_append (last : Char) (cs : List Char) :
    beforeLast? last (cs ++ [last]) = some cs := by
  simp [beforeLast?]

/-- There is always a piece. -/
theorem pieces_ne_nil (separator : Char) (cs : List Char) : pieces separator cs ≠ [] := by
  cases cs with
  | nil => simp [pieces]
  | cons c rest =>
    unfold pieces
    split
    · simp
    · split <;> simp

/-- Pieces hold no separator. -/
theorem not_mem_of_mem_pieces {separator : Char} {cs piece : List Char}
    (h : piece ∈ pieces separator cs) : separator ∉ piece := by
  induction cs generalizing piece with
  | nil =>
    rw [pieces, List.mem_singleton] at h
    simp [h]
  | cons c rest ih =>
    unfold pieces at h
    split at h
    · rcases List.mem_cons.mp h with rfl | h
      · simp
      · exact ih h
    · next hc =>
      split at h
      · next hnil => exact absurd hnil (pieces_ne_nil separator rest)
      · next first others hcons =>
        rcases List.mem_cons.mp h with rfl | h
        · have hfirst : separator ∉ first := ih (by simp [hcons])
          simp [hfirst, Ne.symm hc]
        · exact ih (by simp [hcons, h])

/-- The pieces joined again are the text. -/
theorem intercalate_pieces (separator : Char) (cs : List Char) :
    List.intercalate [separator] (pieces separator cs) = cs := by
  induction cs with
  | nil => rfl
  | cons c rest ih =>
    unfold pieces
    split
    · next hc =>
      cases hrest : pieces separator rest with
      | nil => exact absurd hrest (pieces_ne_nil separator rest)
      | cons first others =>
        rw [List.intercalate_cons_cons, ← hrest, ih, hc]
        rfl
    · split
      · next hnil => exact absurd hnil (pieces_ne_nil separator rest)
      · next first others hcons =>
        rw [hcons] at ih
        cases others with
        | nil => rw [List.intercalate_singleton] at ih ⊢; rw [ih]
        | cons next others =>
          rw [List.intercalate_cons_cons] at ih ⊢
          rw [← ih]
          rfl

/-- A text without the separator is one piece. -/
theorem pieces_of_not_mem {separator : Char} {cs : List Char} (h : separator ∉ cs) :
    pieces separator cs = [cs] := by
  induction cs with
  | nil => rfl
  | cons c rest ih =>
    have hc : c ≠ separator := fun he => h (by simp [he])
    have hrest : separator ∉ rest := fun hm => h (by simp [hm])
    rw [pieces, if_neg hc, ih hrest]

/-- A separator ends the first piece. -/
theorem pieces_append {separator : Char} {cs : List Char} (h : separator ∉ cs)
    (rest : List Char) :
    pieces separator (cs ++ separator :: rest) = cs :: pieces separator rest := by
  induction cs with
  | nil => rw [List.nil_append, pieces, if_pos rfl]
  | cons c tail ih =>
    have hc : c ≠ separator := fun he => h (by simp [he])
    have htail : separator ∉ tail := fun hm => h (by simp [hm])
    rw [List.cons_append, pieces, if_neg hc, ih htail]

/-- Joined pieces come apart again. -/
theorem pieces_intercalate {separator : Char} {parts : List (List Char)} (hne : parts ≠ [])
    (h : ∀ part ∈ parts, separator ∉ part) :
    pieces separator (List.intercalate [separator] parts) = parts := by
  induction parts with
  | nil => exact absurd rfl hne
  | cons part rest ih =>
    have hpart := h part List.mem_cons_self
    cases rest with
    | nil =>
      rw [List.intercalate_singleton]
      exact pieces_of_not_mem hpart
    | cons next others =>
      have hrest : ∀ p ∈ next :: others, separator ∉ p :=
        fun p hp => h p (List.mem_cons_of_mem _ hp)
      rw [List.intercalate_cons_cons, List.append_assoc, List.singleton_append,
        pieces_append hpart, ih (by simp) hrest]

end Text

namespace VariableName

/-- The head of a call holds no opening parenthesis and is trimmed. -/
theorem splitCall_head {cs head : List Char} {inside : Option (List Char)}
    (h : splitCall cs = some (head, inside)) : '(' ∉ head ∧ Text.trimmed head = head := by
  unfold splitCall at h
  split at h
  · next hnone =>
    split at h
    · cases h
    · obtain ⟨rfl, -⟩ : Text.trimmed cs = head ∧ none = inside := by simpa using h
      refine ⟨?_, Text.trimmed_trimmed cs⟩
      intro hm
      have hall := List.dropWhile_eq_nil_iff.mp hnone '(' (Text.mem_of_mem_trimmed hm)
      simp at hall
  · obtain ⟨inner, -, hpair⟩ := Option.map_eq_some_iff.mp h
    obtain ⟨rfl, -⟩ : Text.trimmed (cs.takeWhile (· ≠ '(')) = head ∧ some inner = inside := by
      simpa using hpair
    refine ⟨?_, Text.trimmed_trimmed _⟩
    intro hm
    have htake := List.mem_takeWhile_imp (Text.mem_of_mem_trimmed hm)
    simp at htake

/-- A text without an opening parenthesis is a head, unless it has a closing one. -/
theorem splitCall_of_not_mem {head : List Char} (hopen : '(' ∉ head)
    (htrim : Text.trimmed head = head) :
    splitCall head = if head.contains ')' then none else some (head, none) := by
  have hnil : head.dropWhile (· ≠ '(') = [] := by
    rw [List.dropWhile_eq_nil_iff]
    intro c hc
    exact decide_eq_true (fun he => hopen (he ▸ hc))
  unfold splitCall
  rw [hnil, htrim]

/-- A head with nothing after it has no closing parenthesis. -/
theorem not_contains_of_splitCall {cs head : List Char} (h : splitCall cs = some (head, none)) :
    head.contains ')' = false := by
  unfold splitCall at h
  split at h
  · split at h
    · cases h
    · next hclose =>
      obtain ⟨rfl, -⟩ := Prod.mk.inj (Option.some.inj h)
      rw [Bool.eq_false_iff, Ne, List.contains_iff_mem]
      exact fun hmem => hclose (List.contains_iff_mem.mpr (Text.mem_of_mem_trimmed hmem))
  · obtain ⟨inner, -, hpair⟩ := Option.map_eq_some_iff.mp h
    cases hpair

/-- A head with parentheses after it comes apart into the head and what they enclose. -/
theorem splitCall_call {head : List Char} (hopen : '(' ∉ head) (htrim : Text.trimmed head = head)
    (inside : List Char) :
    splitCall (head ++ '(' :: (inside ++ [')'])) = some (head, some inside) := by
  have hpos : ∀ c ∈ head, decide (c ≠ '(') = true :=
    fun c hc => decide_eq_true (fun he => hopen (he ▸ hc))
  have hdrop : (head ++ '(' :: (inside ++ [')'])).dropWhile (· ≠ '(') =
      '(' :: (inside ++ [')']) := by
    rw [List.dropWhile_append_of_pos hpos]
    simp
  have htake : (head ++ '(' :: (inside ++ [')'])).takeWhile (· ≠ '(') = head := by
    rw [List.takeWhile_append_of_pos hpos]
    simp
  unfold splitCall
  rw [hdrop]
  simp only [Text.beforeLast?_append, Option.map_some]
  rw [htake, htrim]

/-- Arguments read from joined arguments are the same arguments. -/
theorem splitArguments_joined (cs : List Char) :
    splitArguments (Text.joined "," (splitArguments cs)).toList = splitArguments cs := by
  by_cases hblank : Text.isBlankText cs = true
  · have hnil : splitArguments cs = [] := by rw [splitArguments, if_pos hblank]
    rw [hnil]
    rfl
  · have hargs : splitArguments cs =
        (Text.pieces ',' cs).map fun piece => String.ofList (Text.trimmed piece) := by
      rw [splitArguments, if_neg hblank]
    have hjoined : (Text.joined "," (splitArguments cs)).toList =
        List.intercalate [','] ((Text.pieces ',' cs).map Text.trimmed) := by
      rw [Text.joined, String.toList_intercalate, hargs, List.map_map]
      congr 1
      exact List.map_congr_left fun piece _ => by simp
    have hpieces : Text.pieces ',' (Text.joined "," (splitArguments cs)).toList =
        (Text.pieces ',' cs).map Text.trimmed := by
      rw [hjoined]
      apply Text.pieces_intercalate
      · simpa using Text.pieces_ne_nil ',' cs
      · intro part hpart
        obtain ⟨piece, hpiece, rfl⟩ := List.mem_map.mp hpart
        exact fun hm => Text.not_mem_of_mem_pieces hpiece (Text.mem_of_mem_trimmed hm)
    have hseen : ¬Text.isBlankText (Text.joined "," (splitArguments cs)).toList = true := by
      intro hall
      have hcomma : ',' ∉ (Text.joined "," (splitArguments cs)).toList := fun hm => by
        have hmember := List.all_eq_true.mp hall ',' hm
        revert hmember
        decide
      rw [Text.pieces_of_not_mem hcomma] at hpieces
      obtain ⟨piece, hpiece, htext⟩ := List.map_eq_singleton_iff.mp hpieces.symm
      have hcs : cs = piece := by
        rw [← Text.intercalate_pieces ',' cs, hpiece, List.intercalate_singleton]
      rw [← htext, ← hcs] at hall
      exact hblank (Text.isBlankText_of_trimmed hall)
    rw [splitArguments, if_neg hseen, hpieces, hargs, List.map_map]
    exact List.map_congr_left fun piece _ => by simp [Text.trimmed_trimmed]

/-- What a scheme begins, put back after the scheme. -/
theorem ofTrimmed?_local (rest : List Char) :
    ofTrimmed? (localScheme.toList ++ rest) = ofLocal? rest := by
  have hother : Text.after? ['='] (localScheme.toList ++ rest) = none := rfl
  have hscheme := Text.after?_eq_some_iff.mpr (rfl : localScheme.toList ++ rest = _)
  rw [ofTrimmed?, hother]
  simp only [hscheme]

/-- What follows the scheme of simulated variables is read as a simulated name. -/
theorem ofTrimmed?_simulated (rest : List Char) :
    ofTrimmed? (simulatedScheme.toList ++ rest) = ofSimulated? rest := by
  have hother : Text.after? ['='] (simulatedScheme.toList ++ rest) = none := rfl
  have hlocal : Text.after? localScheme.toList (simulatedScheme.toList ++ rest) = none := rfl
  have hscheme := Text.after?_eq_some_iff.mpr (rfl : simulatedScheme.toList ++ rest = _)
  rw [ofTrimmed?, hother, hlocal]
  simp only [hscheme]

/-- What follows the scheme of the display is a head with an identifier and
perhaps an initializer. -/
theorem ofLocal?_eq_some_iff {rest : List Char} {name : VariableName} :
    ofLocal? rest = some name ↔
      ∃ id inside, splitCall rest = some (id, inside) ∧ id ≠ [] ∧
        localVariable (String.ofList id) (inside.map String.ofList) = name := by
  simp only [ofLocal?, Option.bind_eq_bind, Option.bind_eq_some_iff, Prod.exists,
    Option.ite_none_left_eq_some, List.isEmpty_iff, Option.some.injEq, ne_eq]

/-- What follows the scheme of simulated variables is a head with a function
and perhaps arguments. -/
theorem ofSimulated?_eq_some_iff {rest : List Char} {name : VariableName} :
    ofSimulated? rest = some name ↔
      ∃ function inside, splitCall rest = some (function, inside) ∧ function ≠ [] ∧
        simulated (String.ofList function) (inside.map splitArguments) = name := by
  simp only [ofSimulated?, Option.bind_eq_bind, Option.bind_eq_some_iff, Prod.exists,
    Option.ite_none_left_eq_some, List.isEmpty_iff, Option.some.injEq, ne_eq]

/-- A name is a formula, a variable of the display, a simulated variable or the clock. -/
theorem ofTrimmed?_cases {cs : List Char} {name : VariableName} (h : ofTrimmed? cs = some name) :
    (∃ expression, cs = '=' :: expression ∧ ¬Text.isBlankText expression = true ∧
        formula (String.ofList expression) = name) ∨
      (∃ rest, cs = localScheme.toList ++ rest ∧ ofLocal? rest = some name) ∨
      (∃ rest, cs = simulatedScheme.toList ++ rest ∧ ofSimulated? rest = some name) ∨
      cs = clockName.toList ∧ clock = name := by
  unfold ofTrimmed? at h
  split at h
  · next expression hformula =>
    rw [Option.ite_none_left_eq_some, Option.some.injEq] at h
    exact .inl ⟨expression, Text.after?_eq_some_iff.mp hformula, h⟩
  · split at h
    · next rest hlocal => exact .inr (.inl ⟨rest, Text.after?_eq_some_iff.mp hlocal, h⟩)
    · split at h
      · next rest hsimulated =>
        exact .inr (.inr (.inl ⟨rest, Text.after?_eq_some_iff.mp hsimulated, h⟩))
      · rw [Option.ite_none_right_eq_some, Option.some.injEq] at h
        exact .inr (.inr (.inr h))

/-- An expression that is not blank is read as a formula. -/
theorem ofTrimmed?_formula {expression : List Char}
    (h : ¬Text.isBlankText expression = true) :
    ofTrimmed? ('=' :: expression) = some (formula (String.ofList expression)) := by
  have hafter : Text.after? ['='] ('=' :: expression) = some expression :=
    Text.after?_eq_some_iff.mpr rfl
  rw [ofTrimmed?, hafter]
  exact if_neg h

/-- A name without its initializer, which is no part of its key. -/
def withoutInitializer : VariableName → VariableName
  | localVariable id _ => localVariable id none
  | name => name

/-- Whether the key of a name is a name: the identifier of a variable of the
display may hold a closing parenthesis, but only before an initializer. -/
def hasReadableKey : VariableName → Bool
  | localVariable id _ => !id.toList.contains ')'
  | _ => true

/-- The initializer is no part of the key. -/
@[simp] theorem key_withoutInitializer (name : VariableName) :
    name.withoutInitializer.key = name.key := by
  cases name <;> rfl

/-- The key of a variable of the display is the variable without its
initializer, if it is a name. -/
theorem ofTrimmed?_key_of_ofLocal? {rest : List Char} {name : VariableName}
    (h : ofLocal? rest = some name) :
    ofTrimmed? name.key.toList =
      if name.hasReadableKey then some name.withoutInitializer else none := by
  obtain ⟨id, inside, hsplit, hid, rfl⟩ := ofLocal?_eq_some_iff.mp h
  obtain ⟨hopen, htrim⟩ := splitCall_head hsplit
  have hhead := splitCall_of_not_mem hopen htrim
  simp only [key, hasReadableKey, String.toList_append, String.toList_ofList]
  rw [ofTrimmed?_local]
  cases hclose : id.contains ')' with
  | true =>
    rw [hclose, if_pos rfl] at hhead
    rw [ofLocal?, hhead]
    rfl
  | false =>
    rw [hclose, if_neg Bool.false_ne_true] at hhead
    exact ofLocal?_eq_some_iff.mpr ⟨id, none, hhead, hid, rfl⟩

/-- The key of a simulated variable is the same name. -/
theorem ofTrimmed?_key_of_ofSimulated? {rest : List Char} {name : VariableName}
    (h : ofSimulated? rest = some name) :
    ofTrimmed? name.key.toList =
      if name.hasReadableKey then some name.withoutInitializer else none := by
  obtain ⟨function, inside, hsplit, hfunction, rfl⟩ := ofSimulated?_eq_some_iff.mp h
  obtain ⟨hopen, htrim⟩ := splitCall_head hsplit
  cases inside with
  | none =>
    have hhead := splitCall_of_not_mem hopen htrim
    rw [not_contains_of_splitCall hsplit, if_neg Bool.false_ne_true] at hhead
    simp only [key, Option.map_none, String.toList_append, String.toList_ofList]
    rw [ofTrimmed?_simulated]
    exact ofSimulated?_eq_some_iff.mpr ⟨function, none, hhead, hfunction, rfl⟩
  | some inside =>
    have hshape : simulatedScheme.toList ++ function ++ "(".toList ++
        (Text.joined "," (splitArguments inside)).toList ++ ")".toList =
        simulatedScheme.toList ++ (function ++
          '(' :: ((Text.joined "," (splitArguments inside)).toList ++ [')'])) := by
      simp
    have hcall := splitCall_call hopen htrim (Text.joined "," (splitArguments inside)).toList
    simp only [key, Option.map_some, String.toList_append, String.toList_ofList]
    rw [hshape, ofTrimmed?_simulated]
    refine ofSimulated?_eq_some_iff.mpr ⟨function, _, hcall, hfunction, ?_⟩
    rw [Option.map_some, splitArguments_joined]
    rfl

/-- A key read again is the name without its initializer, or it is refused. -/
theorem ofTrimmed?_key {cs : List Char} {name : VariableName} (h : ofTrimmed? cs = some name) :
    ofTrimmed? name.key.toList =
      if name.hasReadableKey then some name.withoutInitializer else none := by
  rcases ofTrimmed?_cases h with
    ⟨expression, -, hblank, rfl⟩ | ⟨rest, -, hlocal⟩ | ⟨rest, -, hsimulated⟩ | ⟨-, rfl⟩
  · simp only [key, String.toList_append, String.toList_ofList]
    exact ofTrimmed?_formula hblank
  · exact ofTrimmed?_key_of_ofLocal? hlocal
  · exact ofTrimmed?_key_of_ofSimulated? hsimulated
  · rfl

/-- What a text spells depends on its trimmed characters only. -/
theorem parse_eq_ok_iff {raw : String} {name : VariableName} :
    parse raw = .ok name ↔ ofTrimmed? (Text.trimmed raw.toList) = some name := by
  unfold parse
  cases ofTrimmed? (Text.trimmed raw.toList) <;> simp

/-- Whether a text is the key of a name. -/
def IsKey (text : String) : Prop := ∃ raw name, parse raw = .ok name ∧ name.key = text

/-- A spelling that is itself a key, blanks around it apart, has that key. -/
theorem IsKey.key_eq {text raw : String} {name : VariableName} (h : IsKey text)
    (htrim : Text.trim raw = text) (hparse : parse raw = .ok name) : name.key = text := by
  obtain ⟨first, origin, horigin, rfl⟩ := h
  have hagain : ofTrimmed? origin.key.toList = some name := by
    rw [← htrim, Text.toList_trim]
    exact parse_eq_ok_iff.mp hparse
  rw [ofTrimmed?_key (parse_eq_ok_iff.mp horigin)] at hagain
  split at hagain
  · rw [← Option.some.inj hagain, key_withoutInitializer]
  · cases hagain

/-- The key of what trimmed characters spell is trimmed. -/
theorem trimmed_key {cs : List Char} {name : VariableName} (htrim : Text.trimmed cs = cs)
    (h : ofTrimmed? cs = some name) : Text.trimmed name.key.toList = name.key.toList := by
  rcases ofTrimmed?_cases h with
    ⟨expression, rfl, -, rfl⟩ | ⟨rest, -, hlocal⟩ | ⟨rest, -, hsimulated⟩ | ⟨-, rfl⟩
  · simp only [key, String.toList_append, String.toList_ofList]
    exact htrim
  · obtain ⟨id, inside, hsplit, hid, rfl⟩ := ofLocal?_eq_some_iff.mp hlocal
    simp only [key, String.toList_append, String.toList_ofList]
    exact Text.trimmed_append (by decide) hid
      (Text.rdropWhile_of_trimmed (splitCall_head hsplit).2)
  · obtain ⟨function, inside, hsplit, hfunction, rfl⟩ := ofSimulated?_eq_some_iff.mp hsimulated
    cases inside with
    | none =>
      simp only [key, Option.map_none, String.toList_append, String.toList_ofList]
      exact Text.trimmed_append (by decide) hfunction
        (Text.rdropWhile_of_trimmed (splitCall_head hsplit).2)
    | some inside =>
      simp only [key, Option.map_some, String.toList_append]
      exact Text.trimmed_append (by decide) (by decide) (by decide)
  · decide

/-- A key has no blanks around it. -/
theorem IsKey.trim_eq {text : String} (h : IsKey text) : Text.trim text = text := by
  obtain ⟨raw, name, hparse, rfl⟩ := h
  have hkey := trimmed_key (Text.trimmed_trimmed raw.toList) (parse_eq_ok_iff.mp hparse)
  rw [Text.trim, hkey, String.ofList_toList]

/-- The spelling of a formula is its key, blanks around it apart. -/
theorem trim_eq_key_of_formula {raw expression : String}
    (h : parse raw = .ok (.formula expression)) : Text.trim raw = "=" ++ expression := by
  rcases ofTrimmed?_cases (parse_eq_ok_iff.mp h) with
    ⟨tail, hspelled, -, hname⟩ | ⟨rest, -, hlocal⟩ | ⟨rest, -, hsimulated⟩ | ⟨-, hname⟩
  · rw [← formula.inj hname, Text.trim, hspelled, ← List.singleton_append, String.ofList_append]
  · obtain ⟨id, inside, -, -, hname⟩ := ofLocal?_eq_some_iff.mp hlocal
    cases hname
  · obtain ⟨function, inside, -, -, hname⟩ := ofSimulated?_eq_some_iff.mp hsimulated
    cases hname
  · cases hname

end VariableName

end ProcessDisplay
