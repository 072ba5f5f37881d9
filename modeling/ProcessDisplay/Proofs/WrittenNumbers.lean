import ProcessDisplay.Proofs.DocumentLines
import ProcessDisplay.Proofs.NameKeys
import ProcessDisplay.Proofs.NumberedNames
import ProcessDisplay.Proofs.ShortestDigits

/-!
# Written numbers are read back

A number is written as a whole part and a fraction in decimal digits, whose
value lies in the interval of the number. Such a text is neither a date nor a
whole number, and its digits are read as the number that they were chosen for.
-/

namespace ProcessDisplay.Document.Toml

open Decimal (Digits digitsValue naturalText nearestFloat zeros)

section Digits

variable {cs ds : List Char} {c : Char} {n : Nat}

/-- Characters that are all digits. -/
def AreDigits (cs : List Char) : Prop := ∀ c ∈ cs, c.isDigit = true

/-- Digits behind others. -/
theorem AreDigits.append (hcs : AreDigits cs) (hds : AreDigits ds) : AreDigits (cs ++ ds) :=
  List.forall_mem_append.mpr ⟨hcs, hds⟩

/-- Zeros are digits. -/
theorem areDigits_zeros (n : Nat) : AreDigits (zeros n) := by
  intro c hc
  rw [List.eq_of_mem_replicate hc]
  rfl

/-- A natural number is written in digits. -/
theorem areDigits_naturalText (n : Nat) : AreDigits (naturalText n) := fun _ =>
  Nat.isDigit_of_mem_toDigits (by decide) (by decide)

/-- The value of digits that are put together. -/
theorem digitsValue_append (cs ds : List Char) :
    digitsValue (cs ++ ds) = digitsValue cs * 10 ^ ds.length + digitsValue ds := by
  have happend := Nat.ofDigitChars_append (b := 10) (l := cs) (m := ds) 0
  have hstart := @Nat.ofDigitChars_eq_ofDigitChars_zero ds (Nat.ofDigitChars 10 cs 0)
  rw [Nat.mul_comm]
  exact happend.trans hstart

/-- Zeros have no value. -/
theorem digitsValue_zeros (n : Nat) : digitsValue (zeros n) = 0 :=
  @Nat.ofDigitChars_replicate_zero 10 0 n

/-- A written natural number has the value of its digits. -/
theorem digitsValue_naturalText (n : Nat) : digitsValue (naturalText n) = n :=
  Nat.ofDigitChars_ten_toDigits

/-- The first digit of a positive number is no zero. -/
theorem head?_naturalText (h : n ≠ 0) : (naturalText n).head? ≠ some '0' := by
  induction n using Nat.strongRecOn with
  | ind n ih =>
    unfold naturalText at *
    by_cases hlt : n < 10
    · rw [Nat.toDigits_of_lt_base hlt, List.head?_cons]
      interval_cases n
      · exact absurd rfl h
      all_goals decide
    · have hquotient := ih (n / 10) (by omega) (by omega)
      rw [Nat.toDigits_of_base_le (by decide) (by omega),
        List.head?_append_of_ne_nil _ Nat.toDigits_ne_nil]
      exact hquotient

end Digits

/-- A number with a point in decimal digits; no zero comes first but a single one. -/
structure Pointed where
  /-- The digits before the point. -/
  whole : List Char
  /-- The digits behind the point. -/
  fraction : List Char
  /-- There are digits before the point. -/
  whole_ne : whole ≠ []
  /-- There are digits behind the point. -/
  fraction_ne : fraction ≠ []
  /-- These are the digits of the number. -/
  areDigits : AreDigits (whole ++ fraction)
  /-- A zero before the point stands alone. -/
  first : whole.head? = some '0' → whole.length = 1

namespace Pointed

/-- The characters of a number. -/
def text (p : Pointed) : List Char := p.whole ++ '.' :: p.fraction

/-- All digits as one natural number. -/
def digits (p : Pointed) : Nat := digitsValue (p.whole ++ p.fraction)

/-- The rational number that is written. -/
def value (p : Pointed) : ℚ := p.digits * 10 ^ (-(p.fraction.length : Int))

/-- The number that the digits are read as. -/
def float (p : Pointed) : Float := nearestFloat p.digits (-(p.fraction.length : Int))

end Pointed

section Writing

section Places

variable {text : List Char} {k : Nat}

/-- Digits before the point, filled up with zeros. -/
theorem exists_filled (hdigits : AreDigits text) (hsome : text ≠ [])
    (hfirst : text.head? ≠ some '0') :
    ∃ p : Pointed, text ++ zeros k ++ ['.', '0'] = p.text ∧
      p.value = digitsValue text * 10 ^ (k : Int) := by
  have hall : AreDigits (text ++ zeros k ++ zeros 1) :=
    (hdigits.append (areDigits_zeros k)).append (areDigits_zeros 1)
  refine ⟨⟨text ++ zeros k, zeros 1, by simp [hsome], by simp [zeros], hall, ?_⟩, rfl, ?_⟩
  · rw [List.head?_append_of_ne_nil _ hsome]
    exact fun hzero => absurd hzero hfirst
  · have hlength : ∀ n, (zeros n).length = n := fun _ => List.length_replicate
    unfold Pointed.value Pointed.digits
    dsimp only
    rw [digitsValue_append, digitsValue_append, digitsValue_zeros, digitsValue_zeros, hlength,
      hlength, zpow_natCast]
    simp

/-- More digits than places: the point stands between two digits. -/
theorem exists_cut (hdigits : AreDigits text) (hfirst : text.head? ≠ some '0') (hk : 0 < k)
    (hlong : k < text.length) :
    ∃ p : Pointed,
      text.take (text.length - k) ++ '.' :: text.drop (text.length - k) = p.text ∧
      p.value = digitsValue text * 10 ^ (-(k : Int)) := by
  have hlength : (text.drop (text.length - k)).length = k := by
    rw [List.length_drop]
    omega
  have hwhole : text.take (text.length - k) ≠ [] := by
    rw [← List.length_pos_iff, List.length_take]
    omega
  have hfraction : text.drop (text.length - k) ≠ [] := by
    rw [← List.length_pos_iff, hlength]
    exact hk
  refine ⟨⟨_, _, hwhole, hfraction, ?_, ?_⟩, rfl, ?_⟩
  · rw [List.take_append_drop]
    exact hdigits
  · rw [List.head?_take, if_neg (by omega)]
    exact fun hzero => absurd hzero hfirst
  · unfold Pointed.value Pointed.digits
    dsimp only
    rw [List.take_append_drop, hlength]

/-- No more digits than places: a zero stands before the point. -/
theorem exists_below (hdigits : AreDigits text) (hsome : text ≠ []) (hshort : text.length ≤ k) :
    ∃ p : Pointed, '0' :: '.' :: (zeros (k - text.length) ++ text) = p.text ∧
      p.value = digitsValue text * 10 ^ (-(k : Int)) := by
  have hall : AreDigits (zeros 1 ++ (zeros (k - text.length) ++ text)) :=
    (areDigits_zeros 1).append ((areDigits_zeros _).append hdigits)
  refine ⟨⟨zeros 1, zeros (k - text.length) ++ text, by simp [zeros], by simp [hsome], hall,
    fun _ => rfl⟩, rfl, ?_⟩
  have hlength : (zeros (k - text.length) ++ text).length = k := by
    rw [List.length_append, zeros, List.length_replicate]
    omega
  unfold Pointed.value Pointed.digits
  dsimp only
  rw [hlength, digitsValue_append, digitsValue_append, digitsValue_zeros, digitsValue_zeros]
  simp

end Places

variable {d : Digits}

/-- Digits in their places, of which at least one stands behind the point. -/
theorem exists_positional (h : d.digits ≠ 0) :
    ∃ p : Pointed, d.positional ++ (if d.isWhole then ['.', '0'] else []) = p.text ∧
      p.value = d.value := by
  have hdigits := areDigits_naturalText d.digits
  have hfirst := head?_naturalText h
  have hvalue := digitsValue_naturalText d.digits
  have hsome : naturalText d.digits ≠ [] := Nat.toDigits_ne_nil
  unfold Digits.positional Digits.isWhole Digits.value
  generalize naturalText d.digits = text at *
  by_cases hge : d.exponent ≥ 0
  · obtain ⟨k, hk⟩ := Int.eq_ofNat_of_zero_le hge
    rw [decide_eq_true hge, if_pos hge, if_pos rfl, hk, Int.toNat_natCast, ← hvalue]
    exact exists_filled hdigits hsome hfirst
  · obtain ⟨k, hk⟩ := Int.eq_ofNat_of_zero_le (a := -d.exponent) (by omega)
    have hexponent : d.exponent = -(k : Int) := by omega
    rw [decide_eq_false hge, if_neg hge, if_neg Bool.false_ne_true, List.append_nil, hk,
      Int.toNat_natCast, hexponent, ← hvalue]
    dsimp only
    by_cases hlong : text.length > k
    · rw [if_pos hlong]
      exact exists_cut hdigits hfirst (by omega) hlong
    · rw [if_neg hlong]
      exact exists_below hdigits hsome (Nat.le_of_not_lt hlong)

/-- A finite number is written with a point, and its digits are read as its magnitude. -/
theorem exists_magnitude {x : Float}
    (hlt : Trace.magnitude x.toBits < Trace.infinite) :
    ∃ p : Pointed, Decimal.Layout.pointed.magnitude (.ofFloat x) = p.text ∧
      p.float.toBits.toNat = Trace.magnitude x.toBits := by
  unfold Decimal.Layout.magnitude
  by_cases hpos : Trace.magnitude x.toBits = 0
  · have hzero : (Decimal.Binary.ofFloat x).mantissa = 0 := by
      rw [(Decimal.ofFloat_parts x).1, hpos]
      rfl
    refine ⟨⟨['0'], ['0'], by simp, by simp, areDigits_zeros 2, fun _ => rfl⟩, ?_, ?_⟩
    · rw [if_pos hzero]
      rfl
    · change (0.0 : Float).toBits.toNat = _
      rw [Trace.toBits_zeros.1, hpos]
      rfl
  · have hproper := Decimal.proper_ofFloat hpos hlt
    have hholds := Decimal.holds_shortest hproper
    obtain ⟨p, htext, hvalue⟩ := exists_positional (Decimal.digits_shortest_ne_zero hproper)
    have hplain : ∀ n, Decimal.Layout.pointed.isPlain n = true := fun _ => rfl
    have hpoint : ∀ b, (Decimal.Layout.pointed.wholePoint && b) = b := fun _ => rfl
    refine ⟨p, ?_, ?_⟩
    · dsimp only
      rw [if_neg hproper.pos.ne', if_pos (hplain _), hpoint, htext]
    · rw [← hvalue] at hholds
      rw [Pointed.float, Decimal.nearestFloat_eq hproper hholds]
      exact Decimal.toNat_toBits_toFloat hpos hlt

end Writing

section Reading

variable {isDigit : Char → Bool} {cs : List Char} {c : Char}

/-- Digits without separators are themselves. -/
theorem separated?_eq (hsome : cs ≠ []) (h : ∀ c ∈ cs, isDigit c = true)
    (hplain : '_' ∉ cs) : separated? isDigit cs = some cs := by
  fun_induction separated? isDigit cs with
  | case1 => exact absurd rfl hsome
  | case2 => rfl
  | case3 c hc => exact absurd (h c List.mem_cons_self) hc
  | case4 => exact absurd (by simp) hplain
  | case5 => exact absurd (by simp) hplain
  | case6 c rest hrest _ _ ih =>
    rw [ih hrest (fun d hd => h d (List.mem_cons_of_mem _ hd))
      fun hd => hplain (List.mem_cons_of_mem _ hd)]
    rfl
  | case7 c rest _ _ hc => exact absurd (h c List.mem_cons_self) hc

/-- Nothing but digits and separators is read. -/
theorem separated?_eq_none (hmem : c ∈ cs) (hc : isDigit c = false) (hplain : c ≠ '_') :
    separated? isDigit cs = none := by
  fun_induction separated? isDigit cs with
  | case1 => rfl
  | case2 d hd =>
    rw [List.mem_singleton] at hmem
    exact absurd (hmem ▸ hd) (Bool.eq_false_iff.mp hc)
  | case3 => rfl
  | case4 d rest hd ih =>
    rcases List.mem_cons.mp hmem with rfl | hmem
    · exact absurd hd (Bool.eq_false_iff.mp hc)
    · rw [ih ((List.mem_cons.mp hmem).resolve_left hplain)]
      rfl
  | case5 => rfl
  | case6 d rest _ _ hd ih =>
    rcases List.mem_cons.mp hmem with rfl | hmem
    · exact absurd hd (Bool.eq_false_iff.mp hc)
    · rw [ih hmem]
      rfl
  | case7 => rfl

/-- A digit is no other character. -/
theorem ne_of_isDigit {d : Char} (hc : c.isDigit = true) (hd : d.isDigit = false) : c ≠ d := by
  rintro rfl
  exact Bool.false_ne_true (hd.symm.trans hc)

/-- Digits are digits without separators. -/
theorem AreDigits.separated? (h : AreDigits cs) (hsome : cs ≠ []) :
    separated? Char.isDigit cs = some cs :=
  separated?_eq hsome h fun hmem => ne_of_isDigit (h _ hmem) rfl rfl

/-- No sign stands before a digit. -/
theorem signed_of_isDigit (hc : c.isDigit = true) : signed (c :: cs) = (false, c :: cs) := by
  unfold signed
  split
  · next heq => exact absurd (List.cons.inj heq).1 (ne_of_isDigit hc rfl)
  · next heq => exact absurd (List.cons.inj heq).1 (ne_of_isDigit hc rfl)
  · rfl

/-- A digit is not changed. -/
theorem toLower_of_isDigit (hc : c.isDigit = true) : c.toLower = c := by
  have hsmall : ¬(c.val ≥ 'A'.val ∧ c.val ≤ 'Z'.val) := by
    rintro ⟨hge, -⟩
    have hle : c.val ≤ '9'.val := by
      simp only [Char.isDigit, Bool.and_eq_true, decide_eq_true_eq] at hc
      exact hc.2
    exact absurd (UInt32.le_trans hge hle) (by decide)
  unfold Char.toLower
  rw [dif_neg hsmall]

namespace Pointed

variable (p : Pointed)

/-- The characters before the point are digits. -/
theorem areDigits_whole : AreDigits p.whole := (List.forall_mem_append.mp p.areDigits).1

/-- The characters behind the point are digits. -/
theorem areDigits_fraction : AreDigits p.fraction := (List.forall_mem_append.mp p.areDigits).2

/-- A digit comes first. -/
theorem exists_first : ∃ c more, p.text = c :: more ∧ c.isDigit = true := by
  obtain ⟨c, more, hwhole⟩ := List.exists_cons_of_ne_nil p.whole_ne
  refine ⟨c, more ++ '.' :: p.fraction, ?_, p.areDigits_whole c (by simp [hwhole])⟩
  rw [text, hwhole, List.cons_append]

/-- No word begins with a digit. -/
theorem text_ne {w : List Char} (hw : w.head?.any Char.isDigit = false) : p.text ≠ w := by
  obtain ⟨c, more, htext, hc⟩ := p.exists_first
  rintro rfl
  rw [htext] at hw
  simp [hc] at hw

/-- The characters of a number up to its point. -/
theorem cut_text {q : Char → Bool} (hq : ∀ c, c.isDigit = true → q c = true)
    (hpoint : q '.' = false) :
    p.text.takeWhile q = p.whole ∧ p.text.dropWhile q = '.' :: p.fraction := by
  have hwhole : ∀ c ∈ p.whole, q c = true := fun c hc => hq c (p.areDigits_whole c hc)
  refine ⟨Text.takeWhile_append_of_stop hwhole hpoint, ?_⟩
  rw [text, List.dropWhile_append_of_pos hwhole, List.dropWhile_cons_of_neg (by simp [hpoint])]

/-- A number with a point is read from its digits. -/
theorem unsigned?_text : Decimal.unsigned? p.text = some p.float := by
  obtain ⟨c, more, htext, hc⟩ := p.exists_first
  have hword : ∀ w : List Char, w.head?.any Char.isDigit = false →
      p.text.map Char.toLower ≠ w := by
    rintro w hw rfl
    rw [htext] at hw
    simp [toLower_of_isDigit hc, hc] at hw
  obtain ⟨htake, hdrop⟩ := p.cut_text (fun _ h => h) rfl
  have hfraction : p.fraction.takeWhile Char.isDigit = p.fraction :=
    List.takeWhile_eq_self_iff.mpr p.areDigits_fraction
  have hrest : p.fraction.dropWhile Char.isDigit = [] :=
    List.dropWhile_eq_nil_iff.mpr p.areDigits_fraction
  have hsome : (p.whole.isEmpty && p.fraction.isEmpty) = false := by simp [p.whole_ne]
  unfold Decimal.unsigned?
  simp only [hword "inf".toList rfl, hword "infinity".toList rfl, hword "nan".toList rfl, htake,
    hdrop, hfraction, hrest, hsome, decide_false, Bool.or_self, if_false, Bool.false_eq_true,
    Decimal.exponentPart, Option.map_some, Int.zero_sub]
  rfl

/-- No sign stands before a number. -/
theorem number?_text : Decimal.number? p.text = some p.float := by
  obtain ⟨c, more, htext, hc⟩ := p.exists_first
  rw [← p.unsigned?_text, htext]
  unfold Decimal.number?
  split
  · next heq => exact absurd (List.cons.inj heq).1 (ne_of_isDigit hc rfl)
  · next heq => exact absurd (List.cons.inj heq).1 (ne_of_isDigit hc rfl)
  · rfl

/-- The digits before the point are the whole part. -/
theorem wholeDigits?_whole : wholeDigits? p.whole = some p.whole := by
  unfold wholeDigits?
  rw [p.areDigits_whole.separated? p.whole_ne, Option.bind_some, if_neg]
  rw [Bool.and_eq_true, decide_eq_true_iff, decide_eq_true_iff]
  rintro ⟨hzero, hlong⟩
  exact absurd (p.first hzero) hlong.ne'

/-- The point and the digits behind it are the rest. -/
theorem tail?_fraction : tail? ('.' :: p.fraction) = some ('.' :: p.fraction) := by
  have hmark : ∀ c ∈ '.' :: p.fraction, (!isExponentMark c) = true := by
    intro c hc
    rcases List.mem_cons.mp hc with rfl | hc
    · rfl
    · have hdigit := p.areDigits_fraction c hc
      simp [isExponentMark, ne_of_isDigit hdigit (d := 'e') rfl,
        ne_of_isDigit hdigit (d := 'E') rfl]
  unfold tail?
  simp only [List.takeWhile_eq_self_iff.mpr hmark, List.dropWhile_eq_nil_iff.mpr hmark,
    p.areDigits_fraction.separated? p.fraction_ne, Option.map_some, List.append_nil]
  rfl

/-- The characters of a number with its sign. -/
def signedText (negative : Bool) : List Char := if negative then '-' :: p.text else p.text

/-- There are characters. -/
theorem signedText_ne_nil (negative : Bool) : p.signedText negative ≠ [] := by
  cases negative <;> simp [signedText, text]

/-- A sign comes off a number. -/
theorem signed_signedText (negative : Bool) :
    signed (p.signedText negative) = (negative, p.text) := by
  obtain ⟨c, more, htext, hc⟩ := p.exists_first
  cases negative with
  | true => rfl
  | false =>
    rw [signedText, if_neg Bool.false_ne_true, htext]
    exact signed_of_isDigit hc

/-- A number with a point and a sign is read from its digits, unless it is too large. -/
theorem float?_signedText (negative : Bool) :
    float? (p.signedText negative) =
      if p.float.isInf && !negative then none
      else some (.number (if negative then -p.float else p.float)) := by
  obtain ⟨htake, hdrop⟩ := p.cut_text (q := fun c => c.isDigit || c = '_')
    (fun c hc => by rw [hc, Bool.true_or]) rfl
  unfold float?
  rw [signed_signedText]
  simp only [p.text_ne (w := "inf".toList) rfl, p.text_ne (w := "nan".toList) rfl, htake, hdrop,
    wholeDigits?_whole, tail?_fraction, if_false, Option.bind_eq_bind, Option.bind_some]
  rw [← text, number?_text]
  rfl

/-- A number with a point is no whole number. -/
theorem decimal?_signedText (negative : Bool) : decimal? (p.signedText negative) = none := by
  have hnone : wholeDigits? p.text = none := by
    unfold wholeDigits?
    rw [separated?_eq_none (c := '.') (by simp [text]) rfl (by decide)]
    rfl
  unfold decimal?
  rw [signed_signedText]
  simp [hnone]

end Pointed

end Reading

section Words

variable {cs rest : List Char}

/-- There is one more piece than there are separators. -/
theorem length_pieces (separator : Char) (cs : List Char) :
    (Text.pieces separator cs).length = cs.count separator + 1 := by
  induction cs with
  | nil => rfl
  | cons c rest ih =>
    unfold Text.pieces
    by_cases hc : c = separator
    · rw [if_pos hc, List.length_cons, ih, hc, List.count_cons_self]
    · rw [if_neg hc, List.count_cons_of_ne hc]
      split
      · next hnone => exact absurd hnone (Text.pieces_ne_nil separator rest)
      · next first others hsome =>
        rw [hsome] at ih
        exact ih

/-- A day has two hyphens. -/
theorem isDay_eq_false (h : cs.count '-' < 2) : isDay cs = false := by
  have hlength := length_pieces '-' cs
  unfold isDay
  split
  · next hpieces =>
    rw [hpieces] at hlength
    simp only [List.length_cons, List.length_nil] at hlength
    omega
  · rfl

/-- A time has colons. -/
theorem isTime_eq_false (h : ':' ∉ cs) : isTime cs = false := by
  have hnone : ':' ∉ cs.takeWhile (· ≠ '.') := fun hmem => h (List.takeWhile_subset _ hmem)
  unfold isTime
  dsimp only
  rw [Text.pieces_of_not_mem hnone]

/-- A date has two hyphens or a colon. -/
theorem isDate_eq_false (hday : cs.count '-' < 2) (htime : ':' ∉ cs) : isDate cs = false := by
  have hfront : (cs.take dayWidth).count '-' < 2 :=
    Nat.lt_of_le_of_lt ((List.take_sublist _ _).count_le _) hday
  unfold isDate
  rw [isDay_eq_false hday, isTime_eq_false htime, isDay_eq_false hfront]
  rfl

/-- Characters of a number in decimal digits: there is no other sign than a minus at most. -/
structure IsNumeral (cs : List Char) : Prop where
  /-- There are digits, points and minus signs. -/
  numeric : ∀ c ∈ cs, c.isDigit = true ∨ c = '.' ∨ c = '-'
  /-- There is at most one minus sign. -/
  sign : cs.count '-' < 2

/-- A character of a numeral is no other one. -/
theorem IsNumeral.ne {c d : Char} (h : IsNumeral cs) (hc : c ∈ cs) (hd : d.isDigit = false)
    (hpoint : d ≠ '.') (hminus : d ≠ '-') : c ≠ d := by
  rintro rfl
  rcases h.numeric c hc with hdigit | rfl | rfl
  · exact Bool.false_ne_true (hd.symm.trans hdigit)
  · exact hpoint rfl
  · exact hminus rfl

/-- A numeral is a whole number or another one. -/
theorem IsNumeral.word? (h : IsNumeral cs) : word? cs = (decimal? cs).or (float? cs) := by
  have hnone : ∀ c, c.isDigit = false → c ≠ '.' → c ≠ '-' → c ∉ cs :=
    fun c hc hpoint hminus hmem => h.ne hmem hc hpoint hminus rfl
  have htrue : cs ≠ "true".toList := by
    rintro rfl
    exact hnone 't' rfl (by decide) (by decide) (by decide)
  have hfalse : cs ≠ "false".toList := by
    rintro rfl
    exact hnone 'f' rfl (by decide) (by decide) (by decide)
  have hdate := isDate_eq_false h.sign (hnone ':' rfl (by decide) (by decide))
  unfold Toml.word?
  rw [if_neg htrue, if_neg hfalse, hdate, if_neg Bool.false_ne_true]
  split
  · exact absurd (by simp) (hnone 'x' rfl (by decide) (by decide))
  · exact absurd (by simp) (hnone 'o' rfl (by decide) (by decide))
  · exact absurd (by simp) (hnone 'b' rfl (by decide) (by decide))
  · rfl

/-- A word on a line of its own. -/
theorem wordAt?_line (hplain : ∀ c ∈ cs, endsWord c = false) (hday : isDay cs = false)
    (rest : List Char) : wordAt? (cs ++ '\n' :: rest) = (word? cs).map (·, '\n' :: rest) := by
  have hstays : ∀ c ∈ cs, (!endsWord c) = true := fun c hc => by rw [hplain c hc]; rfl
  have htake : (cs ++ '\n' :: rest).takeWhile (fun c => !endsWord c) = cs :=
    Text.takeWhile_append_of_stop hstays rfl
  have hdrop : (cs ++ '\n' :: rest).dropWhile (fun c => !endsWord c) = '\n' :: rest := by
    rw [List.dropWhile_append_of_pos hstays]
    rfl
  unfold wordAt?
  simp only [htake, hdrop, hday, Bool.false_and, Bool.false_eq_true, if_false]

end Words

section Spelling

variable {cs : List Char} {node : Node}

/-- A word on a line of its own is the text of its value. -/
theorem spells_word {c : Char} {more : List Char} (hcs : cs = c :: more)
    (hfirst : isSpace c = false ∧ c ≠ '[' ∧ c ≠ '\x7b' ∧ c ≠ '"' ∧ c ≠ '\'')
    (hplain : ∀ c ∈ cs, endsWord c = false) (hday : isDay cs = false)
    (hword : word? cs = some node) : Spells cs node := by
  obtain ⟨hspace, hlist, htable, hdouble, hsingle⟩ := hfirst
  constructor
  · intro rest
    rw [hcs, List.cons_append, skipSpace, List.dropWhile_cons_of_neg (by simp [hspace])]
  · intro fuel rest
    have hline := wordAt?_line hplain hday rest
    rw [hword, Option.map_some] at hline
    rw [hcs, List.cons_append] at hline ⊢
    unfold value?
    split
    · next heq => exact absurd (List.cons.inj heq).1 hlist
    · next heq => exact absurd (List.cons.inj heq).1 htable
    · next heq =>
      cases heq
      rw [if_neg (by simp [hdouble, hsingle])]
      exact hline
    · next heq => cases heq

/-- A numeral on a line of its own is the text of its value. -/
theorem IsNumeral.spells (h : IsNumeral cs) (hsome : cs ≠ []) (hword : Toml.word? cs = some node) :
    Spells cs node := by
  obtain ⟨c, more, hcs⟩ := List.exists_cons_of_ne_nil hsome
  have hc : c ∈ cs := by simp [hcs]
  refine spells_word hcs ⟨?_, h.ne hc rfl (by decide) (by decide),
    h.ne hc rfl (by decide) (by decide), h.ne hc rfl (by decide) (by decide),
    h.ne hc rfl (by decide) (by decide)⟩ ?_ (isDay_eq_false h.sign) hword
  · unfold isSpace
    rw [Bool.or_eq_false_iff, decide_eq_false_iff_not, decide_eq_false_iff_not]
    exact ⟨h.ne hc rfl (by decide) (by decide), h.ne hc rfl (by decide) (by decide)⟩
  · intro d hd
    simp [endsWord, h.ne hd (d := ' ') rfl (by decide) (by decide),
      h.ne hd (d := '\t') rfl (by decide) (by decide),
      h.ne hd (d := '\n') rfl (by decide) (by decide),
      h.ne hd (d := '\r') rfl (by decide) (by decide),
      h.ne hd (d := ',') rfl (by decide) (by decide),
      h.ne hd (d := ']') rfl (by decide) (by decide),
      h.ne hd (d := '\x7d') rfl (by decide) (by decide),
      h.ne hd (d := '#') rfl (by decide) (by decide)]

/-- A natural number in range is read from its digits. -/
theorem decimal?_naturalText {n : Nat} (h : n < writtenBound) :
    decimal? (naturalText n) = some (.integer n) := by
  have hdigits := areDigits_naturalText n
  have hsome : naturalText n ≠ [] := Nat.toDigits_ne_nil
  have hwhole : wholeDigits? (naturalText n) = some (naturalText n) := by
    unfold wholeDigits?
    rw [hdigits.separated? hsome, Option.bind_some, if_neg]
    rw [Bool.and_eq_true, decide_eq_true_iff, decide_eq_true_iff]
    rintro ⟨hzero, hlong⟩
    by_cases hn : n = 0
    · subst hn
      exact absurd hlong (by decide)
    · exact head?_naturalText hn hzero
  have hsigned : signed (naturalText n) = (false, naturalText n) := by
    obtain ⟨c, more, hcs⟩ := List.exists_cons_of_ne_nil hsome
    rw [hcs]
    exact signed_of_isDigit (hdigits c (by simp [hcs]))
  have hbound : writtenBound = 9223372036854775808 := rfl
  have hrange : isWhole (n : Int) = true := by
    unfold isWhole Value.isInteger Value.leastInteger Value.greatestInteger
    rw [Bool.and_eq_true, decide_eq_true_iff, decide_eq_true_iff]
    omega
  unfold decimal?
  rw [hsigned]
  simp only [hwhole, Option.bind_eq_bind, Option.bind_some, digitsValue_naturalText,
    Bool.false_eq_true, if_false]
  rw [wholeNode?, if_pos hrange]

/-- A natural number in range is read back. -/
theorem spells_natural {n : Nat} (h : n < writtenBound) :
    Spells (toString n).toList (.integer n) := by
  have hdigits := areDigits_naturalText n
  have htext : (toString n).toList = naturalText n := by
    rw [Nat.toString_eq_ofList_toDigits, String.toList_ofList]
    rfl
  have hnumeral : IsNumeral (naturalText n) := by
    refine ⟨fun c hc => .inl (hdigits c hc), ?_⟩
    rw [List.count_eq_zero_of_not_mem fun hmem => ne_of_isDigit (hdigits _ hmem) rfl rfl]
    decide
  rw [htext]
  refine hnumeral.spells Nat.toDigits_ne_nil ?_
  rw [hnumeral.word?, decimal?_naturalText h]
  rfl

/-- A number with a point and a sign is a numeral. -/
theorem Pointed.isNumeral (p : Pointed) (negative : Bool) : IsNumeral (p.signedText negative) := by
  have htext : ∀ c ∈ p.text, c.isDigit = true ∨ c = '.' := by
    intro c hc
    rcases List.mem_append.mp hc with hc | hc
    · exact .inl (p.areDigits_whole c hc)
    · rcases List.mem_cons.mp hc with rfl | hc
      · exact .inr rfl
      · exact .inl (p.areDigits_fraction c hc)
  have hcount : p.text.count '-' = 0 := by
    refine List.count_eq_zero_of_not_mem fun hmem => ?_
    rcases htext _ hmem with hdigit | hpoint
    · exact absurd hdigit (by decide)
    · exact absurd hpoint (by decide)
  unfold signedText
  cases negative with
  | true =>
    refine ⟨fun c hc => ?_, ?_⟩
    · rcases List.mem_cons.mp hc with rfl | hc
      · exact .inr (.inr rfl)
      · exact (htext c hc).imp_right .inl
    · rw [if_pos rfl, List.count_cons_self, hcount]
      decide
  | false =>
    rw [if_neg Bool.false_ne_true]
    exact ⟨fun c hc => (htext c hc).imp_right .inl, by rw [hcount]; decide⟩

/-- The infinities are read back. -/
theorem spells_infinity (negative : Bool) :
    Spells (if negative then '-' :: ['i', 'n', 'f'] else ['i', 'n', 'f'])
      (.number (if negative then -(1.0 / 0.0) else 1.0 / 0.0)) := by
  cases negative with
  | true =>
    change Spells ['-', 'i', 'n', 'f'] (.number (-(1.0 / 0.0)))
    exact spells_word rfl (by decide) (by simp [endsWord]) (isDay_eq_false (by decide)) rfl
  | false =>
    change Spells ['i', 'n', 'f'] (.number (1.0 / 0.0))
    exact spells_word rfl (by decide) (by simp [endsWord]) (isDay_eq_false (by decide)) rfl

/-- A number that is one is read back, with its sign. -/
theorem spells_number {x : Float} (h : x.isNaN = false) :
    Spells (writtenNumber x).toList (.number x) := by
  have hle : Trace.magnitude x.toBits ≤ Trace.infinite := by
    rw [Trace.isNaN_eq, Trace.isNaNPattern, decide_eq_false_iff_not] at h
    exact Nat.le_of_not_lt h
  unfold writtenNumber Decimal.Layout.render
  rw [h, if_neg Bool.false_ne_true, if_neg Bool.false_ne_true, String.toList_ofList]
  dsimp only
  by_cases hinfinite : x.isInf = true
  · have hsigned := Decimal.signed_eq (Decimal.toBits_infinity.trans
      ((Decimal.isInf_iff x).mp hinfinite).symm) hle
    have hspells := spells_infinity (Decimal.signBit x)
    rw [hsigned] at hspells
    rw [hinfinite, if_pos rfl]
    exact hspells
  · have hlt := Nat.lt_of_le_of_ne hle (mt (Decimal.isInf_iff x).mpr hinfinite)
    obtain ⟨p, htext, hbits⟩ := exists_magnitude hlt
    have hfinite : p.float.isInf = false := by
      rw [Bool.eq_false_iff, ne_eq, Decimal.isInf_iff, Trace.magnitude, hbits,
        Nat.mod_eq_of_lt (Trace.magnitude_lt _)]
      exact hlt.ne
    have hword : word? (p.signedText (Decimal.signBit x)) = some (.number x) := by
      rw [(p.isNumeral _).word?, p.decimal?_signedText, p.float?_signedText, hfinite,
        Decimal.signed_eq hbits hle]
      rfl
    have hspells := (p.isNumeral (Decimal.signBit x)).spells (p.signedText_ne_nil _) hword
    rw [if_neg hinfinite, htext]
    exact hspells

end Spelling

end ProcessDisplay.Document.Toml
