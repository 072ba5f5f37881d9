import ProcessDisplay.Proofs.WrittenNumbers

/-!
# Numbers written without an exponent

The positional form writes a whole number in digits alone and any other
finite number with a point, a sign first where there is one. The reader takes
each of these texts, the infinities and NaN for the number that was written.
None of them holds a character that separates or encloses numbers.
-/

namespace ProcessDisplay.Decimal

open Document.Toml (AreDigits)

/-- The characters besides digits that stand in a number. -/
def numeralMarks : List Char := ['-', '.', 'N', 'a', 'i', 'n', 'f']

/-- Characters of a number. -/
def IsNumeric (cs : List Char) : Prop := ∀ c ∈ cs, c.isDigit = true ∨ c ∈ numeralMarks

/-- A digit is no blank. -/
theorem isBlank_of_isDigit {c : Char} (h : c.isDigit = true) : Text.isBlank c = false := by
  have hrange : 48 ≤ c.toNat ∧ c.toNat ≤ 57 := by
    simp only [Char.isDigit, Bool.and_eq_true, decide_eq_true_eq] at h
    exact h
  unfold Text.isBlank
  dsimp only
  simp only [Bool.or_eq_false_iff, Bool.and_eq_false_iff, decide_eq_false_iff_not,
    beq_eq_false_iff_ne]
  omega

/-- A character of a number neither is blank nor separates numbers. -/
theorem IsNumeric.plain {cs : List Char} (h : IsNumeric cs) {c : Char} (hc : c ∈ cs) :
    Text.isBlank c = false ∧ c ≠ ',' := by
  have hmarks : numeralMarks.all (fun c => !Text.isBlank c && c != ',') = true := by decide
  rcases h c hc with hdigit | hmark
  · exact ⟨isBlank_of_isDigit hdigit, Document.Toml.ne_of_isDigit hdigit rfl⟩
  · simpa using List.all_eq_true.mp hmarks c hmark

/-- Characters without a sign that are read as a magnitude. -/
structure Magnitude (cs : List Char) (y : Float) : Prop where
  /-- These are the characters of a number. -/
  numeric : IsNumeric cs
  /-- No sign comes first. -/
  first : cs.head?.all (fun c => c ≠ '+' ∧ c ≠ '-') = true
  /-- There are characters. -/
  ne_nil : cs ≠ []
  /-- The magnitude is read. -/
  reads : unsigned? cs = some y

namespace Magnitude

variable {cs : List Char} {y : Float}

/-- A magnitude with its sign is read as the number. -/
theorem number? (h : Magnitude cs y) (negative : Bool) :
    number? (if negative then '-' :: cs else cs) = some (if negative then -y else y) := by
  cases negative with
  | true =>
    rw [if_pos rfl, if_pos rfl]
    exact congrArg (Option.map fun x => -x) h.reads
  | false =>
    have hfirst := h.first
    unfold Decimal.number?
    rw [if_neg Bool.false_ne_true, if_neg Bool.false_ne_true]
    split
    · simp at hfirst
    · simp at hfirst
    · exact h.reads

/-- A magnitude with its sign consists of characters of a number. -/
theorem isNumeric (h : Magnitude cs y) (negative : Bool) :
    IsNumeric (if negative then '-' :: cs else cs) := by
  cases negative with
  | true => exact List.forall_mem_cons.mpr ⟨.inr (by decide), h.numeric⟩
  | false => exact h.numeric

/-- Digits alone are read as a whole number. -/
theorem of_areDigits (h : AreDigits cs) (hsome : cs ≠ []) :
    Magnitude cs (nearestFloat (digitsValue cs) 0) := by
  obtain ⟨c, more, rfl⟩ := List.exists_cons_of_ne_nil hsome
  have hc : c.isDigit = true := h c List.mem_cons_self
  have hword : ∀ w : List Char, w.head?.any Char.isDigit = false →
      (c :: more).map Char.toLower ≠ w := by
    rintro w hw rfl
    simp [Document.Toml.toLower_of_isDigit hc, hc] at hw
  have htake : (c :: more).takeWhile Char.isDigit = c :: more :=
    List.takeWhile_eq_self_iff.mpr h
  have hdrop : (c :: more).dropWhile Char.isDigit = [] := List.dropWhile_eq_nil_iff.mpr h
  refine ⟨fun d hd => .inl (h d hd), ?_, hsome, ?_⟩
  · simp [Document.Toml.ne_of_isDigit hc (d := '+') rfl,
      Document.Toml.ne_of_isDigit hc (d := '-') rfl]
  · unfold unsigned?
    simp only [hword "inf".toList rfl, hword "infinity".toList rfl, hword "nan".toList rfl, htake,
      hdrop, decide_false, Bool.or_self, if_false, Bool.false_eq_true]
    simp [exponentPart]

/-- Digits around a point are read as their number. -/
theorem of_pointed (p : Document.Toml.Pointed) : Magnitude p.text p.float := by
  obtain ⟨c, more, htext, hc⟩ := p.exists_first
  refine ⟨?_, ?_, by simp [htext], p.unsigned?_text⟩
  · intro d hd
    rcases List.mem_append.mp hd with hd | hd
    · exact .inl (p.areDigits_whole d hd)
    · rcases List.mem_cons.mp hd with rfl | hd
      · exact .inr (by decide)
      · exact .inl (p.areDigits_fraction d hd)
  · simp [htext, Document.Toml.ne_of_isDigit hc (d := '+') rfl,
      Document.Toml.ne_of_isDigit hc (d := '-') rfl]

/-- The word for the infinite magnitude. -/
theorem infinity : Magnitude ['i', 'n', 'f'] (1.0 / 0.0) :=
  ⟨fun _ hc => .inr ((by decide : ['i', 'n', 'f'] ⊆ numeralMarks) hc), rfl, by decide, rfl⟩

/-- Digits in their places are read as a number in the interval that they were
chosen for. -/
theorem of_positional {x : Binary} (hx : x.Proper) :
    Magnitude x.shortest.positional (x.toFloat hx) := by
  have hholds := holds_shortest hx
  have hsome := digits_shortest_ne_zero hx
  generalize x.shortest = d at *
  by_cases hge : d.exponent ≥ 0
  · obtain ⟨k, hk⟩ := Int.eq_ofNat_of_zero_le hge
    have htext : d.positional = naturalText d.digits ++ zeros k := by
      rw [Digits.positional, if_pos hge, hk]
      rfl
    have hdigits : AreDigits (naturalText d.digits ++ zeros k) :=
      (Document.Toml.areDigits_naturalText _).append (Document.Toml.areDigits_zeros k)
    have hvalue : d.value = digitsValue (naturalText d.digits ++ zeros k) * 10 ^ (0 : Int) := by
      rw [Document.Toml.digitsValue_append, Document.Toml.digitsValue_zeros,
        Document.Toml.digitsValue_naturalText, Digits.value, hk, zeros, List.length_replicate]
      simp
    rw [hvalue] at hholds
    rw [htext, ← nearestFloat_eq hx hholds]
    exact of_areDigits hdigits (by simp [naturalText, Nat.toDigits_ne_nil])
  · obtain ⟨p, htext, hvalue⟩ := Document.Toml.exists_positional hsome
    have hwhole : d.isWhole = false := decide_eq_false hge
    rw [hwhole, if_neg Bool.false_ne_true, List.append_nil] at htext
    rw [← hvalue] at hholds
    rw [htext, ← nearestFloat_eq hx hholds]
    exact of_pointed p

end Magnitude

/-- A finite number is written as its magnitude. -/
theorem exists_plainMagnitude {x : Float}
    (hlt : Trace.magnitude x.toBits < Trace.infinite) :
    ∃ y, Magnitude (Layout.plain.magnitude (.ofFloat x)) y ∧
      y.toBits.toNat = Trace.magnitude x.toBits := by
  unfold Layout.magnitude
  by_cases hpos : Trace.magnitude x.toBits = 0
  · have hzero : (Binary.ofFloat x).mantissa = 0 := by
      rw [(ofFloat_parts x).1, hpos]
      rfl
    refine ⟨0.0, ?_, ?_⟩
    · rw [if_pos hzero]
      exact Magnitude.of_areDigits (Document.Toml.areDigits_zeros 1) (by decide)
    · rw [Trace.toBits_zeros.1, hpos]
      rfl
  · have hproper := proper_ofFloat hpos hlt
    have hplain : ∀ n, Layout.plain.isPlain n = true := fun _ => rfl
    have hpoint : ∀ b, (Layout.plain.wholePoint && b) = false := fun _ => rfl
    refine ⟨_, ?_, toNat_toBits_toFloat hpos hlt⟩
    dsimp only
    rw [if_neg hproper.pos.ne', if_pos (hplain _), hpoint, if_neg Bool.false_ne_true,
      List.append_nil]
    exact Magnitude.of_positional hproper

/-- Every number but NaN is written as its magnitude behind its sign. -/
theorem exists_magnitude {x : Float} (h : x.isNaN = false) :
    ∃ cs y, Magnitude cs y ∧ y.toBits.toNat = Trace.magnitude x.toBits ∧
      Layout.plain.render x = if signBit x then '-' :: cs else cs := by
  have hle : Trace.magnitude x.toBits ≤ Trace.infinite := by
    rw [Trace.isNaN_eq, Trace.isNaNPattern, decide_eq_false_iff_not] at h
    exact Nat.le_of_not_lt h
  unfold Layout.render
  rw [h, if_neg Bool.false_ne_true]
  dsimp only
  by_cases hinfinite : x.isInf = true
  · rw [if_pos hinfinite]
    exact ⟨_, _, .infinity, toBits_infinity.trans ((isInf_iff x).mp hinfinite).symm, rfl⟩
  · have hlt := Nat.lt_of_le_of_ne hle (mt (isInf_iff x).mpr hinfinite)
    obtain ⟨y, hmagnitude, hbits⟩ := exists_plainMagnitude hlt
    rw [if_neg hinfinite]
    exact ⟨_, y, hmagnitude, hbits, rfl⟩

/-- The positional form of any number is read as this number. -/
theorem number?_render (x : Float) : number? (Layout.plain.render x) = some x := by
  cases h : x.isNaN with
  | true =>
    have hnan : (0.0 / 0.0 : Float).isNaN = true := rfl
    have hrender : Layout.plain.render x = ['N', 'a', 'N'] := by
      rw [Layout.render, h, if_pos rfl]
    rw [hrender, Trace.eq_of_isNaN h hnan]
    rfl
  | false =>
    have hle : Trace.magnitude x.toBits ≤ Trace.infinite := by
      rw [Trace.isNaN_eq, Trace.isNaNPattern, decide_eq_false_iff_not] at h
      exact Nat.le_of_not_lt h
    obtain ⟨cs, y, hmagnitude, hbits, hrender⟩ := exists_magnitude h
    rw [hrender, hmagnitude.number?, signed_eq hbits hle]

/-- The positional form of any number consists of characters of a number. -/
theorem isNumeric_render (x : Float) : IsNumeric (Layout.plain.render x) := by
  cases h : x.isNaN with
  | true =>
    rw [Layout.render, h, if_pos rfl]
    exact fun _ hc => .inr ((by decide : ['N', 'a', 'N'] ⊆ numeralMarks) hc)
  | false =>
    obtain ⟨cs, y, hmagnitude, -, hrender⟩ := exists_magnitude h
    rw [hrender]
    exact hmagnitude.isNumeric _

/-- The positional form of any number is not empty. -/
theorem render_ne_nil (x : Float) : Layout.plain.render x ≠ [] := by
  intro hnil
  have hnone : number? [] = none := rfl
  have hreads := number?_render x
  rw [hnil, hnone] at hreads
  cases hreads

end ProcessDisplay.Decimal
