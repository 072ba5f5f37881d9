import Mathlib.Order.Bounds.Basic
import ProcessDisplay.Proofs.Identifiers
import ProcessDisplay.Proofs.NameKeys

/-!
# Scanning for accessors

The scanner of rules knows exactly the accessors among the identifiers of a
text. What it gathers from texts is told by the accessors that it meets there:
their views and the greatest of their positions. So neither the order of the
texts nor the number of times that they are scanned matters, and a text may be
cut wherever a character continues no identifier.
-/

namespace ProcessDisplay.Rule

/-- A word is an accessor of a view of an input: the stem of the view and decimal
digits of a value that can be counted. Leading zeros are allowed. -/
def IsAccessor (word : List Char) (view : View) (index : Nat) : Prop :=
  ∃ digits, word = view.stem.toList ++ digits ∧ digits ≠ [] ∧ (∀ c ∈ digits, c.isDigit = true) ∧
    Decimal.digitsValue digits = index ∧ index < positionBound

/-- The position that digits spell, if it can be counted. -/
def positionOf? (view : View) (digits : List Char) : Option (View × Nat) :=
  if digits.isEmpty || !digits.all Char.isDigit then none
  else if Decimal.digitsValue digits < positionBound then some (view, Decimal.digitsValue digits)
  else none

/-- A position is spelled by digits whose value can be counted. -/
theorem positionOf?_eq_some_iff {view view' : View} {digits : List Char} {index : Nat} :
    positionOf? view digits = some (view', index) ↔ view = view' ∧ digits ≠ [] ∧
      (∀ c ∈ digits, c.isDigit = true) ∧ Decimal.digitsValue digits = index ∧
      index < positionBound := by
  unfold positionOf?
  simp only [Option.ite_none_left_eq_some, Option.ite_none_right_eq_some, Option.some.injEq,
    Prod.mk.injEq, Bool.or_eq_true, List.isEmpty_iff, Bool.not_eq_true', not_or,
    Bool.not_eq_false, List.all_eq_true]
  constructor
  · rintro ⟨⟨hsome, hall⟩, hbound, rfl, rfl⟩
    exact ⟨rfl, hsome, hall, rfl, hbound⟩
  · rintro ⟨rfl, hsome, hall, rfl, hbound⟩
    exact ⟨⟨hsome, hall⟩, hbound, rfl, rfl⟩

/-- What the stem of a view has besides the common one. -/
def View.suffix : View → List Char
  | numeric => []
  | integer => "Int".toList
  | text => "Str".toList
  | severity => "Sev".toList

/-- The stems begin with the common one. -/
theorem View.toList_stem (view : View) : view.stem.toList = "pv".toList ++ view.suffix := by
  cases view <;> decide

/-- The view that the characters after the common stem belong to, and what follows. -/
def viewOf (rest : List Char) : View × List Char :=
  match Text.after? "Int".toList rest, Text.after? "Str".toList rest,
    Text.after? "Sev".toList rest with
  | some digits, _, _ => (View.integer, digits)
  | none, some digits, _ => (View.text, digits)
  | none, none, some digits => (View.severity, digits)
  | none, none, none => (View.numeric, rest)

/-- The view of an accessor is told by its beginning and the position by the rest. -/
theorem accessor?_eq (word : List Char) : accessor? word =
    (Text.after? "pv".toList word).bind fun rest =>
      positionOf? (viewOf rest).1 (viewOf rest).2 := by
  rfl

/-- The characters are divided at the end of a stem. -/
theorem suffix_append_viewOf (rest : List Char) :
    (viewOf rest).1.suffix ++ (viewOf rest).2 = rest := by
  unfold viewOf
  split
  · next digits hint => exact (Text.after?_eq_some_iff.mp hint).symm
  · next digits _ htext => exact (Text.after?_eq_some_iff.mp htext).symm
  · next digits _ _ hseverity => exact (Text.after?_eq_some_iff.mp hseverity).symm
  · rfl

/-- Before a digit they are divided at the end of the whole stem. -/
theorem viewOf_suffix_append (view : View) {first : Char} (digits : List Char)
    (hfirst : first.isDigit = true) :
    viewOf (view.suffix ++ first :: digits) = (view, first :: digits) := by
  have hnone : ∀ (c : Char) (word : List Char), c.isDigit = false →
      Text.after? (c :: word) (first :: digits) = none := by
    intro c word hc
    have hne : c ≠ first := by
      rintro rfl
      rw [hc] at hfirst
      cases hfirst
    rw [Text.after?, if_neg hne]
  cases view with
  | numeric =>
    have hint : Text.after? "Int".toList (first :: digits) = none := hnone 'I' _ rfl
    have htext : Text.after? "Str".toList (first :: digits) = none := hnone 'S' _ rfl
    have hseverity : Text.after? "Sev".toList (first :: digits) = none := hnone 'S' _ rfl
    rw [View.suffix, List.nil_append, viewOf, hint, htext, hseverity]
  | integer => rfl
  | text => rfl
  | severity => rfl

/-- Exactly the accessors are known as such. -/
theorem accessor?_eq_some_iff {word : List Char} {view : View} {index : Nat} :
    accessor? word = some (view, index) ↔ IsAccessor word view index := by
  rw [accessor?_eq, Option.bind_eq_some_iff]
  constructor
  · rintro ⟨rest, hrest, hposition⟩
    obtain ⟨rfl, hspelled⟩ := positionOf?_eq_some_iff.mp hposition
    refine ⟨(viewOf rest).2, ?_, hspelled⟩
    rw [Text.after?_eq_some_iff.mp hrest, View.toList_stem, List.append_assoc,
      suffix_append_viewOf]
  · rintro ⟨digits, rfl, hsome, hdigits, hposition⟩
    obtain ⟨first, more, rfl⟩ := List.exists_cons_of_ne_nil hsome
    have hview := viewOf_suffix_append view more (List.forall_mem_cons.mp hdigits).1
    refine ⟨view.suffix ++ first :: more, ?_, ?_⟩
    · rw [Text.after?_eq_some_iff, View.toList_stem, List.append_assoc]
    · rw [hview]
      exact positionOf?_eq_some_iff.mpr ⟨rfl, hsome, hdigits, hposition⟩

/-- A text addresses a view of an input: the accessor is one of its identifiers. -/
def Addresses (source : String) (view : View) (index : Nat) : Prop :=
  ∃ word, Occurs word source.toList ∧ IsAccessor word view index

namespace Accessors

/-- A position is none beyond the greatest one. -/
def Reaches (a : Accessors) (index : Nat) : Prop :=
  ∃ greatest, a.greatest = some greatest ∧ index ≤ greatest

/-- What is known after accessors were met: their views and the greatest of their
positions, besides what was known before. -/
structure Gathers (a : Accessors) (met : View → Nat → Prop) (b : Accessors) : Prop where
  /-- A view is known if it was known or met. -/
  has_iff : ∀ view, b.has view = true ↔ a.has view = true ∨ ∃ index, met view index
  /-- A position is reached if it was reached or a position met is no lower. -/
  reaches_iff : ∀ n, b.Reaches n ↔ a.Reaches n ∨ ∃ view index, met view index ∧ n ≤ index

variable {a b c : Accessors} {met later : View → Nat → Prop}

/-- The greatest position is the greatest one that is reached. -/
theorem greatest_eq_some_iff {m : Nat} :
    a.greatest = some m ↔ IsGreatest {n | a.Reaches n} m := by
  constructor
  · intro h
    refine ⟨⟨m, h, Nat.le_refl m⟩, ?_⟩
    rintro n ⟨greatest, hgreatest, hn⟩
    obtain rfl := Option.some.inj (hgreatest.symm.trans h)
    exact hn
  · rintro ⟨⟨greatest, hgreatest, hm⟩, hupper⟩
    have hle : greatest ≤ m := hupper ⟨greatest, hgreatest, Nat.le_refl greatest⟩
    rw [hgreatest, Nat.le_antisymm hle hm]

/-- Nothing is known besides the views and the greatest position. -/
theorem eq_of_knows (hhas : ∀ view, a.has view = true ↔ b.has view = true)
    (hreaches : ∀ n, a.Reaches n ↔ b.Reaches n) : a = b := by
  have hview : ∀ view, a.has view = b.has view := fun view => Bool.eq_iff_iff.mpr (hhas view)
  have hgreatest : a.greatest = b.greatest := by
    have hsets : {n | a.Reaches n} = {n | b.Reaches n} := Set.ext hreaches
    ext m
    rw [greatest_eq_some_iff, greatest_eq_some_iff, hsets]
  cases a
  cases b
  rw [mk.injEq]
  exact ⟨hview .numeric, hview .integer, hview .text, hview .severity, hgreatest⟩

/-- What is gathered depends only on what is met. -/
theorem Gathers.unique (hb : a.Gathers met b) (hc : a.Gathers met c) : b = c :=
  eq_of_knows (fun view => (hb.has_iff view).trans (hc.has_iff view).symm)
    fun n => (hb.reaches_iff n).trans (hc.reaches_iff n).symm

/-- Where nothing is met, nothing is gathered. -/
theorem Gathers.refl (a : Accessors) : a.Gathers (fun _ _ => False) a where
  has_iff := by simp
  reaches_iff := by simp

/-- What is gathered after another is gathered from both. -/
theorem Gathers.trans (hb : a.Gathers met b) (hc : b.Gathers later c) :
    a.Gathers (fun view index => met view index ∨ later view index) c where
  has_iff view := by
    rw [hc.has_iff, hb.has_iff, or_assoc, ← exists_or]
  reaches_iff n := by
    rw [hc.reaches_iff, hb.reaches_iff, or_assoc]
    simp only [or_and_right, exists_or]

/-- What is gathered is told by what is met. -/
theorem Gathers.congr (hb : a.Gathers met b) (h : ∀ view index, met view index ↔ later view index) :
    a.Gathers later b := by
  have hsame : met = later := funext₂ fun view index => propext (h view index)
  rwa [← hsame]

/-- The greatest position is the greatest one that was known or met. -/
theorem Gathers.greatest_iff (hb : a.Gathers met b) (m : Nat) : b.greatest = some m ↔
    IsGreatest {index | a.greatest = some index ∨ ∃ view, met view index} m := by
  have hreached : ∀ n, b.Reaches n ↔
      ∃ index ∈ {index | a.greatest = some index ∨ ∃ view, met view index}, n ≤ index := by
    intro n
    rw [hb.reaches_iff]
    constructor
    · rintro (⟨index, hindex, hn⟩ | ⟨view, index, hmet, hn⟩)
      · exact ⟨index, .inl hindex, hn⟩
      · exact ⟨index, .inr ⟨view, hmet⟩, hn⟩
    · rintro ⟨index, hindex | ⟨view, hmet⟩, hn⟩
      · exact .inl ⟨index, hindex, hn⟩
      · exact .inr ⟨view, index, hmet, hn⟩
  rw [greatest_eq_some_iff]
  constructor
  · rintro ⟨hm, hupper⟩
    obtain ⟨index, hindex, hle⟩ := (hreached m).mp hm
    have hge : index ≤ m := hupper ((hreached index).mpr ⟨index, hindex, Nat.le_refl index⟩)
    obtain rfl := Nat.le_antisymm hge hle
    exact ⟨hindex, fun n hn => hupper ((hreached n).mpr ⟨n, hn, Nat.le_refl n⟩)⟩
  · rintro ⟨hm, hupper⟩
    refine ⟨(hreached m).mpr ⟨m, hm, Nat.le_refl m⟩, fun n hn => ?_⟩
    obtain ⟨index, hindex, hle⟩ := (hreached n).mp hn
    exact Nat.le_trans hle (hupper hindex)

/-- A mark adds one view. -/
theorem has_mark (a : Accessors) (added view : View) :
    (a.mark added).has view = (decide (view = added) || a.has view) := by
  cases added <;> cases view <;> rfl

/-- The greater of two positions reaches what either of them reaches. -/
theorem reaches_of_raise {position : Nat} (h : b.greatest = some (raise a.greatest position))
    (n : Nat) : b.Reaches n ↔ a.Reaches n ∨ n ≤ position := by
  unfold Reaches
  rw [h]
  cases a.greatest with
  | none => simp [raise]
  | some m => simp [raise]

/-- An identifier brings what it is the accessor of. -/
theorem gathers_record (a : Accessors) (word : List Char) :
    a.Gathers (IsAccessor word) (a.record word) := by
  unfold record
  cases hfound : accessor? word with
  | none =>
    refine (Gathers.refl a).congr fun view index => ?_
    rw [← accessor?_eq_some_iff, hfound]
    simp
  | some found =>
    obtain ⟨added, position⟩ := found
    have hmet : ∀ view index, IsAccessor word view index ↔ view = added ∧ index = position := by
      intro view index
      rw [← accessor?_eq_some_iff, hfound]
      constructor
      · intro h
        obtain ⟨rfl, rfl⟩ := Prod.mk.inj (Option.some.inj h)
        exact ⟨rfl, rfl⟩
      · rintro ⟨rfl, rfl⟩
        rfl
    constructor
    · intro view
      change (a.mark added).has view = true ↔ _
      rw [has_mark, Bool.or_eq_true, decide_eq_true_iff, or_comm]
      simp only [hmet, exists_and_left, exists_eq, and_true]
    · intro n
      refine (reaches_of_raise (a := a) rfl n).trans ?_
      simp [hmet]

/-- What each item brings is gathered from all of them. -/
theorem gathers_foldl {α : Type} {step : Accessors → α → Accessors}
    {brings : α → View → Nat → Prop}
    (hstep : ∀ (a : Accessors) (item : α), a.Gathers (brings item) (step a item))
    (a : Accessors) (items : List α) :
    a.Gathers (fun view index => ∃ item ∈ items, brings item view index)
      (items.foldl step a) := by
  induction items generalizing a with
  | nil => exact (Gathers.refl a).congr fun view index => by simp
  | cons first rest ih =>
    refine ((hstep a first).trans (ih (step a first))).congr fun view index => ?_
    simp

/-- A text brings the accessors that it addresses. -/
theorem gathers_scan (a : Accessors) (source : String) :
    a.Gathers (Addresses source) (a.scan source) := by
  refine (gathers_foldl gathers_record a (identifiers source.toList)).congr fun view index => ?_
  simp only [mem_identifiers_iff]
  rfl

/-- Texts bring the accessors that any of them addresses. -/
theorem gathers_scans (a : Accessors) (sources : List String) :
    a.Gathers (fun view index => ∃ source ∈ sources, Addresses source view index)
      (sources.foldl scan a) :=
  gathers_foldl gathers_scan a sources

/-- Neither the order nor the number of times that texts are scanned matters. -/
theorem foldl_scan_congr (a : Accessors) {sources others : List String}
    (h : ∀ source, source ∈ sources ↔ source ∈ others) :
    sources.foldl scan a = others.foldl scan a := by
  refine (gathers_scans a sources).unique ((gathers_scans a others).congr fun view index => ?_)
  simp only [h]

/-- A text is scanned as its parts are before and behind a character that
continues no identifier. -/
theorem scan_append (a : Accessors) (s t : String) {c : Char}
    (hc : continuesIdentifier c = false) :
    a.scan (s ++ String.singleton c ++ t) = (a.scan s).scan t := by
  have htext : (s ++ String.singleton c ++ t).toList = s.toList ++ c :: t.toList := by simp
  unfold scan
  rw [htext, identifiers, identifiersFrom_append hc, List.foldl_append]
  rfl

/-- Two texts are scanned in either order, or as one text with a character
between them that continues no identifier, and once is enough. A scan forgets no
view and lowers no position. After any texts, a view is known exactly if it was
known before or one of the texts addresses it, and the greatest position is the
greatest one that was known before or that one of the texts addresses. -/
theorem scans_gather (a : Accessors) (s t : String) (sources : List String) :
    (a.scan s).scan t = (a.scan t).scan s ∧
    (∀ c : Char, c.isAlpha = false → c.isDigit = false → c ≠ '_' →
      a.scan (s ++ String.singleton c ++ t) = (a.scan s).scan t) ∧
    (((a.scan s).scan t).scan s).scan t = (a.scan s).scan t ∧
    (∀ view, a.has view = true → (a.scan s).has view = true) ∧
    (∀ m, a.greatest = some m → ∃ n, (a.scan s).greatest = some n ∧ m ≤ n) ∧
    (∀ view, (sources.foldl scan a).has view = true ↔
      a.has view = true ∨ ∃ index, ∃ source ∈ sources, Addresses source view index) ∧
    ∀ m, (sources.foldl scan a).greatest = some m ↔
      IsGreatest {index | a.greatest = some index ∨
        ∃ view, ∃ source ∈ sources, Addresses source view index} m := by
  have hone : a.Gathers (Addresses s) (a.scan s) := gathers_scan a s
  have hall := gathers_scans a sources
  have hswapped : ∀ source, source ∈ [s, t] ↔ source ∈ [t, s] := by simp [or_comm]
  have hrepeated : ∀ source, source ∈ [s, t, s, t] ↔ source ∈ [s, t] := by
    intro source
    simp only [List.mem_cons, List.not_mem_nil, or_false]
    tauto
  refine ⟨?_, fun c halpha hdigit hline => scan_append a s t ?_, ?_, fun view hview => ?_,
    fun m hm => ?_, hall.has_iff, hall.greatest_iff⟩
  · exact foldl_scan_congr a hswapped
  · unfold continuesIdentifier Char.isAlphanum
    simp [halpha, hdigit, hline]
  · exact foldl_scan_congr a hrepeated
  · exact (hone.has_iff view).mpr (.inl hview)
  · exact (hone.reaches_iff m).mpr (.inl ⟨m, hm, Nat.le_refl m⟩)

/-- A sum of two accessors is scanned as its parts are, and adds their views and
the position three to the text and the position two that were known. -/
theorem scans_gather_sum :
    let a : Accessors := { text := true, greatest := some 2 }
    '+'.isAlpha = false ∧ '+'.isDigit = false ∧ '+' ≠ '_' ∧
      a.has .text = true ∧ a.greatest = some 2 ∧
      a.scan ("pv1" ++ String.singleton '+' ++ "pvSev3") = (a.scan "pv1").scan "pvSev3" ∧
      (a.scan "pv1").has .text = true ∧ (∃ n, (a.scan "pv1").greatest = some n ∧ 2 ≤ n) ∧
      (a.scan "pv1").scan "pvSev3" = ⟨true, false, true, true, some 3⟩ := by
  intro a
  obtain ⟨-, hcut, -, hviews, hpositions, -⟩ := scans_gather a "pv1" "pvSev3" []
  exact ⟨rfl, rfl, by decide, rfl, rfl, hcut '+' rfl rfl (by decide), hviews .text rfl,
    hpositions 2 rfl, by decide⟩

end Accessors

end ProcessDisplay.Rule
