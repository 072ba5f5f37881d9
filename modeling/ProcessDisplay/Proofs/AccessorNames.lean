import ProcessDisplay.Proofs.AccessorScans
import ProcessDisplay.Proofs.BundledUnits
import ProcessDisplay.Proofs.LexemeRows
import ProcessDisplay.Proofs.NumberedNames

/-!
# The names of accessors

No two accessors are spelled alike, and an accessor is recognized by its
spelling as long as its position can be counted. The scanner of rules finds
every name that the characters around it do not continue. So it knows every
accessor among the names of a source.
-/

namespace ProcessDisplay.Rule

open Script

/-- No two accessors are spelled alike. -/
theorem accessorName_inj {view view' : View} {index index' : Nat}
    (h : accessorName view index = accessorName view' index') :
    view = view' ∧ index = index' := by
  have hstem : ∀ view : View, view.stem.toList.all (fun c => !c.isDigit) = true := by
    intro view
    cases view <;> decide
  obtain ⟨hsame, hindex⟩ := Decimal.numbered_inj (hstem view) (hstem view') h
  refine ⟨?_, hindex⟩
  cases view <;> cases view' <;> first | rfl | exact absurd hsame (by decide)

/-- An accessor is recognized by its spelling. -/
theorem accessor?_accessorName (view : View) {index : Nat} (h : index < positionBound) :
    accessor? (accessorName view index).toList = some (view, index) := by
  obtain ⟨first, more, hdigits, -⟩ := Decimal.exists_digits index
  have hsome : (toString index).toList ≠ [] := by
    rw [hdigits]
    exact List.cons_ne_nil first more
  rw [accessor?_eq_some_iff]
  exact ⟨(toString index).toList, String.toList_append, hsome,
    fun c hc => Decimal.isDigit_of_mem_toString hc, Decimal.digitsValue_toString index, h⟩

/-- Every name that the characters around it do not continue is found. -/
theorem mem_identifiers {s : String} {before text rest : List Char}
    (hbefore : before.getLast?.any isNamePart = false) (h : Spells s text rest) :
    s.toList ∈ identifiers (before ++ (text ++ rest)) := by
  rw [mem_identifiers_iff, ← h.text_eq]
  exact ⟨before, [], rest, rfl, hbefore, fun c hc => absurd hc List.not_mem_nil, h.begins,
    h.continues, h.ends⟩

namespace Accessors

/-- A view occurs, and its position is none beyond the greatest one. -/
def Knows (a : Accessors) (view : View) (index : Nat) : Prop :=
  a.has view = true ∧ ∃ greatest, a.greatest = some greatest ∧ index ≤ greatest

/-- What was met is known. -/
theorem Gathers.knows {a b : Accessors} {met : View → Nat → Prop} (h : a.Gathers met b)
    {view : View} {index : Nat} (hmet : met view index) : b.Knows view index :=
  ⟨(h.has_iff view).mpr (.inr ⟨index, hmet⟩),
    (h.reaches_iff index).mpr (.inr ⟨view, index, hmet, Nat.le_refl index⟩)⟩

end Accessors

/-- The views of a declaration are those of its sources. -/
theorem scanAll_eq (d : RuleDeclaration) : scanAll d = (sources d).foldl Accessors.scan {} := by
  have houtputs : ∀ (outputs : List RuleOutput) (a : Accessors),
      outputs.foldl (fun a o =>
        let a := a.scan o.condition
        if d.outputsAreExpressions then a.scan o.output else a) a =
      (outputs.flatMap (sourcesOf d)).foldl Accessors.scan a := by
    intro outputs
    induction outputs with
    | nil => exact fun a => rfl
    | cons o rest ih =>
      intro a
      rw [List.foldl_cons, ih, List.flatMap_cons, List.foldl_append, sourcesOf, List.foldl_cons]
      congr 1
      dsimp only
      split <;> rfl
  exact houtputs d.outputs {}

/-- The views of a declaration are gathered from its sources. -/
theorem gathers_scanAll (d : RuleDeclaration) : Accessors.Gathers {}
    (fun view index => ∃ source ∈ sources d, Addresses source view index) (scanAll d) := by
  rw [scanAll_eq]
  exact Accessors.gathers_scans {} (sources d)

/-- What an identifier of any source of a declaration spells is known. -/
theorem knows_scanAll {d : RuleDeclaration} {view : View} {index : Nat} {source : String}
    {identifier : List Char} (hsource : source ∈ sources d)
    (hmem : identifier ∈ identifiers source.toList)
    (hfound : accessor? identifier = some (view, index)) : (scanAll d).Knows view index :=
  (gathers_scanAll d).knows ⟨source, hsource, identifier, mem_identifiers_iff.mp hmem,
    accessor?_eq_some_iff.mp hfound⟩

/-- A position that is known is one of a declared input. -/
theorem index_lt_of_checkInputs {d : RuleDeclaration} {accessors : Accessors} {view : View}
    {index : Nat} (h : checkInputs d accessors = .ok ()) (hknows : accessors.Knows view index) :
    index < d.inputs.length := by
  obtain ⟨-, greatest, hgreatest, hindex⟩ := hknows
  rw [checkInputs, hgreatest] at h
  dsimp only at h
  split at h
  · cases h
  · next hless => exact Nat.lt_of_le_of_lt hindex (Nat.lt_of_not_le hless)

end ProcessDisplay.Rule
