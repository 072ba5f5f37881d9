import ProcessDisplay.Proofs.NameKeys
import ProcessDisplay.Proofs.ReferencePieces

/-!
# Formulas by segments

From left to right a formula is a row of segments: texts in double quotes,
references in single quotes and other characters. There is one such row for
every formula. The replacement of references can be told segment by segment:
each reference becomes the identifier of its name and everything else stays.
It is refused exactly if a reference is blank or has no end.
-/

namespace ProcessDisplay.Formula

/-- A segment of a formula. -/
inductive Segment where
  /-- A text after its opening quote, with its closing quote if there is one. -/
  | text (body : List Char)
  /-- What stands between the quotes of a reference. -/
  | reference (raw : List Char)
  /-- What follows the opening quote of a reference that has no end. -/
  | openReference (raw : List Char)
  /-- A character outside texts and references. -/
  | other (c : Char)

/-- What follows the opening quote of a text, the part of it that belongs to
the text, and the rest. A backslash protects the next character, and the first
quote that is not protected closes the text; a text that is not closed runs to
the end. -/
inductive ReadsText : List Char → List Char → List Char → Prop where
  /-- The formula ends within the text. -/
  | unclosed : ReadsText [] [] []
  /-- The formula ends after a backslash. -/
  | dangling : ReadsText ['\\'] ['\\'] []
  /-- The quote that closes the text. -/
  | closing {rest : List Char} : ReadsText ('"' :: rest) ['"'] rest
  /-- A protected character. -/
  | escaped {c : Char} {cs body rest : List Char} (h : ReadsText cs body rest) :
    ReadsText ('\\' :: c :: cs) ('\\' :: c :: body) rest
  /-- Any other character. -/
  | plain {c : Char} {cs body rest : List Char} (hquote : c ≠ '"') (hbackslash : c ≠ '\\')
    (h : ReadsText cs body rest) : ReadsText (c :: cs) (c :: body) rest

/-- The characters of a formula and its segments. -/
inductive Segmented : List Char → List Segment → Prop where
  /-- Nothing is left. -/
  | done : Segmented [] []
  /-- A text. -/
  | text {cs body rest : List Char} {segments : List Segment} (hbody : ReadsText cs body rest)
    (hrest : Segmented rest segments) : Segmented ('"' :: cs) (.text body :: segments)
  /-- A reference. -/
  | reference {raw rest : List Char} {segments : List Segment} (hraw : '\'' ∉ raw)
    (hrest : Segmented rest segments) :
    Segmented ('\'' :: raw ++ '\'' :: rest) (.reference raw :: segments)
  /-- A reference without its end. -/
  | openReference {raw : List Char} (hraw : '\'' ∉ raw) :
    Segmented ('\'' :: raw) [.openReference raw]
  /-- Any other character. -/
  | other {c : Char} {rest : List Char} {segments : List Segment} (hquote : c ≠ '\'')
    (htext : c ≠ '"') (hrest : Segmented rest segments) :
    Segmented (c :: rest) (.other c :: segments)

namespace ReadsText

variable {cs body rest : List Char}

/-- The text and the rest are all there is. -/
theorem append_eq (h : ReadsText cs body rest) : body ++ rest = cs := by
  induction h with
  | unclosed | dangling | closing => rfl
  | escaped _ ih | plain _ _ _ ih => rw [← ih]; rfl

/-- There is one way to read a text. -/
theorem unique {body' rest' : List Char} (h : ReadsText cs body rest)
    (h' : ReadsText cs body' rest') : body = body' ∧ rest = rest' := by
  induction h generalizing body' with
  | unclosed => cases h' with | unclosed => exact ⟨rfl, rfl⟩
  | dangling =>
    cases h' with
    | dangling => exact ⟨rfl, rfl⟩
    | plain _ hbackslash => exact absurd rfl hbackslash
  | closing =>
    cases h' with
    | closing => exact ⟨rfl, rfl⟩
    | plain hquote => exact absurd rfl hquote
  | escaped _ ih =>
    cases h' with
    | escaped h' =>
      obtain ⟨rfl, rfl⟩ := ih h'
      exact ⟨rfl, rfl⟩
    | plain _ hbackslash => exact absurd rfl hbackslash
  | plain hquote hbackslash _ ih =>
    cases h' with
    | dangling | escaped => exact absurd rfl hbackslash
    | closing => exact absurd rfl hquote
    | plain _ _ h' =>
      obtain ⟨rfl, rfl⟩ := ih h'
      exact ⟨rfl, rfl⟩

/-- Every text can be read, also after a backslash that protects its first character. -/
theorem exists_body (cs : List Char) :
    (∃ body rest, ReadsText cs body rest) ∧ ∃ body rest, ReadsText ('\\' :: cs) body rest := by
  induction cs with
  | nil => exact ⟨⟨_, _, .unclosed⟩, ⟨_, _, .dangling⟩⟩
  | cons c cs ih =>
    obtain ⟨⟨body, rest, hplain⟩, hprotected⟩ := ih
    refine ⟨?_, ⟨_, _, .escaped hplain⟩⟩
    by_cases hquote : c = '"'
    · exact hquote ▸ ⟨_, _, .closing⟩
    · by_cases hbackslash : c = '\\'
      · exact hbackslash ▸ hprotected
      · exact ⟨_, _, .plain hquote hbackslash hplain⟩

/-- The same text before another rest is read in the same way. Where nothing
follows it, nothing may be put behind it, since it may not be closed. -/
theorem before {rest' : List Char} (h : ReadsText cs body rest) (hrest : rest = [] → rest' = []) :
    ReadsText (body ++ rest') body rest' := by
  induction h with
  | unclosed => rw [hrest rfl]; exact .unclosed
  | dangling => rw [hrest rfl]; exact .dangling
  | closing => exact .closing
  | escaped _ ih => exact .escaped (ih hrest)
  | plain hquote hbackslash _ ih => exact .plain hquote hbackslash (ih hrest)

end ReadsText

/-- The name that is quoted by the characters between two quotes. -/
def quotedName (raw : List Char) : String := String.ofList (Text.trimmed raw)

namespace Segment

/-- What a segment is in the formula. -/
def source : Segment → List Char
  | text body => '"' :: body
  | reference raw => '\'' :: raw ++ ['\'']
  | openReference raw => '\'' :: raw
  | other c => [c]

/-- The name that a segment refers to. -/
def name? : Segment → Option String
  | reference raw => some (quotedName raw)
  | _ => none

/-- What is wrong with a segment of a formula. -/
def fault? (formula : String) : Segment → Option FormulaFault
  | reference raw => if Text.isBlankText raw then some (.emptyReference formula) else none
  | openReference _ => some (.unterminatedReference formula)
  | _ => none

/-- What a segment becomes: a reference becomes the identifier of the position
of its name, and everything else stays. -/
def output (names : List String) : Segment → List Char
  | reference raw => (referenceName (names.idxOf (quotedName raw))).toList
  | segment => segment.source

/-- What a segment becomes if in place of an identifier the name at its
position is quoted. -/
def requoted (names : List String) : Segment → List Char
  | reference raw => '\'' :: (names[names.idxOf (quotedName raw)]?.getD "").toList ++ ['\'']
  | segment => segment.source

/-- A segment without blanks around the name that it quotes. -/
def tidied : Segment → Segment
  | reference raw => reference (Text.trimmed raw)
  | segment => segment

end Segment

/-- The names that segments refer to, in order. -/
def quotedNames (segments : List Segment) : List String := segments.filterMap Segment.name?

namespace Segmented

variable {cs : List Char} {segments : List Segment}

/-- The segments make up the formula. -/
theorem flatMap_source (h : Segmented cs segments) : segments.flatMap Segment.source = cs := by
  induction h with
  | done => rfl
  | text hbody _ ih => rw [List.flatMap_cons, ih, ← hbody.append_eq]; rfl
  | reference _ _ ih =>
    rw [List.flatMap_cons, ih, Segment.source, List.append_assoc]
    rfl
  | openReference => rw [List.flatMap_singleton]; rfl
  | other _ _ _ ih => rw [List.flatMap_cons, ih]; rfl

/-- There is one way to cut a formula into segments. -/
theorem unique {others : List Segment} (h : Segmented cs segments)
    (hothers : Segmented cs others) : segments = others := by
  induction h generalizing others with
  | done => cases hothers with | done => rfl
  | text hbody _ ih =>
    cases hothers with
    | text hbody' hrest =>
      obtain ⟨rfl, rfl⟩ := hbody.unique hbody'
      rw [ih hrest]
    | other _ htext => exact absurd rfl htext
  | @reference raw rest segments hraw _ ih =>
    generalize hcs : '\'' :: raw ++ '\'' :: rest = cs at hothers
    cases hothers with
    | done | text => cases hcs
    | reference hraw' hrest =>
      obtain ⟨rfl, rfl⟩ := Cuts.eq_of_append_quote hraw hraw' (List.cons.inj hcs).2
      rw [ih hrest]
    | openReference hraw' =>
      exact absurd ((List.cons.inj hcs).2 ▸ List.mem_append_right raw List.mem_cons_self) hraw'
    | other hquote => exact absurd (List.cons.inj hcs).1.symm hquote
  | @openReference raw hraw =>
    generalize hcs : '\'' :: raw = cs at hothers
    cases hothers with
    | done | text => cases hcs
    | reference =>
      exact absurd ((List.cons.inj hcs).2 ▸ List.mem_append_right _ List.mem_cons_self) hraw
    | openReference => rw [(List.cons.inj hcs).2]
    | other hquote => exact absurd (List.cons.inj hcs).1.symm hquote
  | other hquote htext _ ih =>
    cases hothers with
    | text => exact absurd rfl htext
    | reference | openReference => exact absurd rfl hquote
    | other _ _ hrest => rw [ih hrest]

end Segmented

/-- Every formula can be cut into segments. -/
theorem exists_segmented (cs : List Char) : ∃ segments, Segmented cs segments := by
  induction hlength : cs.length using Nat.strong_induction_on generalizing cs with
  | _ n ih =>
    cases cs with
    | nil => exact ⟨[], .done⟩
    | cons c tail =>
      have hshorter : ∀ rest : List Char, rest.length ≤ tail.length →
          ∃ segments, Segmented rest segments := fun rest hrest =>
        ih rest.length (hlength ▸ Nat.lt_succ_of_le hrest) rest rfl
      by_cases hquote : c = '\''
      · subst hquote
        by_cases hend : '\'' ∈ tail
        · obtain ⟨raw, rest, rfl, hraw⟩ := List.eq_append_cons_of_mem hend
          obtain ⟨segments, hrest⟩ := hshorter rest (by simp; omega)
          exact ⟨_, .reference hraw hrest⟩
        · exact ⟨_, .openReference hend⟩
      · by_cases htext : c = '"'
        · subst htext
          obtain ⟨body, rest, hbody⟩ := (ReadsText.exists_body tail).1
          obtain ⟨segments, hrest⟩ := hshorter rest (by simp [← hbody.append_eq])
          exact ⟨_, .text hbody hrest⟩
        · obtain ⟨segments, hrest⟩ := hshorter tail (Nat.le_refl _)
          exact ⟨_, .other hquote htext hrest⟩

section Replacement

variable {cs body raw rest : List Char} {segments : List Segment}

/-- A text is copied. -/
theorem replaceFrom_text (formula : String) (names : List String)
    (h : ReadsText cs body rest) :
    replaceFrom formula names (.text false) cs =
      (replaceFrom formula names .expression rest).map fun p => (body ++ p.1, p.2) := by
  induction h with
  | unclosed => rfl
  | dangling => rfl
  | closing => rfl
  | escaped _ ih =>
    rw [replaceFrom]
    simp only [Bool.false_eq_true, if_false, if_true]
    rw [replaceFrom, if_pos rfl, ih]
    cases replaceFrom formula names .expression _ <;> rfl
  | plain hquote hbackslash _ ih =>
    rw [replaceFrom]
    simp only [Bool.false_eq_true, if_false, if_neg hquote, if_neg hbackslash]
    rw [ih]
    cases replaceFrom formula names .expression _ <;> rfl

/-- A reference is read up to its closing quote. -/
theorem replaceFrom_raw (formula : String) (names : List String) (read : List Char)
    (hraw : '\'' ∉ raw) :
    replaceFrom formula names (.reference read) (raw ++ rest) =
      replaceFrom formula names (.reference (raw.reverse ++ read)) rest := by
  induction raw generalizing read with
  | nil => rfl
  | cons c raw ih =>
    rw [List.mem_cons, not_or] at hraw
    rw [List.cons_append, replaceFrom, if_neg (Ne.symm hraw.1), ih _ hraw.2, List.reverse_cons,
      List.append_assoc]
    rfl

/-- A reference that has no end is refused. -/
theorem replaceFrom_openReference (formula : String) (names : List String)
    (hraw : '\'' ∉ raw) :
    replaceFrom formula names .expression ('\'' :: raw) =
      .error (.unterminatedReference formula) := by
  have hread : replaceFrom formula names (.reference []) (raw ++ []) = _ :=
    replaceFrom_raw formula names [] hraw
  rw [List.append_nil] at hread
  rw [replaceFrom, if_pos rfl, hread]
  rfl

/-- A reference is replaced by the identifier of its name, unless it is blank. -/
theorem replaceFrom_reference (formula : String) (names : List String) (hraw : '\'' ∉ raw) :
    replaceFrom formula names .expression ('\'' :: raw ++ '\'' :: rest) =
      if Text.isBlankText raw then .error (.emptyReference formula)
      else
        (replaceFrom formula (register names (quotedName raw)).1 .expression rest).map fun p =>
          ((referenceName (register names (quotedName raw)).2).toList ++ p.1, p.2) := by
  have hempty : (Text.trimmed raw).isEmpty = Text.isBlankText raw := by
    rw [Bool.eq_iff_iff, List.isEmpty_iff]
    exact Text.trimmed_eq_nil_iff
  rw [List.cons_append, replaceFrom, if_pos rfl, replaceFrom_raw formula names [] hraw,
    List.append_nil, replaceFrom, if_pos rfl, List.reverse_reverse]
  dsimp only
  rw [hempty]
  rfl

end Replacement

/-- The rewriting of a formula that is told segment by segment, after some
names: the fault of the first faulty segment, or all segments rewritten and the
names in the order in which they occur first. -/
def rewriteSegments (formula : String) (before : List String) (segments : List Segment) :
    Except FormulaFault (List Char × List String) :=
  match segments.findSome? (Segment.fault? formula) with
  | some fault => .error fault
  | none =>
    let names := (before ++ quotedNames segments).eraseDups
    .ok (segments.flatMap (Segment.output names), names)

section Names

/-- A name that occurred keeps its position when more names follow. -/
theorem idxOf_eraseDups_append {before : List String} {name : String} (h : name ∈ before)
    (more : List String) :
    (before ++ more).eraseDups.idxOf name = before.eraseDups.idxOf name := by
  rw [List.eraseDups_append, List.idxOf_append_of_mem (List.mem_eraseDups.mpr h)]

/-- Registering a name adds one more occurrence. -/
theorem register_eraseDups (before : List String) (name : String) :
    register before.eraseDups name =
      ((before ++ [name]).eraseDups, (before ++ [name]).eraseDups.idxOf name) := by
  rw [List.eraseDups_append]
  by_cases hmem : name ∈ before
  · have hnone : [name].removeAll before = [] := by simp [List.removeAll, hmem]
    have hposition := List.idxOf_eq_getD_idxOf? name before.eraseDups
    obtain ⟨index, hindex⟩ := Option.isSome_iff_exists.mp
      (List.isSome_idxOf?.mpr (List.mem_eraseDups.mpr hmem))
    rw [hindex, Option.getD_some] at hposition
    rw [register, hindex, hnone, List.eraseDups_nil, List.append_nil, hposition]
  · have hone : [name].removeAll before = [name] := by simp [List.removeAll, hmem]
    have hnew : name ∉ before.eraseDups := mt List.mem_eraseDups.mp hmem
    rw [register, List.idxOf?_eq_none_iff.mpr hnew, hone, List.idxOf_append, if_neg hnew]
    simp [List.eraseDups_cons]

end Names

section Rewriting

variable {formula : String} {before : List String} {segments : List Segment}

/-- A segment that is neither faulty nor a reference is copied. -/
theorem rewriteSegments_copied {segment : Segment} (hfault : segment.fault? formula = none)
    (hname : segment.name? = none) (houtput : ∀ names, segment.output names = segment.source) :
    rewriteSegments formula before (segment :: segments) =
      (rewriteSegments formula before segments).map fun p => (segment.source ++ p.1, p.2) := by
  have hnames : quotedNames (segment :: segments) = quotedNames segments :=
    List.filterMap_cons_none hname
  unfold rewriteSegments
  rw [List.findSome?_cons, hfault, hnames]
  cases segments.findSome? (Segment.fault? formula) with
  | some fault => rfl
  | none =>
    dsimp only
    rw [List.flatMap_cons, houtput]
    rfl

/-- A reference becomes the identifier of its name, unless it is blank. -/
theorem rewriteSegments_reference (raw : List Char) :
    rewriteSegments formula before (.reference raw :: segments) =
      if Text.isBlankText raw then .error (.emptyReference formula)
      else
        (rewriteSegments formula (before ++ [quotedName raw]) segments).map fun p =>
          ((referenceName ((before ++ [quotedName raw]).eraseDups.idxOf (quotedName raw))).toList
            ++ p.1, p.2) := by
  have hnames : before ++ quotedNames (.reference raw :: segments) =
      before ++ [quotedName raw] ++ quotedNames segments := by
    rw [List.append_assoc]
    rfl
  unfold rewriteSegments
  rw [List.findSome?_cons, hnames]
  by_cases hblank : Text.isBlankText raw = true
  · rw [Segment.fault?, if_pos hblank, if_pos hblank]
  · rw [Segment.fault?, if_neg hblank, if_neg hblank]
    dsimp only
    cases segments.findSome? (Segment.fault? formula) with
    | some fault => rfl
    | none =>
      have hmem : quotedName raw ∈ before ++ [quotedName raw] := by simp
      dsimp only
      rw [List.flatMap_cons, Segment.output, idxOf_eraseDups_append hmem]
      rfl

end Rewriting

/-- The replacement of references, told segment by segment. -/
theorem replaceFrom_segmented {cs : List Char} {segments : List Segment}
    (h : Segmented cs segments) (formula : String) (before : List String) :
    replaceFrom formula before.eraseDups .expression cs =
      rewriteSegments formula before segments := by
  induction h generalizing before with
  | done => simp [replaceFrom, rewriteSegments, quotedNames]
  | text hbody _ ih =>
    rw [rewriteSegments_copied rfl rfl fun _ => rfl, ← ih, replaceFrom, if_neg (by decide),
      if_pos rfl, replaceFrom_text formula _ hbody]
    cases replaceFrom formula before.eraseDups .expression _ <;> rfl
  | reference hraw _ ih =>
    rw [rewriteSegments_reference, replaceFrom_reference formula _ hraw, register_eraseDups, ih]
  | openReference hraw => rw [replaceFrom_openReference formula _ hraw]; rfl
  | other hquote htext _ ih =>
    rw [rewriteSegments_copied rfl rfl fun _ => rfl, ← ih, replaceFrom, if_neg hquote,
      if_neg htext]
    rfl

/-- The replacement of references in a whole formula. -/
theorem replaceReferences_segmented {formula : String} {segments : List Segment}
    (h : Segmented formula.toList segments) :
    replaceReferences formula =
      (rewriteSegments formula [] segments).map fun p => (String.ofList p.1, p.2) :=
  congrArg (Except.map _) (replaceFrom_segmented h formula [])

/-- The rewriting is refused for the first faulty segment. -/
theorem rewriteSegments_eq_error_iff {formula : String} {before : List String}
    {segments : List Segment} {fault : FormulaFault} :
    rewriteSegments formula before segments = .error fault ↔
      segments.findSome? (Segment.fault? formula) = some fault := by
  unfold rewriteSegments
  cases segments.findSome? (Segment.fault? formula) with
  | some first => simp
  | none => simp

/-- What is rewritten if no segment is faulty. -/
theorem of_rewriteSegments_eq_ok {formula : String} {before names : List String}
    {segments : List Segment} {out : List Char}
    (h : rewriteSegments formula before segments = .ok (out, names)) :
    names = (before ++ quotedNames segments).eraseDups ∧
      out = segments.flatMap (Segment.output names) := by
  unfold rewriteSegments at h
  split at h
  · cases h
  · obtain ⟨rfl, rfl⟩ := Prod.mk.inj (Except.ok.inj h)
    exact ⟨rfl, rfl⟩

/-- A segment is faulty if it is a reference without an end or a blank one. -/
theorem exists_fault_iff (formula : String) (segments : List Segment) :
    (∃ fault, segments.findSome? (Segment.fault? formula) = some fault) ↔
      ∃ raw, .openReference raw ∈ segments ∨
        .reference raw ∈ segments ∧ Text.isBlankText raw = true := by
  rw [← Option.isSome_iff_exists, List.findSome?_isSome_iff]
  constructor
  · rintro ⟨segment, hmem, hfault⟩
    cases segment with
    | text | other => cases hfault
    | openReference raw => exact ⟨raw, .inl hmem⟩
    | reference raw =>
      refine ⟨raw, .inr ⟨hmem, ?_⟩⟩
      by_contra hblank
      rw [Segment.fault?, if_neg hblank] at hfault
      cases hfault
  · rintro ⟨raw, hopen | ⟨hreference, hblank⟩⟩
    · exact ⟨_, hopen, rfl⟩
    · refine ⟨_, hreference, ?_⟩
      rw [Segment.fault?, if_pos hblank]
      rfl

namespace Segmented

variable {cs : List Char} {segments : List Segment}

/-- Without the blanks around names a formula has the same segments. -/
theorem tidied (h : Segmented cs segments) :
    Segmented ((segments.map Segment.tidied).flatMap Segment.source)
      (segments.map Segment.tidied) := by
  induction h with
  | done => exact .done
  | @text _ _ rest segments hbody hrest ih =>
    -- A text without its end has nothing behind it, before and after.
    have hend : rest = [] → (segments.map Segment.tidied).flatMap Segment.source = [] := by
      intro hnil
      subst hnil
      cases hrest with | done => rfl
    exact .text (hbody.before hend) ih
  | reference hraw _ ih =>
    rw [List.map_cons, List.flatMap_cons, Segment.tidied, Segment.source, List.append_assoc]
    exact .reference (fun hmem => hraw (Text.mem_of_mem_trimmed hmem)) ih
  | openReference hraw =>
    rw [List.map_singleton, List.flatMap_singleton]
    exact .openReference hraw
  | other hquote htext _ ih => exact .other hquote htext ih

/-- The name at the position of a reference is the one that it quotes. -/
theorem flatMap_requoted {names : List String}
    (hnames : ∀ name ∈ quotedNames segments, name ∈ names) :
    segments.flatMap (Segment.requoted names) =
      (segments.map Segment.tidied).flatMap Segment.source := by
  rw [List.flatMap_map]
  refine List.flatMap_congr fun segment hmem => ?_
  cases segment with
  | text | openReference | other => rfl
  | reference raw =>
    have hname : quotedName raw ∈ names :=
      hnames _ (List.mem_filterMap.mpr ⟨_, hmem, rfl⟩)
    have hposition := List.idxOf_lt_length_of_mem hname
    rw [Segment.requoted, List.getElem?_eq_getElem hposition, List.getElem_idxOf hposition,
      Option.getD_some, quotedName, String.toList_ofList]
    rfl

end Segmented

/-- A formula is rewritten segment by segment. One row of segments makes it up. The
rewriting is refused exactly if a reference has no end or is blank, and says so
for the first such reference. Otherwise its names are the quoted names without
the blanks around them, each once and in the order in which they occur first,
and its expression has the identifier of its name for each reference and every
other segment as it is. With the names quoted again at these places it is the
formula up to blanks within the quotes: it has the same segments, except that
the names in the references are trimmed. -/
theorem replaceReferences_segmentwise (formula : String) :
    ∃ segments, Segmented formula.toList segments ∧
      segments.flatMap Segment.source = formula.toList ∧
      (∀ others, Segmented formula.toList others → others = segments) ∧
      ((∃ fault, replaceReferences formula = .error fault) ↔
        ∃ raw, .openReference raw ∈ segments ∨
          .reference raw ∈ segments ∧ Text.isBlankText raw = true) ∧
      (∀ fault, replaceReferences formula = .error fault ↔
        segments.findSome? (Segment.fault? formula) = some fault) ∧
      ∀ expression names, replaceReferences formula = .ok (expression, names) →
        names = (quotedNames segments).eraseDups ∧
        expression = String.ofList (segments.flatMap (Segment.output names)) ∧
        segments.flatMap (Segment.requoted names) =
          (segments.map Segment.tidied).flatMap Segment.source ∧
        Segmented (segments.flatMap (Segment.requoted names)) (segments.map Segment.tidied) := by
  obtain ⟨segments, hsegments⟩ := exists_segmented formula.toList
  have hrewrite := replaceReferences_segmented hsegments
  have herror : ∀ fault, replaceReferences formula = .error fault ↔
      segments.findSome? (Segment.fault? formula) = some fault := by
    intro fault
    rw [hrewrite, ← @rewriteSegments_eq_error_iff formula [] segments]
    cases rewriteSegments formula [] segments <;> simp [Except.map]
  refine ⟨segments, hsegments, hsegments.flatMap_source,
    fun others hothers => hothers.unique hsegments, ?_, herror, ?_⟩
  · rw [← exists_fault_iff formula]
    exact exists_congr herror
  · intro expression names hok
    rw [hrewrite] at hok
    obtain ⟨⟨out, found⟩, hfound, hpair⟩ := exceptMap_eq_ok_iff.mp hok
    obtain ⟨rfl, rfl⟩ := Prod.mk.inj hpair
    obtain ⟨hnames, hout⟩ := of_rewriteSegments_eq_ok hfound
    have hrequoted : segments.flatMap (Segment.requoted found) =
        (segments.map Segment.tidied).flatMap Segment.source :=
      Segmented.flatMap_requoted fun name hname => hnames ▸ List.mem_eraseDups.mpr hname
    exact ⟨hnames, congrArg String.ofList hout, hrequoted, hrequoted ▸ hsegments.tidied⟩

end ProcessDisplay.Formula
