import Mathlib.Tactic.Common
import ProcessDisplay.Document.Standard
import ProcessDisplay.Proofs.TextParts

/-!
# Lines of a document

A document that is written line by line is read line by line: a line with a
plain key and a value adds an entry to the table of the last header. So a
document of fields and of one table with fields is read as these entries.
-/

namespace ProcessDisplay.Document.Toml

section Keys

variable {key : String} {rest : List Char}

/-- Whether a key needs no quotes. -/
def isPlainKey (key : String) : Bool := !key.toList.isEmpty && key.toList.all isKeyPart

/-- What a plain key begins with. -/
theorem exists_first_of_plain (h : isPlainKey key = true) :
    ∃ c more, key.toList = c :: more ∧ isKeyPart c = true ∧ ∀ d ∈ more, isKeyPart d = true := by
  unfold isPlainKey at h
  cases hkey : key.toList with
  | nil => simp [hkey] at h
  | cons c more =>
    rw [hkey] at h
    simp only [List.isEmpty_cons, Bool.not_false, Bool.true_and, List.all_cons, Bool.and_eq_true,
      List.all_eq_true] at h
    exact ⟨c, more, rfl, h.1, h.2⟩

/-- A character of a key is no other character. -/
theorem ne_of_isKeyPart {c d : Char} (hc : isKeyPart c = true) (hd : isKeyPart d = false) :
    c ≠ d := by
  rintro rfl
  exact Bool.false_ne_true (hd.symm.trans hc)

/-- A plain key ends where its characters do. -/
theorem key?_plain (h : isPlainKey key = true) (hrest : rest.head?.any isKeyPart = false) :
    key? (key.toList ++ rest) = some (key, rest) := by
  obtain ⟨c, more, hkey, hc, hmore⟩ := exists_first_of_plain h
  have hall : ∀ d ∈ c :: more, isKeyPart d = true := List.forall_mem_cons.mpr ⟨hc, hmore⟩
  have htake : (c :: more ++ rest).takeWhile isKeyPart = c :: more :=
    Text.takeWhile_append_of_stop hall hrest
  have hdrop : (c :: more ++ rest).dropWhile isKeyPart = rest := by
    rw [List.dropWhile_append_of_pos hall]
    cases rest with
    | nil => rfl
    | cons d _ => rw [List.dropWhile_cons_of_neg (by simpa using hrest)]
  rw [hkey]
  unfold key?
  split
  · next heq => exact absurd (List.cons.inj heq).1 (ne_of_isKeyPart hc rfl)
  · next heq => exact absurd (List.cons.inj heq).1 (ne_of_isKeyPart hc rfl)
  · dsimp only
    rw [htake, hdrop, ← hkey, String.ofList_toList]
    rw [hkey]
    rfl

/-- A plain key is no blank. -/
theorem skipSpace_plain (h : isPlainKey key = true) (rest : List Char) :
    skipSpace (key.toList ++ rest) = key.toList ++ rest := by
  obtain ⟨c, more, hkey, hc, -⟩ := exists_first_of_plain h
  have hspace : isSpace c = false := by
    simp [isSpace, ne_of_isKeyPart hc (d := ' ') rfl, ne_of_isKeyPart hc (d := '\t') rfl]
  rw [hkey, skipSpace, List.cons_append, List.dropWhile_cons_of_neg (by simp [hspace])]

/-- A plain key is a path of its own. -/
theorem path?_plain (h : isPlainKey key = true) (fuel : Nat) {c : Char} {after : List Char}
    (hrest : rest.head?.any isKeyPart = false) (hafter : skipSpace rest = c :: after)
    (hc : c ≠ '.') : path? (fuel + 1) (key.toList ++ rest) = some ([key], c :: after) := by
  rw [path?, skipSpace_plain h, key?_plain h hrest]
  dsimp only [Option.bind_eq_bind, Option.bind_some]
  rw [hafter]
  split
  · next heq => exact absurd (List.cons.inj heq).1 hc
  · rfl

/-- No line ends before a plain key. -/
theorem afterLine?_plain (h : isPlainKey key = true) (rest : List Char) :
    afterLine? (key.toList ++ rest) = none := by
  obtain ⟨c, more, hkey, hc, -⟩ := exists_first_of_plain h
  have hcomment : skipComment (key.toList ++ rest) = key.toList ++ rest := by
    rw [hkey]
    unfold skipComment
    split
    · next heq => exact absurd (List.cons.inj heq).1 (ne_of_isKeyPart hc rfl)
    · rfl
  have hend : afterLineEnd? (key.toList ++ rest) = none := by
    rw [hkey]
    unfold afterLineEnd?
    split
    · next heq => exact absurd (List.cons.inj heq).1 (ne_of_isKeyPart hc rfl)
    · next heq => exact absurd (List.cons.inj heq).1 (ne_of_isKeyPart hc rfl)
    · rfl
  unfold afterLine?
  rw [skipSpace_plain h, hcomment]
  rw [hkey] at hend ⊢
  exact hend

/-- Neither blanks nor comments stand before a plain key. -/
theorem skipLines_plain (h : isPlainKey key = true) (fuel : Nat) (rest : List Char) :
    skipLines (fuel + 1) (key.toList ++ rest) = key.toList ++ rest := by
  have hline := afterLine?_plain h rest
  rw [skipLines, skipSpace_plain h]
  obtain ⟨c, more, hkey, -, -⟩ := exists_first_of_plain h
  rw [hkey] at hline ⊢
  rw [List.cons_append] at hline ⊢
  dsimp only
  rw [hline]

end Keys

section Tables

variable {es inner : Entries} {name header : String} {node : Node}

/-- A new key is put behind the others. -/
theorem insert_new (h : es.lookup name = none) :
    es.insert [name] node = some (es ++ [(name, .value node)]) := by
  unfold Entries.insert splitPath
  simp only [List.dropLast_singleton, Entries.change, List.isEmpty_nil, List.getLastD_cons,
    List.getLastD_nil, Bool.false_eq_true, if_false, h]

/-- A value under a new key of the document. -/
theorem insertUnder_top (h : es.lookup name = none) :
    es.insertUnder [] [name] node = some (es ++ [(name, .value node)]) :=
  insert_new h

/-- A value under a new key of the table that the last header defines. -/
theorem insertUnder_table (hheader : es.lookup header = none) (h : inner.lookup name = none) :
    Entries.insertUnder (es ++ [(header, .table false false inner)]) [header] [name] node =
      some (es ++ [(header, .table false false (inner ++ [(name, .value node)]))]) := by
  have hlookup : List.lookup header (es ++ [(header, Item.table false false inner)]) =
      some (.table false false inner) := by
    rw [List.lookup_append, hheader]
    simp
  have hreplace : ∀ item, Entries.replace (es ++ [(header, Item.table false false inner)])
      header item = es ++ [(header, item)] := by
    intro item
    have hkept : es.map (fun entry => if entry.1 = header then (header, item) else entry) = es := by
      refine (List.map_congr_left fun entry hentry => if_neg fun heq => ?_).trans (List.map_id es)
      exact bne_iff_ne.mp (List.lookup_eq_none_iff.mp hheader entry hentry) heq.symm
    unfold Entries.replace
    rw [List.map_append, hkept, List.map_singleton, if_pos rfl]
  unfold Entries.insertUnder
  simp only [Entries.change, hlookup, Bool.false_and, Bool.false_eq_true, if_false, insert_new h,
    Option.map_some, hreplace]

/-- The header of a new table. -/
theorem defineTable_new (h : es.lookup header = none) :
    es.defineTable [header] = some (es ++ [(header, .table false false [])]) := by
  unfold Entries.defineTable splitPath
  simp only [List.dropLast_singleton, Entries.change, List.getLastD_cons, List.getLastD_nil, h]

end Tables

/-- The text of a value at the end of a line. -/
structure Spells (text : List Char) (node : Node) : Prop where
  /-- The text does not begin with a blank. -/
  start : ∀ rest, skipSpace (text ++ rest) = text ++ rest
  /-- The value is read up to the end of the line. -/
  reads : ∀ fuel rest, value? (fuel + 1) (text ++ '\n' :: rest) = some (node, '\n' :: rest)

/-- A field of a document with the text of its value. -/
structure Field where
  /-- The key. -/
  name : String
  /-- The text of the value. -/
  text : String
  /-- The value. -/
  node : Node
  /-- The key needs no quotes. -/
  plain : isPlainKey name = true
  /-- The text is that of the value. -/
  spells : Spells text.toList node

namespace Field

/-- The line of a field. -/
def line (f : Field) : String := fieldLine f.name f.text

/-- The entry of a field in a table under construction. -/
def item (f : Field) : String × Item := (f.name, .value f.node)

/-- The entry of a field. -/
def entry (f : Field) : String × Node := (f.name, f.node)

/-- The lines of fields. -/
def lines (fs : List Field) : String := String.join (fs.map line)

variable {f : Field} {fs : List Field}

/-- The characters of a line. -/
theorem toList_line (f : Field) (rest : List Char) :
    f.line.toList ++ rest =
      f.name.toList ++ ' ' :: '=' :: ' ' :: (f.text.toList ++ '\n' :: rest) := by
  unfold line fieldLine
  simp

end Field

section Lines

variable {d d' : Draft} {f : Field} {rest : List Char}

/-- The line of a field adds its entry. -/
theorem pairLine?_line {es : Entries} (f : Field) (rest : List Char)
    (h : d.entries.insertUnder d.header [f.name] f.node = some es) :
    pairLine? d (f.line.toList ++ rest) = some ({ d with entries := es }, rest) := by
  have hpath : ∀ fuel after, path? (fuel + 1) (f.name.toList ++ ' ' :: '=' :: after) =
      some ([f.name], '=' :: after) := fun fuel after =>
    path?_plain f.plain fuel rfl rfl (by decide)
  have hspace : ∀ after, skipSpace (' ' :: (f.text.toList ++ after)) = f.text.toList ++ after :=
    fun after => f.spells.start after
  have hend : ∀ after, afterLine? ('\n' :: after) = some after := fun _ => rfl
  unfold pairLine?
  rw [f.toList_line, hpath]
  simp only [Option.bind_eq_bind, Option.bind_some, after?, if_true, hspace, f.spells.reads, h,
    hend]
  rfl

/-- A document goes on after the line of a field. -/
theorem lines?_line {es : Entries} (fuel : Nat) (f : Field) (rest : List Char)
    (h : d.entries.insertUnder d.header [f.name] f.node = some es) :
    lines? (fuel + 1) d (f.line.toList ++ rest) = lines? fuel { d with entries := es } rest := by
  have hpair := pairLine?_line f rest h
  obtain ⟨c, more, hname, hc, -⟩ := exists_first_of_plain f.plain
  rw [f.toList_line] at hpair ⊢
  rw [lines?, skipLines_plain f.plain]
  rw [hname, List.cons_append] at hpair ⊢
  split
  · next heq => cases heq
  · next heq => exact absurd (List.cons.inj heq).1 (ne_of_isKeyPart hc rfl)
  · rw [hpair]
    rfl

/-- A blank line and the header of a new table. -/
theorem lines?_header {es : Entries} {header : String} (fuel : Nat)
    (hplain : isPlainKey header = true) (h : d.entries.defineTable [header] = some es)
    (rest : List Char) :
    lines? (fuel + 1) d ('\n' :: '[' :: (header.toList ++ ']' :: '\n' :: rest)) =
      lines? fuel ⟨es, [header]⟩ rest := by
  have hskip : ∀ fuel after, skipLines (fuel + 2) ('\n' :: '[' :: after) = '[' :: after :=
    fun _ _ => rfl
  have hpath : ∀ fuel after, path? (fuel + 1) (header.toList ++ ']' :: after) =
      some ([header], ']' :: after) := fun fuel after =>
    path?_plain hplain fuel rfl rfl (by decide)
  have hend : afterLine? ('\n' :: rest) = some rest := rfl
  obtain ⟨c, more, hname, hc, -⟩ := exists_first_of_plain hplain
  have hheader : headerLine? d (header.toList ++ ']' :: '\n' :: rest) =
      some (⟨es, [header]⟩, rest) := by
    unfold headerLine?
    split
    · next heq =>
      rw [hname] at heq
      exact absurd (List.cons.inj heq).1 (ne_of_isKeyPart hc rfl)
    · rw [hpath]
      simp only [Option.bind_eq_bind, Option.bind_some, after?, if_true, h, hend]
      rfl
  rw [lines?, List.length_cons, hskip]
  split
  · next heq => cases heq
  · next heq =>
    cases heq
    rw [hheader]
    rfl
  · next _ hother => exact (hother _ rfl).elim

/-- The lines of fields add their entries wherever one line adds its entry. -/
theorem lines?_fields (place : Entries → Draft) {header : List String}
    (hheader : ∀ es, (place es).header = header)
    (hplace : ∀ es : Entries, ∀ f : Field, es.lookup f.name = none →
      (place es).entries.insertUnder header [f.name] f.node = some (place (es ++ [f.item])).entries)
    (fs : List Field) (es : Entries) (fuel : Nat) (rest : List Char)
    (hnew : ∀ f ∈ fs, es.lookup f.name = none) (hnames : (fs.map (·.name)).Nodup) :
    lines? (fs.length + fuel) (place es) ((Field.lines fs).toList ++ rest) =
      lines? fuel (place (es ++ fs.map Field.item)) rest := by
  induction fs generalizing es with
  | nil => simp [Field.lines]
  | cons f fs ih =>
    obtain ⟨hother, hnames⟩ := List.nodup_cons.mp hnames
    have hfirst := hplace es f (hnew f List.mem_cons_self)
    have hdraft : ({ place es with entries := (place (es ++ [f.item])).entries } : Draft) =
        place (es ++ [f.item]) := by
      dsimp only
      rw [hheader, ← hheader (es ++ [f.item])]
    have hlater : ∀ g ∈ fs, (es ++ [f.item]).lookup g.name = none := by
      intro g hg
      have hne : g.name ≠ f.name := fun heq =>
        hother (List.mem_map.mpr ⟨g, hg, heq⟩)
      rw [List.lookup_append, hnew g (List.mem_cons_of_mem _ hg)]
      simp [Field.item, hne]
    have hlines : (Field.lines (f :: fs)).toList ++ rest =
        f.line.toList ++ ((Field.lines fs).toList ++ rest) := by
      simp [Field.lines]
    have hfuel : (f :: fs).length + fuel = fs.length + fuel + 1 := by
      rw [List.length_cons]
      omega
    rw [hlines, hfuel, lines?_line _ f _ (by rw [hheader]; exact hfirst), hdraft,
      ih _ hlater hnames, List.map_cons, List.append_assoc]
    rfl

/-- The entries of fields are those under construction. -/
theorem entryNodes_items (fs : List Field) :
    entryNodes (fs.map Field.item) = fs.map Field.entry := by
  induction fs with
  | nil => rfl
  | cons f fs ih =>
    rw [List.map_cons, List.map_cons, ← ih]
    rfl

/-- Entries behind others. -/
theorem entryNodes_append (es es' : Entries) :
    entryNodes (es ++ es') = entryNodes es ++ entryNodes es' := by
  induction es with
  | nil => rfl
  | cons e es ih =>
    rw [List.cons_append, entryNodes, entryNodes, ih, List.cons_append]

/-- A key that no field has. -/
theorem lookup_items {fs : List Field} {name : String} (h : name ∉ fs.map (·.name)) :
    (fs.map Field.item).lookup name = none := by
  rw [List.lookup_eq_none_iff]
  intro entry hentry
  obtain ⟨f, hf, rfl⟩ := List.mem_map.mp hentry
  exact bne_iff_ne.mpr fun heq => h (List.mem_map.mpr ⟨f, hf, heq.symm⟩)

/-- Every line takes a character. -/
theorem length_le_lines (fs : List Field) : fs.length ≤ (Field.lines fs).toList.length := by
  induction fs with
  | nil => exact Nat.zero_le _
  | cons f fs ih =>
    have hline := congrArg List.length (f.toList_line [])
    have hlines : (Field.lines (f :: fs)).toList = f.line.toList ++ (Field.lines fs).toList := by
      simp [Field.lines]
    simp only [List.length_append, List.length_cons] at hline
    rw [hlines, List.length_append, List.length_cons]
    omega

/-- The end of a document. -/
theorem lines?_nil (fuel : Nat) (d : Draft) : lines? (fuel + 1) d [] = some d := rfl

/-- A document that begins with the line of a field is read line by line. -/
theorem read_eq {text : String} {f : Field} {rest : List Char}
    (h : text.toList = f.line.toList ++ rest) :
    read text = (lines? (text.toList.length + 1) {} text.toList).map
      fun d => .table (entryNodes d.entries) := by
  obtain ⟨c, more, hname, hc, -⟩ := exists_first_of_plain f.plain
  have hmark : c ≠ byteOrderMark := ne_of_isKeyPart hc rfl
  rw [f.toList_line, hname, List.cons_append] at h
  unfold read
  rw [h]
  dsimp only
  rw [if_neg hmark]

/-- A document of fields, a blank line, and a table with fields is read as these entries. -/
theorem read_fields (f : Field) (top inner : List Field) (header : String)
    (hplain : isPlainKey header = true) (htop : ((f :: top).map (·.name)).Nodup)
    (hheader : header ∉ (f :: top).map (·.name)) (hinner : (inner.map (·.name)).Nodup) :
    read (Field.lines (f :: top) ++ "\n[" ++ header ++ "]\n" ++ Field.lines inner) =
      some (.table ((f :: top).map Field.entry ++ [(header, .table (inner.map Field.entry))])) := by
  have hnew := lookup_items hheader
  have htopLines := lines?_fields (fun es => ⟨es, []⟩) (fun _ => rfl)
    (fun _ _ h => insertUnder_top h) (f :: top) []
  have hinnerLines := lines?_fields
    (fun es => ⟨(f :: top).map Field.item ++ [(header, .table false false es)], [header]⟩)
    (fun _ => rfl) (fun _ _ h => insertUnder_table hnew h) inner []
  have htext : (Field.lines (f :: top) ++ "\n[" ++ header ++ "]\n" ++ Field.lines inner).toList =
      (Field.lines (f :: top)).toList ++
        '\n' :: '[' :: (header.toList ++ ']' :: '\n' :: ((Field.lines inner).toList ++ [])) := by
    simp
  have hfirst : (Field.lines (f :: top) ++ "\n[" ++ header ++ "]\n" ++ Field.lines inner).toList =
      f.line.toList ++ ((Field.lines top ++ "\n[" ++ header ++ "]\n" ++
        Field.lines inner).toList) := by
    simp [Field.lines]
  obtain ⟨k, hfuel⟩ : ∃ k, (Field.lines (f :: top) ++ "\n[" ++ header ++ "]\n" ++
      Field.lines inner).toList.length + 1 = (f :: top).length + (inner.length + (k + 1) + 1) := by
    have htopLength := length_le_lines (f :: top)
    have hinnerLength := length_le_lines inner
    rw [htext]
    simp only [List.length_append, List.length_cons, List.append_nil] at *
    exact ⟨(Field.lines (f :: top)).toList.length + header.toList.length +
      (Field.lines inner).toList.length + 2 - top.length - inner.length, by omega⟩
  rw [read_eq hfirst, hfuel, htext, htopLines _ _ (fun _ _ => rfl) htop, List.nil_append,
    lines?_header _ hplain (defineTable_new hnew), hinnerLines _ _ (fun _ _ => rfl) hinner,
    lines?_nil, Option.map_some, List.nil_append, entryNodes_append, entryNodes_items,
    ← entryNodes_items inner]
  rfl

end Lines

end ProcessDisplay.Document.Toml
