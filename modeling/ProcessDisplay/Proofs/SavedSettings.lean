import ProcessDisplay.Proofs.WrittenNumbers
import ProcessDisplay.Proofs.WrittenTexts
import ProcessDisplay.Proofs.ZeroSigns

/-!
# Saved settings

Settings are always written in TOML. A file whose name does not end in `.json`
is read in TOML, so that the settings are loaded as they were saved; under a
name that ends in `.json` the same file is refused. This rests on two laws of
the formats, which the standard readers and the standard writer keep: what was
written in TOML is read back, and it is no document in JSON.
-/

namespace ProcessDisplay.Document

open Engine (Settings)
open Toml

section Fields

variable {α : Type} {es : List (String × Node)} {name : String} {node : Node}

/-- The node under a key that occurs once. -/
theorem field?_of_mem (hnames : (es.map Prod.fst).Nodup) (h : (name, node) ∈ es) :
    field? es name = .ok (some node) := by
  induction es with
  | nil => cases h
  | cons entry es ih =>
    obtain ⟨hother, hnames⟩ := List.nodup_cons.mp hnames
    unfold field?
    rcases List.mem_cons.mp h with rfl | h
    · have hnone : es.filter (·.1 = name) = [] := by
        refine List.filter_eq_nil_iff.mpr fun other hmem heq => hother ?_
        exact List.mem_map.mpr ⟨other, hmem, of_decide_eq_true heq⟩
      rw [List.filter_cons_of_pos (by simp), hnone]
    · have hne : ¬entry.1 = name := by
        rintro rfl
        exact hother (List.mem_map.mpr ⟨_, h, rfl⟩)
      rw [List.filter_cons_of_neg (by simpa using hne)]
      exact ih hnames h

/-- No node is under a key that does not occur. -/
theorem field?_of_not_mem (h : name ∉ es.map Prod.fst) : field? es name = .ok none := by
  have hnone : es.filter (·.1 = name) = [] := by
    refine List.filter_eq_nil_iff.mpr fun other hmem heq => h ?_
    exact List.mem_map.mpr ⟨other, hmem, of_decide_eq_true heq⟩
  unfold field?
  rw [hnone]

/-- A field that occurs once is decoded. -/
theorem optional_of_mem (hnames : (es.map Prod.fst).Nodup) (h : (name, node) ∈ es) (default : α)
    (decode : Decoder α) : optional es name default decode = decode node := by
  unfold optional
  rw [field?_of_mem hnames h]
  rfl

/-- A field that does not occur has its default. -/
theorem optional_of_not_mem (h : name ∉ es.map Prod.fst) (default : α) (decode : Decoder α) :
    optional es name default decode = .ok default := by
  unfold optional
  rw [field?_of_not_mem h]
  rfl

end Fields

section Writing

/-- The field of a natural number. -/
def naturalField (name : String) (n : Nat) (hplain : isPlainKey name = true)
    (h : n < writtenBound) : Field :=
  ⟨name, toString n, .integer n, hplain, spells_natural h⟩

/-- Settings whose natural numbers can be written. -/
structure Writable (s : Settings) : Prop where
  /-- The capacity of traces. -/
  traceCapacity : s.traceCapacity < writtenBound
  /-- The seed, if there is one. -/
  seed : ∀ n, s.seed = some n → n.toNat < writtenBound
  /-- The limit of operations. -/
  operations : s.limits.operations < writtenBound
  /-- The limit of calls. -/
  callLevels : s.limits.callLevels < writtenBound
  /-- The limit of nesting. -/
  depth : s.limits.depth < writtenBound
  /-- The limit of texts. -/
  textSize : s.limits.textSize < writtenBound
  /-- The limit of arrays. -/
  items : s.limits.items < writtenBound

variable {s : Settings} {text : String}

/-- A natural number is written only if it is in range. -/
theorem writtenNatural_eq_ok {n : Nat} :
    writtenNatural n = .ok text ↔ n < writtenBound ∧ text = toString n := by
  unfold writtenNatural
  split
  · next h => simp [h, eq_comm]
  · next h => simp [h]

/-- A step that has a result hands it on. -/
theorem ok_bind {ε α β : Type} (a : α) (f : α → Except ε β) : Except.ok a >>= f = f a := rfl

/-- A step whose result is used has a result. -/
theorem exists_of_bind_ok {ε α β : Type} {x : Except ε α} {f : α → Except ε β} {b : β}
    (h : x >>= f = .ok b) : ∃ a, x = .ok a ∧ f a = .ok b := by
  cases x with
  | error e => cases h
  | ok a => exact ⟨a, rfl, h⟩

/-- Settings are written only if their natural numbers can be. -/
theorem writable_of_ok (h : writtenSettings s = .ok text) : Writable s := by
  obtain ⟨capacity, hcapacity, h⟩ := exists_of_bind_ok h
  obtain ⟨seed, hseed, h⟩ := exists_of_bind_ok h
  obtain ⟨limits, hlimits, -⟩ := exists_of_bind_ok h
  obtain ⟨operations, hoperations, hlimits⟩ := exists_of_bind_ok hlimits
  obtain ⟨callLevels, hcallLevels, hlimits⟩ := exists_of_bind_ok hlimits
  obtain ⟨depth, hdepth, hlimits⟩ := exists_of_bind_ok hlimits
  obtain ⟨textSize, htextSize, hlimits⟩ := exists_of_bind_ok hlimits
  obtain ⟨items, hitems, -⟩ := exists_of_bind_ok hlimits
  refine ⟨(writtenNatural_eq_ok.mp hcapacity).1, fun n hn => ?_,
    (writtenNatural_eq_ok.mp hoperations).1, (writtenNatural_eq_ok.mp hcallLevels).1,
    (writtenNatural_eq_ok.mp hdepth).1, (writtenNatural_eq_ok.mp htextSize).1,
    (writtenNatural_eq_ok.mp hitems).1⟩
  rw [hn] at hseed
  by_contra hlarge
  change (writtenNatural n.toNat).map (fieldLine "rng_seed") = .ok seed at hseed
  rw [writtenNatural, if_neg hlarge] at hseed
  cases hseed

/-- The field of the pattern of the clock. -/
def patternField (s : Settings) : Field :=
  ⟨"clock_format", writtenText s.clockPattern, .text s.clockPattern, by decide, spells_text _⟩

/-- The field of the interval of the clock. -/
def intervalField (s : Settings) (hnumber : s.clockSeconds.isNaN = false) : Field :=
  ⟨"clock_interval_secs", writtenNumber s.clockSeconds, .number s.clockSeconds, by decide,
    spells_number hnumber⟩

namespace Writable

variable (h : Writable s)

/-- The fields of the limits. -/
def limitFields : List Field :=
  [naturalField "max_operations" s.limits.operations (by decide) h.operations,
    naturalField "max_call_levels" s.limits.callLevels (by decide) h.callLevels,
    naturalField "max_expr_depth" s.limits.depth (by decide) h.depth,
    naturalField "max_string_size" s.limits.textSize (by decide) h.textSize,
    naturalField "max_array_size" s.limits.items (by decide) h.items]

/-- The field of the seed, if there is one. -/
def seedFields : List Field :=
  match hseed : s.seed with
  | some n => [naturalField "rng_seed" n.toNat (by decide) (h.seed n hseed)]
  | none => []

/-- The first field. -/
def capacityField : Field :=
  naturalField "default_trace_capacity" s.traceCapacity (by decide) h.traceCapacity

/-- The fields behind the first one and before the limits. -/
def otherFields (hnumber : s.clockSeconds.isNaN = false) : List Field :=
  h.seedFields ++ [patternField s, intervalField s hnumber]

/-- The limits are written as their fields. -/
theorem writtenLimits_eq : writtenLimits s.limits = .ok (Field.lines h.limitFields) := by
  have hwritten : ∀ {n : Nat}, n < writtenBound → writtenNatural n = .ok (toString n) :=
    fun hn => writtenNatural_eq_ok.mpr ⟨hn, rfl⟩
  unfold writtenLimits
  rw [hwritten h.operations, hwritten h.callLevels, hwritten h.depth, hwritten h.textSize,
    hwritten h.items]
  refine congrArg Except.ok ?_
  simp [Field.lines, limitFields, naturalField, Field.line, String.append_assoc]

/-- The seed is written as its field. -/
theorem writtenSeed_eq : writtenSeed s.seed = .ok (Field.lines h.seedFields) := by
  unfold seedFields
  split
  · next n hseed =>
    have hwritten : writtenSeed s.seed = (writtenNatural n.toNat).map (fieldLine "rng_seed") := by
      rw [hseed]
      rfl
    rw [hwritten, writtenNatural_eq_ok.mpr ⟨h.seed n hseed, rfl⟩]
    refine congrArg Except.ok ?_
    simp [Field.lines, naturalField, Field.line]
  · next hseed =>
    rw [hseed]
    rfl

/-- Settings that can be written are written as these fields. -/
theorem writtenSettings_eq (hnumber : s.clockSeconds.isNaN = false) :
    writtenSettings s = .ok (Field.lines (h.capacityField :: h.otherFields hnumber) ++ "\n[" ++
      "script_limits" ++ "]\n" ++ Field.lines h.limitFields) := by
  have hheader : "\n[script_limits]\n" = "\n[" ++ "script_limits" ++ "]\n" := by decide
  unfold writtenSettings
  rw [writtenNatural_eq_ok.mpr ⟨h.traceCapacity, rfl⟩, h.writtenSeed_eq, h.writtenLimits_eq,
    hheader]
  refine congrArg Except.ok ?_
  simp [Field.lines, otherFields, capacityField, naturalField, patternField, intervalField,
    Field.line, String.append_assoc]

end Writable

end Writing

section Reading

variable {s : Settings}

/-- A natural number that can be written is one of a document. -/
theorem natural_of_lt {n : Nat} (h : n < writtenBound) : natural (.integer n) = .ok n := by
  have hbound : writtenBound ≤ naturalBound := by decide
  have hrange : 0 ≤ (n : Int) ∧ (n : Int) < naturalBound :=
    ⟨Int.natCast_nonneg n, Int.ofNat_lt.mpr (h.trans_le hbound)⟩
  unfold natural Node.toNatural
  dsimp only
  rw [if_pos hrange, Int.toNat_natCast]

/-- The entries of limits. -/
def limitEntries (limits : Script.Limits) : List (String × Node) :=
  [("max_operations", .integer limits.operations), ("max_call_levels", .integer limits.callLevels),
    ("max_expr_depth", .integer limits.depth), ("max_string_size", .integer limits.textSize),
    ("max_array_size", .integer limits.items)]

/-- The entries of settings. -/
def settingEntries (s : Settings) : List (String × Node) :=
  ("default_trace_capacity", .integer s.traceCapacity) ::
    (s.seed.map fun n => ("rng_seed", .integer n.toNat)).toList ++
    [("clock_format", .text s.clockPattern), ("clock_interval_secs", .number s.clockSeconds),
      ("script_limits", .table (limitEntries s.limits))]

/-- No key of limits is repeated. -/
theorem nodup_limitEntries (limits : Script.Limits) :
    ((limitEntries limits).map Prod.fst).Nodup := by
  simp [limitEntries]

/-- No key of settings is repeated. -/
theorem nodup_settingEntries (s : Settings) : ((settingEntries s).map Prod.fst).Nodup := by
  unfold settingEntries
  cases s.seed <;> simp

namespace Writable

/-- The entries of the limits are decoded as the limits. -/
theorem decodeLimits_eq (h : Writable s) (format : Format) :
    decodeLimits format (.table (limitEntries s.limits)) = .ok s.limits := by
  have hrecord : ∀ fields, Node.toRecord format fields (.table (limitEntries s.limits)) =
      .ok (limitEntries s.limits) := fun _ => rfl
  have hfield : ∀ {name : String} {n : Nat}, (name, .integer n) ∈ limitEntries s.limits →
      n < writtenBound → ∀ default,
        optional (limitEntries s.limits) name default natural = .ok n := fun hmem hn default => by
    rw [optional_of_mem (nodup_limitEntries _) hmem, natural_of_lt hn]
  have hoperations : ("max_operations", .integer s.limits.operations) ∈ limitEntries s.limits := by
    simp [limitEntries]
  have hcallLevels : ("max_call_levels", .integer s.limits.callLevels) ∈
      limitEntries s.limits := by
    simp [limitEntries]
  have hdepth : ("max_expr_depth", .integer s.limits.depth) ∈ limitEntries s.limits := by
    simp [limitEntries]
  have htextSize : ("max_string_size", .integer s.limits.textSize) ∈ limitEntries s.limits := by
    simp [limitEntries]
  have hitems : ("max_array_size", .integer s.limits.items) ∈ limitEntries s.limits := by
    simp [limitEntries]
  unfold decodeLimits
  rw [hrecord, ok_bind, hfield hoperations h.operations, ok_bind,
    hfield hcallLevels h.callLevels, ok_bind, hfield hdepth h.depth, ok_bind,
    hfield htextSize h.textSize, ok_bind, hfield hitems h.items]
  rfl

/-- The entry of the seed is decoded as the seed. -/
theorem decodeSeed_eq (h : Writable s) :
    optional (settingEntries s) "rng_seed" none (Node.toOption natural) =
      .ok (s.seed.map UInt64.toNat) := by
  cases hseed : s.seed with
  | none => exact optional_of_not_mem (by simp [settingEntries, hseed]) _ _
  | some n =>
    have hmem : ("rng_seed", .integer n.toNat) ∈ settingEntries s := by
      simp [settingEntries, hseed]
    rw [optional_of_mem (nodup_settingEntries s) hmem]
    change (natural (.integer n.toNat)).map some = _
    rw [natural_of_lt (h.seed n hseed)]
    rfl

/-- The entries of settings are decoded as the settings. -/
theorem decodeSettings_eq (h : Writable s) (format : Format) :
    decodeSettings format (.table (settingEntries s)) = .ok s := by
  have hrecord : ∀ fields, Node.toRecord format fields (.table (settingEntries s)) =
      .ok (settingEntries s) := fun _ => rfl
  have hfield : ∀ {α : Type} {name : String} {node : Node} {a : α} {decode : Decoder α},
      (name, node) ∈ settingEntries s → decode node = .ok a → ∀ default,
        optional (settingEntries s) name default decode = .ok a :=
    fun hmem hdecode default => by rw [optional_of_mem (nodup_settingEntries s) hmem, hdecode]
  have hlimits : ("script_limits", .table (limitEntries s.limits)) ∈ settingEntries s := by
    simp [settingEntries]
  have hcapacity : ("default_trace_capacity", .integer s.traceCapacity) ∈ settingEntries s := by
    simp [settingEntries]
  have hpattern : ("clock_format", .text s.clockPattern) ∈ settingEntries s := by
    simp [settingEntries]
  have hinterval : ("clock_interval_secs", .number s.clockSeconds) ∈ settingEntries s := by
    simp [settingEntries]
  have htext : Node.toText (.text s.clockPattern) = .ok s.clockPattern := rfl
  have hnumber : Node.toNumber (.number s.clockSeconds) = .ok s.clockSeconds := rfl
  have hseed : (s.seed.map UInt64.toNat).map UInt64.ofNat = s.seed := by
    simp [Function.comp_def]
  unfold decodeSettings
  rw [hrecord, ok_bind, h.decodeSeed_eq, ok_bind, hfield hlimits (h.decodeLimits_eq format),
    ok_bind, hfield hcapacity (natural_of_lt h.traceCapacity), ok_bind, hfield hpattern htext,
    ok_bind, hfield hinterval hnumber, hseed]
  rfl

variable (h : Writable s) (hnumber : s.clockSeconds.isNaN = false)

/-- The fields that are written have the entries of the settings. -/
theorem entries_eq : (h.capacityField :: h.otherFields hnumber).map Field.entry ++
    [("script_limits", .table (h.limitFields.map Field.entry))] = settingEntries s := by
  have hlimits : h.limitFields.map Field.entry = limitEntries s.limits := rfl
  have hseed : h.seedFields.map Field.entry =
      (s.seed.map fun n => ("rng_seed", Node.integer n.toNat)).toList := by
    unfold seedFields
    split
    · next n hseed => simp [hseed, naturalField, Field.entry]
    · next hseed => simp [hseed]
  rw [hlimits]
  simp [otherFields, hseed, settingEntries, capacityField, naturalField, patternField,
    intervalField, Field.entry]

/-- The written text is read as the entries of the settings. -/
theorem read_eq : read (Field.lines (h.capacityField :: h.otherFields hnumber) ++ "\n[" ++
    "script_limits" ++ "]\n" ++ Field.lines h.limitFields) =
      some (.table (settingEntries s)) := by
  have hnames := nodup_settingEntries s
  have hinner := nodup_limitEntries s.limits
  have hkeys : ∀ fs : List Field, (fs.map Field.entry).map Prod.fst = fs.map (·.name) := by
    simp [Field.entry, Function.comp_def]
  have hlimits : h.limitFields.map Field.entry = limitEntries s.limits := rfl
  -- the fields have the keys of the entries, of which none is repeated
  rw [← h.entries_eq hnumber, List.map_append, hkeys] at hnames
  rw [← hlimits, hkeys] at hinner
  rw [read_fields _ _ _ _ (by decide) hnames.of_append_left ?_ hinner, h.entries_eq hnumber]
  intro hmem
  exact List.disjoint_of_nodup_append hnames hmem (by simp)

end Writable

end Reading

/-- The writer and the reader of TOML agree: what was written of settings whose
interval is a number is read as these settings. -/
def Codecs.ReadsBack (K : Codecs) : Prop :=
  ∀ (s : Settings) (text : String), s.clockSeconds.isNaN = false → K.write s = .ok text →
    (K.read .toml text >>= decodeSettings .toml) = .ok s

/-- The reader of JSON refuses what the writer of TOML wrote. -/
def Codecs.RefusesWritten (K : Codecs) : Prop :=
  ∀ (s : Settings) (text : String), K.write s = .ok text →
    ∃ reason, (K.read .json text >>= decodeSettings .json) = .error reason

section Standard

/-- A text of settings begins with the name of the first field. -/
theorem exists_first_of_written {s : Settings} {text : String}
    (h : writtenSettings s = .ok text) : ∃ more, text.toList = 'd' :: more := by
  obtain ⟨capacity, -, h⟩ := exists_of_bind_ok h
  obtain ⟨seed, -, h⟩ := exists_of_bind_ok h
  obtain ⟨limits, -, h⟩ := exists_of_bind_ok h
  cases h
  have hname : "default_trace_capacity".toList = 'd' :: "efault_trace_capacity".toList := by decide
  simp only [fieldLine, String.toList_append, hname, List.cons_append]
  exact ⟨_, rfl⟩

/-- The standard reader of TOML reads what was written. -/
theorem readsBack_standard : Codecs.standard.ReadsBack := by
  intro s text hnumber h
  have hwritable := writable_of_ok h
  have hwritten : writtenSettings s = .ok text := h
  rw [hwritable.writtenSettings_eq hnumber, Except.ok.injEq] at hwritten
  have hread : Format.toml.read text = some (.table (settingEntries s)) := by
    rw [← hwritten]
    exact hwritable.read_eq hnumber
  have hnode : Codecs.standard.read .toml text = .ok (.table (settingEntries s)) := by
    dsimp only [Codecs.standard]
    rw [hread]
  rw [hnode, ok_bind, hwritable.decodeSettings_eq]

/-- The standard reader of JSON refuses what was written. -/
theorem refusesWritten_standard : Codecs.standard.RefusesWritten := by
  intro s text h
  obtain ⟨more, hmore⟩ := exists_first_of_written h
  -- neither a word nor a number of JSON begins with this letter
  have hvalue : ∀ fuel, Json.value? (fuel + 2) ('d' :: more) = none := fun _ => rfl
  have hread : Format.json.read text = none := by
    change Json.read text = none
    unfold Json.read
    rw [hmore, hvalue]
    rfl
  refine ⟨"malformed document", ?_⟩
  dsimp only [Codecs.standard]
  rw [hread]
  rfl

end Standard

section Loading

variable {K : Codecs} {s : Settings} {path text : String} {answers : SaveAnswers}

/-- Settings are saved if the system agrees and they can be written. -/
theorem savedSettings_eq_ok : savedSettings K path s answers = .ok text ↔
    answers = ⟨.ok (), .ok ()⟩ ∧ K.write s = .ok text := by
  obtain ⟨directory, file⟩ := answers
  unfold savedSettings
  cases directory with
  | error reason => exact iff_of_false nofun fun h => nomatch h.1
  | ok _ =>
    cases hwrite : K.write s with
    | error reason => exact iff_of_false nofun fun h => nomatch h.2
    | ok written =>
      cases file with
      | error reason => exact iff_of_false nofun fun h => nomatch h.1
      | ok _ =>
        refine ⟨fun h => ⟨rfl, ?_⟩, fun h => ?_⟩
        · exact congrArg Except.ok (Except.ok.inj h)
        · exact congrArg Except.ok (Except.ok.inj h.2)

/-- Settings equal themselves if their interval is a number. -/
theorem same_self (hnumber : s.clockSeconds.isNaN = false) : (s == s) = true := by
  have hseconds : (s.clockSeconds == s.clockSeconds) = true :=
    float_beq_iff_same.mpr (.inl ⟨hnumber, rfl⟩)
  change s.same s = true
  simp [Settings.same, hseconds]

/-- Settings are loaded if the reader of their format reads them. -/
theorem loadSettings_eq (K : Codecs) (path text : String) : loadSettings K path (.ok text) =
    (K.read (.ofPath path) text >>= decodeSettings (.ofPath path)).mapError
      fun reason => .config (.unparsable path reason) := by
  unfold loadSettings load
  dsimp only
  cases K.read (.ofPath path) text >>= decodeSettings (.ofPath path) <;> rfl

/-- Settings that were saved are loaded as they were, unless the file is one for
JSON: then the file is refused, since settings are always written in TOML. -/
theorem loadSettings_saved (hreads : K.ReadsBack) (hrefuses : K.RefusesWritten)
    (hnumber : s.clockSeconds.isNaN = false) (h : savedSettings K path s answers = .ok text) :
    (Format.ofPath path ≠ .json → ∃ loaded, loadSettings K path (.ok text) = .ok loaded ∧
      loaded = s ∧ (loaded == s) = true) ∧
    (Format.ofPath path = .json → ∃ reason,
      loadSettings K path (.ok text) = .error (.config (.unparsable path reason))) := by
  have hwritten := (savedSettings_eq_ok.mp h).2
  refine ⟨fun hformat => ?_, fun hformat => ?_⟩
  · have htoml : Format.ofPath path = .toml := by
      cases hpath : Format.ofPath path with
      | json => exact absurd hpath hformat
      | toml => rfl
    refine ⟨s, ?_, rfl, same_self hnumber⟩
    rw [loadSettings_eq, htoml, hreads s text hnumber hwritten]
    rfl
  · obtain ⟨reason, hrefused⟩ := hrefuses s text hwritten
    refine ⟨reason, ?_⟩
    rw [loadSettings_eq, hformat, hrefused]
    rfl

/-- Settings with a seed, saved under a name for TOML and under one for JSON. -/
theorem loadSettings_saved_seeded :
    let K := Codecs.standard
    let s : Settings := { seed := some 7 }
    let answers : SaveAnswers := ⟨.ok (), .ok ()⟩
    s.clockSeconds.isNaN = false ∧ ∃ text,
      (savedSettings K "nested/engine.toml" s answers = .ok text ∧
        ∃ loaded, loadSettings K "nested/engine.toml" (.ok text) = .ok loaded ∧
          loaded = s ∧ (loaded == s) = true) ∧
      savedSettings K "nested/engine.JSON" s answers = .ok text ∧
        ∃ reason, loadSettings K "nested/engine.JSON" (.ok text) =
          .error (.config (.unparsable "nested/engine.JSON" reason)) := by
  intro K s answers
  have hnumber : s.clockSeconds.isNaN = false := by decide
  have hwritable : Writable s := by
    refine ⟨by decide, ?_, by decide, by decide, by decide, by decide, by decide⟩
    rintro n ⟨⟩
    decide
  have hsaved : ∀ path, savedSettings K path s answers = .ok _ := fun _ =>
    savedSettings_eq_ok.mpr ⟨rfl, hwritable.writtenSettings_eq hnumber⟩
  have htoml := loadSettings_saved readsBack_standard refusesWritten_standard hnumber
    (hsaved "nested/engine.toml")
  have hjson := loadSettings_saved readsBack_standard refusesWritten_standard hnumber
    (hsaved "nested/engine.JSON")
  exact ⟨hnumber, _, ⟨hsaved _, htoml.1 (by decide)⟩, hsaved _, hjson.2 (by decide)⟩

/-- Settings with a seed are saved under a name for JSON, yet what was saved is not loaded. -/
theorem loadSettings_saved_json_fails :
    let s : Settings := { seed := some 1 }
    let text := "default_trace_capacity = 1000\nrng_seed = 1\n" ++
      "clock_format = \"%Y-%m-%d %H:%M:%S\"\nclock_interval_secs = 1.0\n\n" ++
      "[script_limits]\nmax_operations = 100000\nmax_call_levels = 32\n" ++
      "max_expr_depth = 64\nmax_string_size = 10000\nmax_array_size = 10000\n"
    s.clockSeconds.isNaN = false ∧
      savedSettings .standard "engine.json" s ⟨.ok (), .ok ()⟩ = .ok text ∧
      ¬∃ loaded, loadSettings .standard "engine.json" (.ok text) = .ok loaded ∧
        (loaded == s) = true := by
  intro s text
  have hsaved : savedSettings .standard "engine.json" s ⟨.ok (), .ok ()⟩ = .ok text :=
    savedSettings_eq_ok.mpr ⟨rfl, by decide +kernel⟩
  refine ⟨by decide, hsaved, ?_⟩
  rintro ⟨loaded, hloaded, -⟩
  obtain ⟨reason, hrefused⟩ := refusesWritten_standard s text (savedSettings_eq_ok.mp hsaved).2
  rw [loadSettings_eq, show Format.ofPath "engine.json" = .json by decide, hrefused] at hloaded
  cases hloaded

end Loading

end ProcessDisplay.Document
