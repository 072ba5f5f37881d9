import ProcessDisplay.Proofs.NameKeys

/-!
# Keys as names

A registry key is read as the name that it is the key of, without its
initializer, and keys tell variables apart: two spellings have one key exactly
if they name one variable. The one exception is a closing parenthesis within
the identifier of a variable of the display. It is accepted before an
initializer and refused without one, so such a key is no name itself.
-/

namespace ProcessDisplay.VariableName

/-- Names of one variable: initializers may differ and nothing else. -/
inductive SameVariable : VariableName → VariableName → Prop where
  /-- A variable of the display, under its identifier. -/
  | localVariable (id : String) (initializer other : Option String) :
    SameVariable (localVariable id initializer) (localVariable id other)
  /-- A simulated variable, with its function and its arguments. -/
  | simulated (function : String) (arguments : Option (List String)) :
    SameVariable (simulated function arguments) (simulated function arguments)
  /-- The clock. -/
  | clock : SameVariable clock clock
  /-- A formula, with its expression. -/
  | formula (expression : String) : SameVariable (formula expression) (formula expression)

variable {raw : String} {name other : VariableName}

/-- Names of one variable are the same without their initializers. -/
theorem sameVariable_iff :
    SameVariable name other ↔ name.withoutInitializer = other.withoutInitializer := by
  constructor
  · intro h
    cases h <;> rfl
  · intro h
    cases name <;> cases other <;> cases h <;> constructor

/-- Names of one variable have one key. -/
theorem SameVariable.key_eq (h : SameVariable name other) : name.key = other.key := by
  rw [← key_withoutInitializer name, sameVariable_iff.mp h, key_withoutInitializer]

/-- A name whose key is refused is a variable of the display with a closing
parenthesis in its identifier. -/
theorem eq_local_of_unreadable (h : name.hasReadableKey = false) :
    ∃ id initializer, name = localVariable id initializer ∧ ')' ∈ id.toList := by
  cases name with
  | localVariable id initializer =>
    refine ⟨id, initializer, rfl, ?_⟩
    rw [hasReadableKey, Bool.not_eq_false', List.contains_iff_mem] at h
    exact h
  | simulated | clock | formula => cases h

/-- A spelling without an initializer has no closing parenthesis in its identifier. -/
theorem not_mem_of_no_initializer {id : String}
    (h : parse raw = .ok (localVariable id none)) : ')' ∉ id.toList := by
  rcases ofTrimmed?_cases (parse_eq_ok_iff.mp h) with
    ⟨expression, -, -, hname⟩ | ⟨rest, -, hlocal⟩ | ⟨rest, -, hsimulated⟩ | ⟨-, hname⟩
  · cases hname
  · obtain ⟨head, inside, hsplit, -, hname⟩ := ofLocal?_eq_some_iff.mp hlocal
    obtain ⟨rfl, hinside⟩ := localVariable.inj hname
    obtain rfl := Option.map_eq_none_iff.mp hinside
    rw [String.toList_ofList, ← List.contains_iff_mem, not_contains_of_splitCall hsplit]
    exact Bool.false_ne_true
  · obtain ⟨function, inside, -, -, hname⟩ := ofSimulated?_eq_some_iff.mp hsimulated
    cases hname
  · cases hname

/-- The key of a name is refused exactly if the name has an initializer behind
an identifier with a closing parenthesis. -/
theorem unreadable_iff (h : parse raw = .ok name) :
    name.hasReadableKey = false ↔
      ∃ id initializer, name = localVariable id (some initializer) ∧ ')' ∈ id.toList := by
  constructor
  · intro hunreadable
    obtain ⟨id, initializer, rfl, hclose⟩ := eq_local_of_unreadable hunreadable
    cases initializer with
    | none => exact absurd hclose (not_mem_of_no_initializer h)
    | some initializer => exact ⟨id, initializer, rfl, hclose⟩
  · rintro ⟨id, initializer, rfl, hclose⟩
    rw [hasReadableKey, List.contains_iff_mem.mpr hclose]
    rfl

/-- A key read as a name. -/
theorem parse_key (h : parse raw = .ok name) :
    parse name.key =
      if name.hasReadableKey then .ok name.withoutInitializer
      else .error (.unsupportedName name.key) := by
  have htrim := trimmed_key (Text.trimmed_trimmed raw.toList) (parse_eq_ok_iff.mp h)
  rw [parse, htrim, ofTrimmed?_key (parse_eq_ok_iff.mp h)]
  cases name.hasReadableKey <;> rfl

/-- Names with one key name one variable. -/
theorem sameVariable_of_key_eq {raw' : String} (h : parse raw = .ok name)
    (h' : parse raw' = .ok other) (hkey : name.key = other.key) : SameVariable name other := by
  have hread := (ofTrimmed?_key (parse_eq_ok_iff.mp h)).symm.trans
    (hkey ▸ ofTrimmed?_key (parse_eq_ok_iff.mp h'))
  cases hreadable : name.hasReadableKey with
  | true =>
    rw [if_pos hreadable] at hread
    split at hread
    · exact sameVariable_iff.mpr (Option.some.inj hread)
    · cases hread
  | false =>
    -- Neither key is a name, so both are variables of the display.
    rw [hreadable, if_neg Bool.false_ne_true] at hread
    split at hread
    · cases hread
    · next hunreadable =>
      obtain ⟨id, initializer, rfl, -⟩ := eq_local_of_unreadable hreadable
      obtain ⟨id', initializer', rfl, -⟩ :=
        eq_local_of_unreadable (Bool.eq_false_iff.mpr hunreadable)
      have hid := congrArg String.toList hkey
      rw [key, key, String.toList_append, String.toList_append] at hid
      obtain rfl := String.toList_inj.mp (List.append_cancel_left hid)
      exact .localVariable ..

/-- The key of a name is read as this name without its initializer, which has
the same key; it is refused exactly if the name is a variable of the display
with a closing parenthesis in its identifier, which takes an initializer. Two
spellings have one key exactly if they name one variable. -/
theorem key_reads_back (h : parse raw = .ok name) :
    parse name.key =
        (if name.hasReadableKey then .ok name.withoutInitializer
          else .error (.unsupportedName name.key)) ∧
      name.withoutInitializer.key = name.key ∧
      (name.hasReadableKey = false ↔
        ∃ id initializer, name = localVariable id (some initializer) ∧ ')' ∈ id.toList) ∧
      ∀ raw' other, parse raw' = .ok other → (name.key = other.key ↔ SameVariable name other) :=
  ⟨parse_key h, key_withoutInitializer name, unreadable_iff h, fun _ _ h' =>
    ⟨sameVariable_of_key_eq h h', SameVariable.key_eq⟩⟩

/-- Two spellings of one simulated variable and its key, which is read as itself. -/
theorem key_reads_back_ramp :
    parse " sim:// ramp ( 0, 10 )" = .ok (.simulated "ramp" (some ["0", "10"])) ∧
      parse "sim://ramp(0 ,10)" = .ok (.simulated "ramp" (some ["0", "10"])) ∧
      parse "sim://ramp(0,10)" = .ok (.simulated "ramp" (some ["0", "10"])) ∧
      SameVariable (.simulated "ramp" (some ["0", "10"]))
        (.simulated "ramp" (some ["0", "10"])) := by
  have hspaced : parse " sim:// ramp ( 0, 10 )" = .ok (.simulated "ramp" (some ["0", "10"])) := by
    decide
  have hplain : parse "sim://ramp(0 ,10)" = .ok (.simulated "ramp" (some ["0", "10"])) := by
    decide
  obtain ⟨hread, -, -, hsame⟩ := key_reads_back hspaced
  exact ⟨hspaced, hplain, hread, (hsame _ _ hplain).mp rfl⟩

/-- An identifier with a closing parenthesis is accepted before an initializer,
and then the key of the name is refused. -/
theorem key_refused :
    parse "loc://x)y(5)" = .ok (.localVariable "x)y" (some "5")) ∧
      key (.localVariable "x)y" (some "5")) = "loc://x)y" ∧
      parse "loc://x)y" = .error (.unsupportedName "loc://x)y") := by
  decide

end ProcessDisplay.VariableName
