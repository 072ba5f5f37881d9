import ProcessDisplay.Engine.Registry
import ProcessDisplay.Proofs.Agreement
import ProcessDisplay.Proofs.OrderedSet

/-!
# Variables in motion

Whatever the engine does to a variable, the variable keeps its name and its
kind and never loses a value. Between two states some variables are touched;
all others agree before and after. An operation records its changes when
every variable it touches is pending afterwards.
-/

namespace ProcessDisplay

namespace Variable

/-- What every change of a variable leaves alone. -/
structure Becomes (v w : Variable) : Prop where
  /-- The name stays. -/
  name : w.name = v.name
  /-- The kind stays, but for the initializer of a variable of the display. -/
  kind : w.kind = v.kind ∨ v.isWritable = true ∧ w.isWritable = true
  /-- The number of places stays. -/
  precision : w.precision = v.precision
  /-- A value does not go away. -/
  valued : v.value.isSome = true → w.value.isSome = true

/-- A variable that does not change. -/
@[refl] theorem Becomes.refl (v : Variable) : v.Becomes v := ⟨rfl, Or.inl rfl, rfl, id⟩

/-- One change after another. -/
theorem Becomes.trans {u v w : Variable} (huv : u.Becomes v) (hvw : v.Becomes w) :
    u.Becomes w := by
  refine ⟨hvw.name.trans huv.name, ?_, hvw.precision.trans huv.precision,
    fun h => hvw.valued (huv.valued h)⟩
  rcases huv.kind with hk | ⟨hu, hv⟩
  · rcases hvw.kind with hk' | ⟨hv, hw⟩
    · exact Or.inl (hk'.trans hk)
    · refine Or.inr ⟨?_, hw⟩
      rw [isWritable, ← hk]
      exact hv
  · rcases hvw.kind with hk' | ⟨-, hw⟩
    · refine Or.inr ⟨hu, ?_⟩
      rw [isWritable, hk']
      exact hv
    · exact Or.inr ⟨hu, hw⟩

/-- A sample leaves a variable with its name, its kind and a value. -/
theorem becomes_apply (v : Variable) (sample : Sample) : v.Becomes (v.apply sample).1 :=
  ⟨rfl, Or.inl rfl, rfl, fun _ => rfl⟩

/-- A failed formula only changes the severity of its variable. -/
theorem becomes_severity (v : Variable) (severity : Severity) :
    v.Becomes { v with severity } := ⟨rfl, Or.inl rfl, rfl, id⟩

/-- A first initializer only changes the declaration of a variable. -/
theorem becomes_declared {v : Variable} (h : v.kind = .localVariable none) (initializer : String) :
    v.Becomes { v with kind := .localVariable (some initializer) } :=
  ⟨rfl, Or.inr ⟨by rw [isWritable, h], rfl⟩, rfl, id⟩

end Variable

namespace Engine

/-- Every variable is still there; those that are not touched agree. -/
def Moves (vars after : List Variable) (touched : VariableId → Prop) : Prop :=
  ∀ i v, vars[i]? = some v → ∃ w, after[i]? = some w ∧ v.Becomes w ∧ (touched i ∨ v.Agrees w)

namespace Moves

variable {vars after last : List Variable} {touched touched' : VariableId → Prop}

/-- Nothing moves by itself. -/
theorem refl (vars : List Variable) (touched : VariableId → Prop) : Moves vars vars touched :=
  fun _ v hv => ⟨v, hv, .refl v, Or.inr (.refl v)⟩

/-- More variables may count as touched. -/
theorem mono (h : Moves vars after touched) (hsub : ∀ i, touched i → touched' i) :
    Moves vars after touched' := by
  intro i v hv
  obtain ⟨w, hw, hbecomes, htouched⟩ := h i v hv
  exact ⟨w, hw, hbecomes, htouched.imp_left (hsub i)⟩

/-- One move after another. -/
theorem trans (h : Moves vars after touched) (h' : Moves after last touched) :
    Moves vars last touched := by
  intro i u hu
  obtain ⟨v, hv, huv, hagrees⟩ := h i u hu
  obtain ⟨w, hw, hvw, hagrees'⟩ := h' i v hv
  refine ⟨w, hw, huv.trans hvw, ?_⟩
  rcases hagrees with ht | hagrees
  · exact Or.inl ht
  · exact hagrees'.imp_right hagrees.trans

/-- A variable is added behind the others. -/
theorem append (vars more : List Variable) (touched : VariableId → Prop) :
    Moves vars (vars ++ more) touched := by
  intro i v hv
  have hi : i < vars.length := (List.getElem?_eq_some_iff.mp hv).1
  exact ⟨v, by rw [List.getElem?_append_left hi, hv], .refl v, Or.inr (.refl v)⟩

/-- One variable is replaced by what becomes of it. -/
theorem set {i : VariableId} {v w : Variable} (hv : vars[i]? = some v) (hbecomes : v.Becomes w)
    (htouched : touched i ∨ v.Agrees w) : Moves vars (vars.set i w) touched := by
  intro j u hu
  by_cases hij : i = j
  · subst hij
    obtain rfl := Option.some.inj (hv.symm.trans hu)
    have hi : i < vars.length := (List.getElem?_eq_some_iff.mp hv).1
    exact ⟨w, by rw [List.getElem?_set_self hi], hbecomes, htouched⟩
  · exact ⟨u, by rw [List.getElem?_set_ne hij, hu], .refl u, Or.inr (.refl u)⟩

end Moves

/-- Formula variables are as they were. -/
def KeepsFormulas (vars after : List Variable) : Prop :=
  ∀ (i : VariableId) (v : Variable), vars[i]? = some v → v.kind = .formula → after[i]? = some v

namespace KeepsFormulas

variable {vars after last : List Variable}

/-- Nothing changes by itself. -/
theorem refl (vars : List Variable) : KeepsFormulas vars vars := fun _ _ hv _ => hv

/-- One change after another. -/
theorem trans (h : KeepsFormulas vars after) (h' : KeepsFormulas after last) :
    KeepsFormulas vars last := fun i v hv hk => h' i v (h i v hv hk) hk

/-- A variable is added behind the others. -/
theorem append (vars more : List Variable) : KeepsFormulas vars (vars ++ more) := by
  intro i v hv _
  rw [List.getElem?_append_left (List.getElem?_eq_some_iff.mp hv).1, hv]

/-- A variable that is not of a formula is replaced. -/
theorem set {i : VariableId} {v w : Variable} (hv : vars[i]? = some v) (hk : v.kind ≠ .formula) :
    KeepsFormulas vars (vars.set i w) := by
  intro j u hu hku
  by_cases hij : i = j
  · subst hij
    obtain rfl := Option.some.inj (hv.symm.trans hu)
    exact absurd hku hk
  · rw [List.getElem?_set_ne hij, hu]

end KeepsFormulas

namespace State

variable {C : FormulaCompiler}

/-- Variables move, formula variables excepted, and every touched variable
is pending afterwards. -/
structure Records (s s' : State C) : Prop where
  /-- The touched variables are pending. -/
  moves : Moves s.vars s'.vars (· ∈ s'.pending)
  /-- Formula variables are as they were. -/
  formulas : KeepsFormulas s.vars s'.vars
  /-- What was pending is pending. -/
  pending : ∀ p ∈ s.pending, p ∈ s'.pending

/-- Nothing is recorded for no change. -/
theorem Records.refl (s : State C) : Records s s := ⟨.refl _ _, .refl _, fun _ hp => hp⟩

/-- One recorded change after another. -/
theorem Records.trans {s s' s'' : State C} (h : Records s s') (h' : Records s' s'') :
    Records s s'' :=
  ⟨(h.moves.mono h'.pending).trans h'.moves, h.formulas.trans h'.formulas,
    fun p hp => h'.pending p (h.pending p hp)⟩

/-- A sample for a variable that exists. -/
theorem apply_of_some {s : State C} {id : VariableId} {v : Variable} (h : s.vars[id]? = some v)
    (sample : Sample) :
    s.apply id sample = (s.setVariable id (v.apply sample).1, (v.apply sample).2) := by
  rw [apply, h]

/-- A write succeeds exactly on a variable of the display, applies the value
there and records a change. -/
theorem write_eq_ok_iff {s s' : State C} {id : VariableId} {value : Value} :
    s.write id value = .ok s' ↔ ∃ v, s.vars[id]? = some v ∧ v.isWritable = true ∧
      s' =
        { s with
          vars := s.vars.set id (v.apply { value, time := s.now }).1
          changed := true
          pending := if (v.apply { value, time := s.now }).2 then s.pending.add id
            else s.pending } := by
  unfold write
  cases hv : s.vars[id]? with
  | none => simp
  | some v =>
    simp only [apply_of_some hv]
    by_cases hw : v.isWritable = true
    · rw [if_pos hw]
      simp only [Except.ok.injEq, Option.some.injEq, exists_eq_left', hw, true_and]
      exact ⟨fun h => h.symm, fun h => h.symm⟩
    · rw [if_neg hw]
      simp [hw]

/-- A write records its change. -/
theorem write_records {s s' : State C} {id : VariableId} {value : Value}
    (h : s.write id value = .ok s') : Records s s' := by
  obtain ⟨v, hv, hwritable, rfl⟩ := write_eq_ok_iff.mp h
  have hkind : v.kind ≠ .formula := by
    intro hk
    rw [Variable.isWritable, hk] at hwritable
    cases hwritable
  refine ⟨.set hv (v.becomes_apply _) ?_, .set hv hkind, ?_⟩
  · by_cases hc : (v.apply { value, time := s.now }).2 = true
    · simp [hc]
    · exact Or.inr (Variable.agrees_apply (Bool.eq_false_iff.mpr hc))
  · intro p hp
    simp only
    split <;> simp [hp]

/-- The variable after its first initializer. -/
def declared (s : State C) (v : Variable) (initializer : String) : Variable :=
  let declared := { v with kind := .localVariable (some initializer) }
  if v.isDisconnected then (declared.apply (initialSample initializer s.now)).1 else declared

/-- A declaration changes nothing, or gives a variable of the display its
first initializer, and its first value too where it has none. -/
theorem redeclare_cases (s : State C) (id : VariableId) (initializer : String) :
    (s.redeclare id initializer = s ∧
      ∀ v, s.vars[id]? = some v → v.kind ≠ .localVariable none) ∨
    ∃ v, s.vars[id]? = some v ∧ v.kind = .localVariable none ∧
      ((v.isDisconnected = true ∧
          s.redeclare id initializer =
            (s.setVariable id (s.declared v initializer)).markPending id) ∨
        (v.isDisconnected = false ∧
          s.redeclare id initializer = s.setVariable id (s.declared v initializer))) := by
  unfold redeclare
  cases hv : s.vars[id]? with
  | none => simp
  | some v =>
    simp only [Option.some.injEq, exists_eq_left', forall_eq']
    cases hk : v.kind with
    | localVariable first =>
      cases first with
      | some first => simp
      | none =>
        refine Or.inr ⟨rfl, ?_⟩
        by_cases hd : v.isDisconnected = true
        · refine Or.inl ⟨hd, ?_⟩
          have hnone : v.value = none := by
            simpa [Variable.isDisconnected] using hd
          have hchanged : (Variable.apply { v with kind := .localVariable (some initializer) }
              (initialSample initializer s.now)).2 = true :=
            Variable.apply_changed_of_none hnone _
          simp only [hd, declared, if_true, hchanged]
        · exact Or.inr ⟨Bool.eq_false_iff.mpr hd, by simp [hd, declared]⟩
    | simulated => simp
    | formula => simp

/-- A variable becomes what its first initializer makes of it. -/
theorem becomes_declared (s : State C) {v : Variable} (h : v.kind = .localVariable none)
    (initializer : String) : v.Becomes (s.declared v initializer) := by
  unfold declared
  split
  · exact (Variable.becomes_declared h initializer).trans (Variable.becomes_apply _ _)
  · exact Variable.becomes_declared h initializer

/-- A declaration records its change. -/
theorem redeclare_records (s : State C) (id : VariableId) (initializer : String) :
    Records s (s.redeclare id initializer) := by
  rcases redeclare_cases s id initializer with ⟨he, -⟩ | ⟨v, hv, hk, hcase⟩
  · rw [he]
    exact .refl s
  · have hkind : v.kind ≠ .formula := by
      rw [hk]
      simp
    rcases hcase with ⟨-, he⟩ | ⟨hd, he⟩
    · rw [he]
      refine ⟨.set hv (s.becomes_declared hk initializer) (Or.inl ?_), .set hv hkind, ?_⟩
      · simp [markPending, setVariable]
      · intro p hp
        simp [markPending, setVariable, hp]
    · rw [he]
      refine ⟨.set hv (s.becomes_declared hk initializer) (Or.inr ?_), .set hv hkind,
        fun p hp => hp⟩
      simp only [declared, hd, Bool.false_eq_true, if_false]
      exact ⟨rfl, .refl _⟩

end State

end Engine

end ProcessDisplay
