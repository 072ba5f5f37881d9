import Mathlib.Data.List.Sort
import Mathlib.Tactic.Common
import ProcessDisplay.Engine.State

/-!
# Sets kept as ascending lists

Pending variables and due units are lists in strictly ascending order.
Insertion adds exactly one member, keeps the order and commutes with every
selection of members, so two sets with the same members are the same list.
-/

namespace ProcessDisplay.Engine

section Insertion

variable {α : Type} [DecidableEq α] {before : α → α → Bool} {item x : α} {l : List α}

/-- Insertion adds the item and nothing else. -/
@[simp] theorem mem_insertOrdered :
    x ∈ insertOrdered before item l ↔ x = item ∨ x ∈ l := by
  induction l with
  | nil => simp [insertOrdered]
  | cons first rest ih =>
    unfold insertOrdered
    split
    · next h =>
      subst h
      simp
    · split
      · simp
      · rw [List.mem_cons, ih, List.mem_cons]
        tauto

/-- A strict linear order, given as a decision. -/
structure IsStrictOrder (before : α → α → Bool) : Prop where
  /-- Nothing comes before itself. -/
  irrefl : ∀ a, before a a = false
  /-- The order is transitive. -/
  trans : ∀ a b c, before a b = true → before b c = true → before a c = true
  /-- Of two different items one comes before the other. -/
  total : ∀ a b, a ≠ b → before a b = false → before b a = true

/-- Insertion keeps the ascending order. -/
theorem insertOrdered_pairwise (order : IsStrictOrder before)
    (sorted : l.Pairwise (before · · = true)) :
    (insertOrdered before item l).Pairwise (before · · = true) := by
  induction l with
  | nil => simp [insertOrdered]
  | cons first rest ih =>
    obtain ⟨hfirst, hrest⟩ := List.pairwise_cons.mp sorted
    unfold insertOrdered
    split
    · exact sorted
    · next hne =>
      split
      · next hlt =>
        refine List.pairwise_cons.mpr ⟨?_, sorted⟩
        intro y hy
        rcases List.mem_cons.mp hy with rfl | hy
        · exact hlt
        · exact order.trans _ _ _ hlt (hfirst y hy)
      · next hge =>
        refine List.pairwise_cons.mpr ⟨?_, ih hrest⟩
        intro y hy
        rcases mem_insertOrdered.mp hy with rfl | hy
        · exact order.total _ _ hne (Bool.eq_false_iff.mpr hge)
        · exact hfirst y hy

/-- An item that comes before everything else becomes the first one. -/
theorem insertOrdered_eq_cons (order : IsStrictOrder before)
    (h : ∀ y ∈ l, before item y = true) : insertOrdered before item l = item :: l := by
  cases l with
  | nil => rfl
  | cons first rest =>
    have hlt := h first List.mem_cons_self
    have hne : item ≠ first := by
      intro he
      rw [he, order.irrefl] at hlt
      contradiction
    unfold insertOrdered
    rw [if_neg hne, if_pos hlt]

/-- Selection commutes with insertion into an ascending list. -/
theorem filter_insertOrdered (order : IsStrictOrder before) (select : α → Bool)
    (sorted : l.Pairwise (before · · = true)) :
    (insertOrdered before item l).filter select =
      if select item then insertOrdered before item (l.filter select) else l.filter select := by
  induction l with
  | nil => by_cases hs : select item = true <;> simp [insertOrdered, hs]
  | cons first rest ih =>
    obtain ⟨hfirst, hrest⟩ := List.pairwise_cons.mp sorted
    by_cases he : item = first
    · subst he
      by_cases hs : select item = true <;> simp [insertOrdered, hs]
    · by_cases hlt : before item first = true
      · have hall : ∀ y ∈ (first :: rest).filter select, before item y = true := by
          intro y hy
          rcases List.mem_cons.mp (List.mem_filter.mp hy).1 with rfl | hy
          · exact hlt
          · exact order.trans _ _ _ hlt (hfirst y hy)
        rw [insertOrdered_eq_cons order hall]
        unfold insertOrdered
        rw [if_neg he, if_pos hlt, List.filter_cons]
      · have hunfold : ∀ tail, insertOrdered before item (first :: tail) =
            first :: insertOrdered before item tail := by
          intro tail
          rw [insertOrdered, if_neg he, if_neg hlt]
        rw [hunfold, List.filter_cons, List.filter_cons, ih hrest]
        by_cases hs : select first = true <;> by_cases hi : select item = true <;>
          simp [hs, hi, hunfold]

end Insertion

/-- Variables are ordered by their positions. -/
theorem variableOrder : IsStrictOrder fun a b : VariableId => decide (a < b) where
  irrefl a := by simp
  trans a b c hab hbc := by
    have h₁ := of_decide_eq_true hab
    have h₂ := of_decide_eq_true hbc
    exact decide_eq_true (Nat.lt_trans h₁ h₂)
  total a b hne hab := by
    have h : ¬a < b := of_decide_eq_false hab
    exact decide_eq_true (Nat.lt_of_le_of_ne (Nat.le_of_not_lt h) (Ne.symm hne))

/-- A unit is known by its kind and its position. -/
theorem UnitRef.eq_of_rank_index {u v : UnitRef} (hr : u.rank = v.rank) (hi : u.index = v.index) :
    u = v := by
  cases u <;> cases v <;> simp_all [UnitRef.rank, UnitRef.index]

/-- The order of units in terms of kinds and positions. -/
theorem UnitRef.before_iff {u v : UnitRef} :
    u.before v = true ↔ u.rank < v.rank ∨ u.rank = v.rank ∧ u.index < v.index := by
  simp [UnitRef.before]

/-- Units are ordered by their kinds and then by their positions. -/
theorem unitOrder : IsStrictOrder UnitRef.before where
  irrefl u := by simp [UnitRef.before]
  trans u v w huv hvw := by
    rw [UnitRef.before_iff] at *
    omega
  total u v hne huv := by
    have hnot : ¬(u.rank < v.rank ∨ u.rank = v.rank ∧ u.index < v.index) := by
      rw [← UnitRef.before_iff, huv]
      exact Bool.false_ne_true
    have hdiff : ¬(u.rank = v.rank ∧ u.index = v.index) :=
      fun h => hne (UnitRef.eq_of_rank_index h.1 h.2)
    rw [UnitRef.before_iff]
    omega

/-- A set of variables whose members ascend. -/
def VariableSet.Ascending (set : VariableSet) : Prop :=
  set.Pairwise fun a b => decide (a < b) = true

/-- Adding a variable adds nothing else. -/
@[simp] theorem VariableSet.mem_add {set : VariableSet} {id p : VariableId} :
    p ∈ set.add id ↔ p = id ∨ p ∈ set := mem_insertOrdered

/-- Adding a variable keeps the order. -/
theorem VariableSet.Ascending.add {set : VariableSet} (h : set.Ascending) (id : VariableId) :
    (set.add id).Ascending := insertOrdered_pairwise variableOrder h

/-- Selection commutes with adding a variable. -/
theorem VariableSet.Ascending.filter_add {set : VariableSet} (h : set.Ascending)
    (select : VariableId → Bool) (id : VariableId) :
    (set.add id).filter select =
      if select id then VariableSet.add (set.filter select) id else set.filter select :=
  filter_insertOrdered variableOrder select h

/-- Adding variables in turn adds exactly those. -/
theorem VariableSet.mem_foldl_add {set : VariableSet} {ids : List VariableId} {p : VariableId} :
    p ∈ ids.foldl VariableSet.add set ↔ p ∈ set ∨ p ∈ ids := by
  induction ids generalizing set with
  | nil => simp
  | cons id rest ih =>
    rw [List.foldl_cons, ih, VariableSet.mem_add, List.mem_cons]
    tauto

/-- A set of units whose members ascend. -/
def UnitSet.Ascending (set : UnitSet) : Prop := set.Pairwise fun a b => a.before b = true

/-- Adding a unit adds nothing else. -/
@[simp] theorem UnitSet.mem_add {set : UnitSet} {u v : UnitRef} :
    v ∈ set.add u ↔ v = u ∨ v ∈ set := mem_insertOrdered

/-- Adding a unit keeps the order. -/
theorem UnitSet.Ascending.add {set : UnitSet} (h : set.Ascending) (u : UnitRef) :
    (set.add u).Ascending := insertOrdered_pairwise unitOrder h

/-- No unit comes before itself. -/
instance unitIrrefl : Std.Irrefl fun a b : UnitRef => a.before b = true where
  irrefl u h := by
    rw [unitOrder.irrefl u] at h
    cases h

/-- No two units come before each other. -/
instance unitAntisymm : Std.Antisymm fun a b : UnitRef => a.before b = true where
  antisymm u v huv hvu := absurd (unitOrder.trans u v u huv hvu) (unitIrrefl.irrefl u)

/-- Sets of units with the same members are the same. -/
theorem UnitSet.Ascending.eq_of_mem_iff {set set' : UnitSet} (h : set.Ascending)
    (h' : set'.Ascending) (hmem : ∀ u, u ∈ set ↔ u ∈ set') : set = set' :=
  List.Pairwise.eq_of_mem_iff h h' hmem

/-- No member of an ascending set is repeated. -/
theorem UnitSet.Ascending.nodup {set : UnitSet} (h : set.Ascending) : set.Nodup :=
  List.Pairwise.nodup h

end ProcessDisplay.Engine
