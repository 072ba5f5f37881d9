import Mathlib.Tactic.Common
import ProcessDisplay.Proofs.EditLogs
import ProcessDisplay.Proofs.NumberOrder

/-!
# Snapshots of traces

A snapshot is the history followed by the points, and a trace that is sorted
shows the stable sort of this list. A stable sort is told by three facts: it has
the items of the list, they are in order, and those of one number stand as they
stood in the list. A list has one stable sort, so it is the same whether the
points are sorted where they are or behind a history.
-/

namespace ProcessDisplay.Trace

section Sorting

variable {α : Type} {key : α → Float}

/-- A list is the stable sort of items by a number. -/
structure StableSort (key : α → Float) (items sorted : List α) : Prop where
  /-- The items are the same ones. -/
  perm : sorted.Perm items
  /-- Their numbers are in order. -/
  ascending : sorted.Pairwise fun a b => InOrder (key a) (key b)
  /-- The items of one number stand as they stood. -/
  stable : ∀ x, (sorted.filter fun a => key a = x) = items.filter fun a => key a = x

/-- The sort of the model is a stable sort. -/
theorem stableSort_sortedBy (key : α → Float) (items : List α) :
    StableSort key items (sortedBy key items) := by
  have htrans : ∀ a b c, notAfter (key a) (key b) = true → notAfter (key b) (key c) = true →
      notAfter (key a) (key c) = true := fun a b c => by
    rw [notAfter_iff, notAfter_iff, notAfter_iff]
    exact InOrder.trans
  have htotal : ∀ a b, (notAfter (key a) (key b) || notAfter (key b) (key a)) = true := by
    intro a b
    rw [Bool.or_eq_true, notAfter_iff, notAfter_iff]
    exact InOrder.total _ _
  have hperm : (sortedBy key items).Perm items := List.mergeSort_perm _ _
  refine ⟨hperm, ?_, fun x => ?_⟩
  · exact (List.pairwise_mergeSort htrans htotal items).imp (notAfter_iff _ _).mp
  · have hsame : (items.filter fun a => key a = x).Pairwise fun a b =>
        notAfter (key a) (key b) = true := by
      refine List.pairwise_of_forall_mem_list fun a ha b hb => ?_
      rw [of_decide_eq_true (List.mem_filter.mp ha).2, of_decide_eq_true (List.mem_filter.mp hb).2]
      exact (notAfter_iff x x).mpr (.same x)
    -- the items of one number are in order, so the sort keeps them as they are
    have hsublist := List.sublist_mergeSort htrans htotal hsame List.filter_sublist
    have hinside := hsublist.filter fun a => key a = x
    rw [List.filter_filter] at hinside
    simp only [Bool.and_self] at hinside
    exact (hinside.eq_of_length (hperm.filter _).length_eq.symm).symm

/-- Lists in order with the same items are equal, if the items of one number
stand in both as they do in the other. -/
theorem eq_of_ascending {first second : List α} (hperm : first.Perm second)
    (hfirst : first.Pairwise fun a b => InOrder (key a) (key b))
    (hsecond : second.Pairwise fun a b => InOrder (key a) (key b))
    (hstable : ∀ x, (first.filter fun a => key a = x) = second.filter fun a => key a = x) :
    first = second := by
  induction first generalizing second with
  | nil => exact hperm.nil_eq
  | cons a first ih =>
    cases second with
    | nil => exact hperm.eq_nil
    | cons b second =>
      have hle : InOrder (key a) (key b) := by
        rcases List.mem_cons.mp (hperm.mem_iff.mpr List.mem_cons_self) with rfl | hb
        · exact .same _
        · exact (List.pairwise_cons.mp hfirst).1 b hb
      have hge : InOrder (key b) (key a) := by
        rcases List.mem_cons.mp (hperm.mem_iff.mp List.mem_cons_self) with rfl | ha
        · exact .same _
        · exact (List.pairwise_cons.mp hsecond).1 a ha
      have hkey : key b = key a := hge.antisymm hle
      -- the first items have one number, so each is the first item of this number
      have hhead : a = b := by
        have hheads := hstable (key a)
        rw [List.filter_cons_of_pos (by simp), List.filter_cons_of_pos (by simp [hkey])] at hheads
        exact (List.cons.inj hheads).1
      subst hhead
      have hrest : ∀ x, (first.filter fun a => key a = x) = second.filter fun a => key a = x := by
        intro x
        have hsame := hstable x
        by_cases hx : key a = x
        · rw [List.filter_cons_of_pos (by simpa), List.filter_cons_of_pos (by simpa)] at hsame
          exact (List.cons.inj hsame).2
        · rwa [List.filter_cons_of_neg (by simpa), List.filter_cons_of_neg (by simpa)] at hsame
      rw [ih hperm.cons_inv (List.pairwise_cons.mp hfirst).2 (List.pairwise_cons.mp hsecond).2
        hrest]

/-- There is one stable sort, and the model finds it. -/
theorem stableSort_iff (items sorted : List α) :
    StableSort key items sorted ↔ sorted = sortedBy key items := by
  have hfound := stableSort_sortedBy key items
  constructor
  · intro h
    exact eq_of_ascending (h.perm.trans hfound.perm.symm) h.ascending hfound.ascending fun x =>
      (h.stable x).trans (hfound.stable x).symm
  · rintro rfl
    exact hfound

end Sorting

/-- The point of a history at a position, which stands for a missing coordinate. -/
def PastPoint.placed (i : Nat) (p : PastPoint) : Point := ⟨p.x.getD (Float.ofNat i), p.y⟩

namespace Buffer

section Points

/-- The points of an array are as many as its elements. -/
theorem length_arrayPoints (xs : List Float) (i : Nat) (ys : List Float) :
    (arrayPoints xs i ys).length = ys.length := by
  induction ys generalizing i with
  | nil => rfl
  | cons y ys ih => exact congrArg (· + 1) (ih (i + 1))

/-- The points of a history, counted from a position on. -/
theorem getElem?_pastPoints (k : Nat) (past : List PastPoint) (i : Nat) :
    (pastPoints k past)[i]? = past[i]?.map (PastPoint.placed (k + i)) := by
  induction past generalizing k i with
  | nil => rfl
  | cons p past ih =>
    cases i with
    | zero => rfl
    | succ i =>
      rw [Nat.add_comm i, ← Nat.add_assoc, Nat.add_comm 1 i]
      exact ih (k + 1) i

/-- The past points of a trace. -/
def past (b : Buffer) : List PastPoint := b.history.elim [] History.points

/-- A missing coordinate of the history is its position. -/
theorem getElem?_historyPoints (b : Buffer) (i : Nat) :
    b.historyPoints[i]? = b.past[i]?.map (PastPoint.placed i) := by
  unfold historyPoints past
  cases b.history with
  | none => rfl
  | some history => simpa using getElem?_pastPoints 0 history.points i

/-- Both ways to a sorted snapshot lead to the sort of the history and the points. -/
theorem snapshot_eq (b : Buffer) :
    b.snapshot =
      if b.settings.sorted then sortedBy Point.x (b.historyPoints ++ b.points)
      else b.historyPoints ++ b.points := by
  unfold snapshot
  by_cases hdirect : (b.settings.sorted && b.yArray.isNone && b.historyPoints.isEmpty) = true
  · rw [if_pos hdirect]
    simp only [Bool.and_eq_true, Option.isNone_iff_eq_none, List.isEmpty_iff] at hdirect
    obtain ⟨⟨hsorted, harray⟩, hpast⟩ := hdirect
    have hpoints : b.points = b.ring.toList := by rw [points, harray]
    rw [if_pos hsorted, hpast, List.nil_append, hpoints]
    rfl
  · rw [if_neg hdirect]

end Points

section Runs

/-- An edit leaves the array of the trace, drops it or brings one that fits. -/
theorem staged_yArray_fits {b : Buffer} {edit : Edit} {ys : List Float}
    (h : (b.staged edit).yArray = some ys) : b.yArray = some ys ∨ ys.length ≤ b.capacity := by
  have hcapped : ∀ ys, (b.capped ys).length ≤ b.capacity := fun ys => List.length_take_le _ _
  cases edit with
  | stageX value | updateX value => cases value <;> exact .inl h
  | stageY value | updateY value =>
    cases value with
    | array ys =>
      cases h
      exact .inr (hcapped _)
    | _ => cases h
  | commit | attach | detach => exact .inl h
  | clear => cases h

/-- The capacity of a trace that was edited. -/
theorem run_capacity (settings : Settings) (edits : List Edit) :
    ((empty settings).run edits).capacity = max settings.capacity 1 := by
  have hcapacity := (follows_run settings edits).capacity
  rw [run_settings] at hcapacity
  exact hcapacity

/-- An array that stands for the trace fits. -/
theorem run_yArray_fits (settings : Settings) (edits : List Edit) {ys : List Float}
    (h : ((empty settings).run edits).yArray = some ys) :
    ys.length ≤ max settings.capacity 1 := by
  induction edits using List.reverseRecOn with
  | nil => cases h
  | append_singleton edits edit ih =>
    have hcapacity := run_capacity settings edits
    have hedit : (empty settings).run (edits ++ [edit]) =
        (((empty settings).run edits).edit edit).buffer := List.foldl_concat _ _ _ _
    have hkept : ∀ (b : Buffer) point, (b.withPoint point).yArray = b.yArray := fun b point => by
      cases point <;> rfl
    rw [hedit, edit_buffer, hkept] at h
    rcases staged_yArray_fits h with hbefore | hfits
    · exact ih hbefore
    · rwa [hcapacity] at hfits

/-- A trace shows as many points as it says, and not more than it keeps. -/
theorem run_size (settings : Settings) (edits : List Edit) :
    let b := (empty settings).run edits
    b.points.length = b.size ∧ b.size ≤ b.capacity := by
  intro b
  have hcapacity : b.capacity = max settings.capacity 1 := run_capacity settings edits
  have hring := (follows_run settings edits).ring
  unfold points size
  cases harray : b.yArray with
  | some ys =>
    refine ⟨length_arrayPoints _ 0 ys, ?_⟩
    rw [hcapacity]
    exact run_yArray_fits settings edits harray
  | none =>
    refine ⟨(congrArg List.length hring.toList_eq).trans hring.size.symm, ?_⟩
    exact hring.size.le.trans hring.length_le

end Runs

/-- A snapshot of a trace is the history, with the position for a missing
coordinate, followed by the points; if the trace is sorted, it is the stable sort
of this list by the horizontal coordinate, with a history or without one. The
points are as many as the trace says and not more than it keeps. The order by
which the sort goes is a total preorder of all bit patterns. -/
theorem snapshot_stableSort (settings : Settings) (edits : List Edit) :
    let b := (empty settings).run edits
    let all := b.historyPoints ++ b.points
    (∀ i, b.historyPoints[i]? = b.past[i]?.map (PastPoint.placed i)) ∧
      (∀ shown, b.snapshot = shown ↔
        if settings.sorted then StableSort Point.x all shown else shown = all) ∧
      b.points.length = b.size ∧ b.size ≤ b.capacity ∧ b.capacity = max settings.capacity 1 ∧
      Std.TransCmp comparePatterns ∧
      ∀ p q, notAfter (Float.ofBits p) (Float.ofBits q) = (comparePatterns p q).isLE ∧
        (InOrder (Float.ofBits p) (Float.ofBits q) ↔ (comparePatterns p q).isLE = true) := by
  intro b all
  have hsettings : b.settings = settings := run_settings (empty settings) edits
  obtain ⟨hsize, hfits⟩ := run_size settings edits
  refine ⟨b.getElem?_historyPoints, fun shown => ?_, hsize, hfits, run_capacity settings edits,
    inferInstance, fun p q => ⟨notAfter_ofBits p q, ?_⟩⟩
  · rw [snapshot_eq, hsettings, eq_comm]
    cases settings.sorted with
    | true => exact (stableSort_iff all shown).symm
    | false => exact Iff.rfl
  · rw [← notAfter_iff, notAfter_ofBits]

end Buffer

end ProcessDisplay.Trace
