import Mathlib.Data.List.DropRight
import Mathlib.Tactic.Common
import ProcessDisplay.Trace.Ring

/-!
# What a ring holds

The slots of a ring, read round from its head, are unused ones followed by
the items that it holds, oldest first. A push takes the first of these slots
away and puts its item behind the last one, wherever the head stands, so a
ring is a queue of bounded length: it holds the last items that were pushed
since it was cleared.
-/

namespace ProcessDisplay.Trace

variable {α : Type}

namespace Ring

/-- The slots, read round from the head. -/
def rotated (r : Ring α) : List (Option α) :=
  r.slots.toList.drop r.head ++ r.slots.toList.take r.head

/-- The slots read round are all the slots. -/
theorem length_rotated (r : Ring α) : r.rotated.length = r.capacity := by
  have hhead := r.head_lt
  simp only [rotated, List.length_append, List.length_drop, List.length_take, Array.length_toList,
    capacity]
  omega

/-- The slot at the head is the first one of those read round. -/
theorem rotated_eq_cons (r : Ring α) :
    r.rotated = r.oldest? :: (r.slots.toList.drop (r.head + 1) ++ r.slots.toList.take r.head) := by
  have hhead : r.head < r.slots.toList.length := r.head_lt
  rw [rotated, List.drop_eq_getElem_cons hhead, List.cons_append]
  rfl

/-- One more item takes the first slot away and is behind the last one. -/
theorem rotated_add (r : Ring α) (item : α) :
    (r.add item).rotated = r.rotated.tail ++ [some item] := by
  have hhead : r.head < r.slots.toList.length := r.head_lt
  have hset : (r.add item).slots.toList = r.slots.toList.set r.head (some item) :=
    Array.toList_set r.slots r.head (some item) r.head_lt
  have hbefore : (r.slots.toList.set r.head (some item)).take (r.head + 1) =
      r.slots.toList.take r.head ++ [some item] := by
    rw [List.take_succ_eq_append_getElem (by simpa using hhead),
      List.take_set_of_le (Nat.le_refl _), List.getElem_set_self]
  have hbehind : (r.slots.toList.set r.head (some item)).drop (r.head + 1) =
      r.slots.toList.drop (r.head + 1) := List.drop_set_of_lt (Nat.lt_succ_self _)
  rw [rotated_eq_cons r, List.tail_cons, List.append_assoc, ← hbefore, ← hbehind, rotated, hset]
  -- the head moves on to the next slot, or from the last slot to the first one
  rcases Nat.lt_or_ge (r.head + 1) r.slots.size with hnext | hlast
  · rw [show (r.add item).head = r.head + 1 from Nat.mod_eq_of_lt hnext]
  · have hend : r.head + 1 = r.slots.size := Nat.le_antisymm r.head_lt hlast
    rw [show (r.add item).head = 0 by simp [add, hend], List.drop_zero, List.take_zero,
      List.append_nil]
    have hall : r.slots.toList.length ≤ r.head + 1 := Nat.le_of_eq (by simpa using hend.symm)
    rw [List.take_of_length_le (by simpa using hall), List.drop_of_length_le (by simpa using hall),
      List.nil_append]

/-- A ring holds items if its slots, read round, are unused ones followed by
the items. -/
structure Holds (r : Ring α) (items : List α) : Prop where
  /-- The slots. -/
  rotated : r.rotated = List.replicate (r.capacity - items.length) none ++ items.map some
  /-- The number of slots in use. -/
  size : r.size = items.length

namespace Holds

variable {r : Ring α} {items : List α}

/-- No more items are held than there are slots. -/
theorem length_le (h : r.Holds items) : items.length ≤ r.capacity := by
  have hlength := congrArg List.length h.rotated
  rw [length_rotated, List.length_append, List.length_replicate, List.length_map] at hlength
  omega

/-- The view of a ring shows what it holds. -/
theorem toList_eq (h : r.Holds items) : r.toList = items := by
  have hview : r.toList = r.rotated.filterMap id := rfl
  rw [hview, h.rotated, List.filterMap_append, List.filterMap_map]
  simp

/-- The next slot is in use if all are, and then it has the first item. -/
theorem oldest?_eq (h : r.Holds items) :
    r.oldest? = if items.length = r.capacity then items.head? else none := by
  have hfirst := h.rotated
  rw [rotated_eq_cons] at hfirst
  split
  · next hfull =>
    rw [hfull, Nat.sub_self, List.replicate_zero, List.nil_append] at hfirst
    cases items with
    | nil => cases hfirst
    | cons first rest => exact (List.cons.inj hfirst).1
  · next hroom =>
    obtain ⟨unused, hunused⟩ : ∃ unused, r.capacity - items.length = unused + 1 :=
      ⟨r.capacity - items.length - 1, by have := h.length_le; omega⟩
    rw [hunused, List.replicate_succ, List.cons_append] at hfirst
    exact (List.cons.inj hfirst).1

/-- A ring is full if all its slots are in use. -/
theorem isFull_iff (h : r.Holds items) : r.isFull = true ↔ items.length = r.capacity := by
  have hpos : 0 < r.capacity := Nat.lt_of_le_of_lt (Nat.zero_le _) r.head_lt
  rw [isFull, h.oldest?_eq]
  split
  · next hfull =>
    cases items with
    | nil => exact absurd hfull (Nat.ne_of_lt hpos)
    | cons first rest => simp [hfull]
  · next hroom => simp [hroom]

/-- After a push a ring holds the last items, as many as there are slots. -/
theorem add (h : r.Holds items) (item : α) :
    (r.add item).Holds ((items ++ [item]).rtake r.capacity) := by
  have hcapacity : (r.add item).capacity = r.capacity := Array.size_set r.head_lt
  have hlength : ((items ++ [item]).rtake r.capacity).length =
      min (items.length + 1) r.capacity := by
    rw [List.rtake, List.length_drop, List.length_append, List.length_singleton]
    omega
  have hle := h.length_le
  refine ⟨?_, ?_⟩
  · rw [rotated_add, h.rotated, hcapacity, hlength]
    by_cases hfull : items.length = r.capacity
    · have hpos : 0 < r.capacity := Nat.lt_of_le_of_lt (Nat.zero_le _) r.head_lt
      have hlast : (items ++ [item]).rtake r.capacity = items.tail ++ [item] := by
        rw [List.rtake, List.length_append, List.length_singleton, ← hfull,
          Nat.add_sub_cancel_left, List.drop_append_of_le_length (by omega), List.drop_one]
      rw [hlast, hfull, Nat.min_eq_right (Nat.le_succ _), Nat.sub_self, List.replicate_zero,
        List.nil_append, List.nil_append, List.map_append, List.map_tail]
      rfl
    · have hall : (items ++ [item]).rtake r.capacity = items ++ [item] := by
        rw [List.rtake, List.length_append, List.length_singleton,
          Nat.sub_eq_zero_of_le (by omega), List.drop_zero]
      obtain ⟨unused, hunused⟩ : ∃ unused, r.capacity - items.length = unused + 1 :=
        ⟨r.capacity - items.length - 1, by omega⟩
      have hless : r.capacity - min (items.length + 1) r.capacity = unused := by omega
      rw [hall, hunused, hless, List.replicate_succ, List.cons_append, List.tail_cons,
        List.map_append, List.append_assoc]
      rfl
  · have hsize : (r.add item).size = if r.isFull then r.size else r.size + 1 := rfl
    rw [hsize, hlength, h.size]
    by_cases hfull : r.isFull = true
    · rw [if_pos hfull, h.isFull_iff.mp hfull]
      omega
    · rw [if_neg hfull]
      have hroom := mt h.isFull_iff.mpr hfull
      omega

end Holds

/-- A ring without items holds none. -/
theorem holds_empty (capacity : Nat) : (empty capacity : Ring α).Holds [] where
  rotated := by simp [rotated, empty, Ring.capacity]
  size := rfl

/-- What can be done to a ring. -/
inductive Command (α : Type) where
  /-- An item is pushed. -/
  | push (item : α)
  /-- All items are dropped. -/
  | clear

/-- The item that a command gives back, and the ring after it. -/
def perform (r : Ring α) : Command α → Option α × Ring α
  | .push item => r.push item
  | .clear => (none, r.clear)

/-- The ring after commands in order. -/
def run (r : Ring α) (commands : List (Command α)) : Ring α :=
  commands.foldl (fun r command => (r.perform command).2) r

/-- The items after one more command, if none were ever dropped but by
clearing. -/
def Command.extend (items : List α) : Command α → List α
  | .push item => items ++ [item]
  | .clear => []

/-- The items that commands pushed since the last clearing among them. -/
def pushed (commands : List (Command α)) : List α := commands.foldl Command.extend []

/-- The last items are those of the last items and one more. -/
theorem rtake_append_singleton {n : Nat} (items : List α) (item : α) :
    (items.rtake n ++ [item]).rtake n = (items ++ [item]).rtake n := by
  have hdropped : items.rtake n ++ [item] =
      (items ++ [item]).drop (items.length - n) := by
    rw [List.rtake, List.drop_append_of_le_length (Nat.sub_le _ _)]
  rw [hdropped, List.rtake, List.drop_drop, List.rtake]
  congr 1
  simp only [List.length_drop, List.length_append, List.length_singleton]
  omega

/-- A command keeps the capacity, and of the items that were pushed the last
ones. -/
theorem Holds.perform {r : Ring α} {items : List α} (h : r.Holds (items.rtake r.capacity))
    (command : Command α) :
    (r.perform command).2.capacity = r.capacity ∧
      (r.perform command).2.Holds ((command.extend items).rtake r.capacity) := by
  cases command with
  | push item =>
    have hadd := h.add item
    rw [rtake_append_singleton] at hadd
    exact ⟨Array.size_set r.head_lt, hadd⟩
  | clear =>
    have hpos : 0 < r.capacity := Nat.lt_of_le_of_lt (Nat.zero_le _) r.head_lt
    have hcapacity : (empty r.capacity : Ring α).capacity = r.capacity := by
      rw [Ring.capacity, empty, Array.size_replicate]
      exact Nat.max_eq_left hpos
    refine ⟨hcapacity, ?_⟩
    have hnone : (Command.clear.extend items).rtake r.capacity = [] := List.drop_nil
    rw [hnone]
    exact holds_empty r.capacity

/-- Commands keep the capacity, and of the items that were pushed the last
ones. -/
theorem Holds.run {r : Ring α} {items : List α} (h : r.Holds (items.rtake r.capacity))
    (commands : List (Command α)) :
    (r.run commands).capacity = r.capacity ∧
      (r.run commands).Holds ((commands.foldl Command.extend items).rtake r.capacity) := by
  induction commands generalizing r items with
  | nil => exact ⟨rfl, h⟩
  | cons command rest ih =>
    obtain ⟨hcapacity, hstep⟩ := h.perform command
    rw [← hcapacity] at hstep
    obtain ⟨hsame, hrest⟩ := ih hstep
    rw [hcapacity] at hrest hsame
    exact ⟨hsame, hrest⟩

end Ring

/-- A ring is a queue of bounded length. After any commands it shows the last
items that were pushed since it was cleared, as many as its capacity, which
is at least one, and oldest first; its size is their number. It is empty if
none were pushed, and full if its size is its capacity; exactly then the next
push gives its oldest item back. -/
theorem Ring.holds_last_pushed (capacity : Nat) (commands : List (Command α)) :
    let r := (Ring.empty capacity).run commands
    let items := pushed commands
    r.capacity = max capacity 1 ∧
      r.toList = items.rtake (max capacity 1) ∧
      r.size = min items.length (max capacity 1) ∧
      (r.isEmpty = true ↔ items.length = 0) ∧
      (r.isFull = true ↔ r.size = r.capacity) ∧
      ∀ item, (r.perform (.push item)).1 =
        if r.size = max capacity 1 then r.toList.head? else none := by
  intro r items
  have hempty : (Ring.empty capacity : Ring α).capacity = max capacity 1 := Array.size_replicate
  have hnone : ([] : List α).rtake (Ring.empty capacity : Ring α).capacity = [] := List.drop_nil
  have hstart : (Ring.empty capacity : Ring α).Holds
      (([] : List α).rtake (Ring.empty capacity : Ring α).capacity) := by
    rw [hnone]
    exact holds_empty capacity
  obtain ⟨hcapacity, hholds⟩ := hstart.run commands
  rw [hempty] at hcapacity hholds
  change r.capacity = max capacity 1 at hcapacity
  change r.Holds (items.rtake (max capacity 1)) at hholds
  have hlength : (items.rtake (max capacity 1)).length = min items.length (max capacity 1) := by
    rw [List.rtake, List.length_drop]
    omega
  have hsize : r.size = min items.length (max capacity 1) := hholds.size.trans hlength
  refine ⟨hcapacity, hholds.toList_eq, hsize, ?_, ?_, fun item => ?_⟩
  · rw [Ring.isEmpty, decide_eq_true_iff, hsize]
    omega
  · rw [hholds.isFull_iff, hholds.size]
  · change r.oldest? = _
    rw [hholds.oldest?_eq, hholds.toList_eq, hholds.size, hcapacity]

end ProcessDisplay.Trace
