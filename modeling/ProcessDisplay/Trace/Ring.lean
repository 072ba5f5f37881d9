import ProcessDisplay.Decimal.Binary

/-!
# Ring buffers

A ring keeps the last items that were pushed, up to its capacity. Items are
stored in slots; the head is the slot that the next item goes to, and it is
also the oldest item once all slots are in use. The view of a ring is its
list of items, oldest first.
-/

namespace ProcessDisplay.Trace

/-- A row of slots that is written round and round. -/
structure Ring (α : Type) where
  /-- The slots; an unused one holds nothing. -/
  slots : Array (Option α)
  /-- The slot that is written next. -/
  head : Nat
  /-- The number of slots in use. -/
  size : Nat
  /-- The head is a slot. -/
  head_lt : head < slots.size

namespace Ring

variable {α : Type}

/-- The ring without items; a capacity of zero counts as one. -/
def empty (capacity : Nat) : Ring α where
  slots := Array.replicate (max capacity 1) none
  head := 0
  size := 0
  head_lt := by rw [Array.size_replicate]; omega

/-- The number of slots. -/
def capacity (r : Ring α) : Nat := r.slots.size

/-- The item in the slot that is written next. -/
def oldest? (r : Ring α) : Option α :=
  have := r.head_lt
  r.slots[r.head]

/-- Whether the next push replaces an item. -/
def isFull (r : Ring α) : Bool := r.oldest?.isSome

/-- Whether there are no items. -/
def isEmpty (r : Ring α) : Bool := r.size = 0

/-- The ring with one more item. -/
def add (r : Ring α) (item : α) : Ring α where
  slots := r.slots.set r.head (some item) r.head_lt
  head := (r.head + 1) % r.slots.size
  size := if r.isFull then r.size else r.size + 1
  head_lt := by
    have h := r.head_lt
    simp only [Array.size_set]
    exact Nat.mod_lt _ (by omega)

/-- Pushes an item: the item that it replaces, if there is one, and the ring
afterwards. -/
def push (r : Ring α) (item : α) : Option α × Ring α := (r.oldest?, r.add item)

/-- The ring without items and with the same capacity. -/
def clear (r : Ring α) : Ring α := empty r.capacity

/-- The items, oldest first. -/
def toList (r : Ring α) : List α :=
  (r.slots.toList.drop r.head ++ r.slots.toList.take r.head).filterMap id

end Ring

/-- A key by which the order of binary numbers is the order of integers. -/
def orderKey (x : Float) : Int :=
  let bits := x.toBits.toNat
  if bits < 9223372036854775808 then bits else 9223372036854775807 - (bits : Int)

/-- Whether a number does not come after another one: numbers ascend, a
negative zero comes before zero and NaN comes last. -/
def notAfter (x y : Float) : Bool :=
  if y.isNaN then true else if x.isNaN then false else orderKey x ≤ orderKey y

/-- Items sorted by a number; items with equal numbers keep their order. -/
def sortedBy (key : α → Float) (items : List α) : List α :=
  items.mergeSort fun a b => notAfter (key a) (key b)

/-- The items sorted by a number. -/
def Ring.sortedBy {α : Type} (key : α → Float) (r : Ring α) : List α :=
  Trace.sortedBy key r.toList

end ProcessDisplay.Trace
