import Mathlib.Tactic.Common

/-!
# Parts of a text

One text is cut into parts in more than one way: into the pieces that it was
written from and into the lexemes that are read from it. Parts of two cuts
are compared by the number of characters before them.
-/

namespace ProcessDisplay.Text

variable {parts others : List (List Char)} {part : List Char} {k j n : Nat}

/-- The number of characters before a part. -/
def offset (parts : List (List Char)) (k : Nat) : Nat := (parts.take k).flatten.length

/-- The character at a position belongs to a part. -/
def Covers (parts : List (List Char)) (k n : Nat) : Prop :=
  offset parts k ≤ n ∧ n < offset parts (k + 1)

/-- The parts before a part, and those from it on, make up the text. -/
theorem take_append_drop_flatten (parts : List (List Char)) (k : Nat) :
    (parts.take k).flatten ++ (parts.drop k).flatten = parts.flatten := by
  rw [← List.flatten_append, List.take_append_drop]

/-- The characters before a part. -/
theorem take_offset (parts : List (List Char)) (k : Nat) :
    parts.flatten.take (offset parts k) = (parts.take k).flatten := by
  rw [← take_append_drop_flatten parts k, offset, List.take_left']
  rfl

/-- The characters from a part on. -/
theorem drop_offset (parts : List (List Char)) (k : Nat) :
    parts.flatten.drop (offset parts k) = (parts.drop k).flatten := by
  rw [← take_append_drop_flatten parts k, offset, List.drop_left']
  rfl

/-- A part is followed by the later ones. -/
theorem drop_flatten_of_getElem? (h : parts[k]? = some part) :
    (parts.drop k).flatten = part ++ (parts.drop (k + 1)).flatten := by
  obtain ⟨hk, rfl⟩ := List.getElem?_eq_some_iff.mp h
  rw [List.drop_eq_getElem_cons hk, List.flatten_cons]

/-- The next part begins where a part ends. -/
theorem offset_succ (h : parts[k]? = some part) :
    offset parts (k + 1) = offset parts k + part.length := by
  rw [offset, offset, List.take_add_one, h, List.flatten_append, List.length_append]
  simp

/-- Later parts have no fewer characters before them. -/
theorem offset_mono (parts : List (List Char)) (h : k ≤ j) : offset parts k ≤ offset parts j := by
  have htake : parts.take k = (parts.take j).take k := by rw [List.take_take, Nat.min_eq_left h]
  rw [offset, offset, htake, ← take_append_drop_flatten (parts.take j) k, List.length_append]
  exact Nat.le_add_right _ _

/-- A character belongs to one part only. -/
theorem Covers.unique (hk : Covers parts k n) (hj : Covers parts j n) : k = j := by
  rcases Nat.lt_trichotomy k j with hless | hsame | hmore
  · have hbefore := offset_mono parts (Nat.succ_le_of_lt hless)
    exact absurd (Nat.lt_of_lt_of_le hk.2 (Nat.le_trans hbefore hj.1)) (Nat.lt_irrefl _)
  · exact hsame
  · have hbefore := offset_mono parts (Nat.succ_le_of_lt hmore)
    exact absurd (Nat.lt_of_lt_of_le hj.2 (Nat.le_trans hbefore hk.1)) (Nat.lt_irrefl _)

/-- A part that is not empty covers its first character. -/
theorem covers_offset (h : parts[k]? = some part) (hsome : part ≠ []) :
    Covers parts k (offset parts k) := by
  refine ⟨Nat.le_refl _, ?_⟩
  rw [offset_succ h]
  exact Nat.lt_add_of_pos_right (List.length_pos_iff.mpr hsome)

/-- What begins within a part is the rest of it and what follows it. -/
theorem split_of_covers (htext : parts.flatten = others.flatten) (hk : parts[k]? = some part)
    (hcovers : Covers parts k (offset others j)) :
    ∃ inside more, part = inside ++ more ∧ more ≠ [] ∧
      (others.take j).flatten = (parts.take k).flatten ++ inside ∧
      (others.drop j).flatten = more ++ (parts.drop (k + 1)).flatten := by
  obtain ⟨hbegins, hends⟩ := hcovers
  rw [offset_succ hk] at hends
  let count := offset others j - offset parts k
  have hcount : count < part.length := by omega
  have hposition : offset others j = offset parts k + count := by omega
  refine ⟨part.take count, part.drop count, (List.take_append_drop _ _).symm, ?_, ?_, ?_⟩
  · intro hnil
    exact absurd (List.drop_eq_nil_iff.mp hnil) (Nat.not_le_of_lt hcount)
  · rw [← take_offset others j, ← htext, hposition, List.take_add, take_offset, drop_offset,
      drop_flatten_of_getElem? hk, List.take_append_of_le_length (Nat.le_of_lt hcount)]
  · rw [← drop_offset others j, ← htext, hposition, ← List.drop_drop, drop_offset,
      drop_flatten_of_getElem? hk, List.drop_append_of_le_length (Nat.le_of_lt hcount)]

/-- A row of characters of a kind goes up to the first one that is not. -/
theorem takeWhile_append_of_stop {p : Char → Bool} {xs rest : List Char}
    (hxs : ∀ c ∈ xs, p c = true) (hrest : rest.head?.any p = false) :
    (xs ++ rest).takeWhile p = xs := by
  rw [List.takeWhile_append_of_pos hxs]
  cases rest with
  | nil => exact List.append_nil xs
  | cons c more =>
    have hc : p c = false := hrest
    simp [hc]

end ProcessDisplay.Text
