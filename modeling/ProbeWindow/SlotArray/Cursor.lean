import ProbeWindow.SlotArray

/-!
# Cursors

A **cursor** walks the occupied slots in ascending order. It reads a whole group at a time: from
its position it goes to the lowest occupied lane, and past a group without one it goes on by the
width of a window. The sentinels look occupied, so a walk never leaves the array; a lane at or
behind the first sentinel is the end.

A cursor also counts the items that are still to come, so that its length is known in advance.
-/

namespace ProbeWindow

universe u

/-- A position in a walk over the occupied slots. -/
structure Cursor where
  /-- The slot where the walk goes on. -/
  position : Nat
  /-- The number of items still to come. -/
  remaining : Nat
deriving DecidableEq, Repr

namespace Cursor

variable {α : Type u} (s : SlotArray α)

/-- The start of a walk over so many items. -/
def start (size : Nat) : Cursor := ⟨0, size⟩

/-- The first position from a given one on, in steps of a window, whose group has an occupied
lane; a position at or behind the end of the array when there is none. -/
def skipVacant (position : Nat) : Nat :=
  if position < s.slotCount ∧ (s.group position).occupied.lowest? = none then
    skipVacant (position + windowWidth)
  else
    position
termination_by s.slotCount - position
decreasing_by
  rename_i h
  exact Nat.sub_lt_sub_left h.1 (Nat.lt_add_of_pos_right (by decide))

/-- The next occupied slot, and the cursor behind it. -/
def next (c : Cursor) : Option Nat × Cursor :=
  let position := skipVacant s c.position
  if position < s.slotCount then
    match (s.group position).occupied.lowest? with
    | some lane =>
      if position + lane < s.slotCount then
        (some (position + lane), ⟨position + lane + 1, c.remaining - 1⟩)
      else
        (none, ⟨s.slotCount, c.remaining⟩)
    | none => (none, ⟨position, c.remaining⟩)
  else
    (none, ⟨position, c.remaining⟩)

/-- Up to so many next occupied slots, and the cursor behind them. -/
def take (s : SlotArray α) : Nat → Cursor → List Nat × Cursor
  | 0, c => ([], c)
  | n + 1, c =>
    match c.next s with
    | (none, c) => ([], c)
    | (some index, c) =>
      let (rest, c) := take s n c
      (index :: rest, c)

/-- What is known about the number of items to come: it is exact. -/
def sizeHint (c : Cursor) : Nat × Option Nat := (c.remaining, some c.remaining)

theorem le_skipVacant (position : Nat) : position ≤ skipVacant s position := by
  fun_induction skipVacant s position with
  | case1 position h ih => exact Nat.le_trans (Nat.le_add_right ..) ih
  | case2 => exact Nat.le_refl _

/-- A step that finds a slot starts below the end of the array and moves past that slot. -/
theorem next_eq_some {c d : Cursor} {index : Nat} (h : c.next s = (some index, d)) :
    c.position < s.slotCount ∧ c.position < d.position := by
  have hle := le_skipVacant s c.position
  simp only [next] at h
  split at h
  · rename_i hlt
    split at h
    · split at h
      · cases h
        exact ⟨Nat.lt_of_le_of_lt hle hlt, by simp only; omega⟩
      · cases h
    · cases h
  · cases h

end Cursor

end ProbeWindow
