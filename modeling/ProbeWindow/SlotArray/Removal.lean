import ProbeWindow.SlotArray

/-!
# Removal by backward shift

Emptying a slot moves the run behind it forward: every following item that is not at its home
comes one slot closer to it, up to the first empty slot, the first item at home, or the first
sentinel. No marker is left behind, so an array after a removal is one that could have been built
without the removed item.
-/

namespace ProbeWindow.SlotArray

universe u

variable {α : Type u} (s : SlotArray α)

/-- The first index from a given one on whose tag is empty or records offset 0. A sentinel
records offset 0, so the search ends there at the latest. -/
def runEnd (index : Nat) : Nat :=
  if h : s.isOccupied index = true ∧ (s.tag index).offset ≠ 0 then runEnd (index + 1) else index
termination_by s.tags.size - index
decreasing_by
  have := s.lt_size_of_isOccupied h.1
  omega

/-- The array with the content of the next slot copied one slot closer to home. -/
def pull (index : Nat) : SlotArray α :=
  { s with
    tags := s.tags.setIfInBounds index (s.tag (index + 1)).pulled
    items := s.items.setIfInBounds index (s.item? (index + 1)) }

/-- The array with so many slots behind a given one moved forward, the first of them first. -/
def pullRun (start : Nat) : Nat → SlotArray α → SlotArray α
  | 0, s => s
  | n + 1, s => pullRun (start + 1) n (s.pull start)

/-- The array with an occupied slot removed and the gap closed. -/
def erase (index : Nat) : SlotArray α :=
  let stop := s.runEnd (index + 1)
  (pullRun index (stop - index - 1) s).vacate (stop - 1)

@[simp]
theorem capacity_pull (index : Nat) : (s.pull index).capacity = s.capacity := rfl

@[simp]
theorem slotCount_pull (index : Nat) : (s.pull index).slotCount = s.slotCount := by
  simp [pull, slotCount]

@[simp]
theorem capacity_pullRun (start n : Nat) (s : SlotArray α) :
    (pullRun start n s).capacity = s.capacity := by
  induction n generalizing start s with
  | zero => rfl
  | succ n ih => simp [pullRun, ih]

@[simp]
theorem slotCount_pullRun (start n : Nat) (s : SlotArray α) :
    (pullRun start n s).slotCount = s.slotCount := by
  induction n generalizing start s with
  | zero => rfl
  | succ n ih => simp [pullRun, ih]

@[simp]
theorem capacity_erase (index : Nat) : (s.erase index).capacity = s.capacity := by
  simp [erase]

@[simp]
theorem slotCount_erase (index : Nat) : (s.erase index).slotCount = s.slotCount := by
  simp [erase]

end ProbeWindow.SlotArray
