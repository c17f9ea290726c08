import ProbeWindow.Group

/-!
# Slot arrays

The slots of a table and the tags beside them. Homes range over `0 … capacity - 1`; behind the
last home lie `maxOffset` overflow slots, so that its window is complete, and behind the last
slot lie `windowWidth` sentinel tags, so that a group can be read from every slot on.

A slot array knows nothing about hashes or keys. An item is in its place when its tag says so:
`items` and `tags` are written together by every operation.
-/

namespace ProbeWindow

universe u

/-- Slots with their tags. -/
structure SlotArray (α : Type u) where
  /-- The number of homes. -/
  capacity : Nat
  /-- The tag of each slot, then the sentinels. -/
  tags : Array Tag
  /-- The item of each slot. -/
  items : Array (Option α)

/-- An item together with the slot that holds it. -/
structure Occupant (α : Type u) where
  /-- The index of the slot. -/
  index : Nat
  /-- The item in it. -/
  item : α

namespace SlotArray

variable {α : Type u}

/-- No slots at all: the array of a table that has not allocated. -/
def unallocated : SlotArray α := ⟨0, #[], #[]⟩

/-- Empty slots for a capacity, closed by the sentinels. -/
def blank (capacity : Nat) : SlotArray α where
  capacity := capacity
  tags := Array.replicate (capacity + maxOffset) Tag.empty ++
    Array.replicate windowWidth Tag.sentinel
  items := Array.replicate (capacity + maxOffset) none

variable (s : SlotArray α)

/-- The number of slots, the overflow slots included. -/
def slotCount : Nat := s.items.size

/-- The tag at an index; past the sentinels every tag reads as empty. -/
def tag (index : Nat) : Tag := s.tags.getD index .empty

/-- Whether the tag at an index is occupied. -/
def isOccupied (index : Nat) : Bool := (s.tag index).isOccupied

/-- The item in a slot. -/
def item? (index : Nat) : Option α := s.items.getD index none

/-- The item in a slot, with its index. -/
def occupant? (index : Nat) : Option (Occupant α) := (s.item? index).map (⟨index, ·⟩)

/-- The items in slot order. -/
def toList : List α := s.items.toList.filterMap id

/-- The tags of the window that starts at an index. -/
def group (index : Nat) : Group := ⟨Vector.ofFn fun k ↦ s.tag (index + k)⟩

/-- The array with an item and its tag written to a slot. -/
def write (index : Nat) (tag : Tag) (item : α) : SlotArray α :=
  { s with
    tags := s.tags.setIfInBounds index tag
    items := s.items.setIfInBounds index (some item) }

/-- The array with a slot emptied. -/
def vacate (index : Nat) : SlotArray α :=
  { s with
    tags := s.tags.setIfInBounds index .empty
    items := s.items.setIfInBounds index none }

/-- The array with the item of a slot exchanged and its tag kept. -/
def setItem (index : Nat) (item : α) : SlotArray α :=
  { s with items := s.items.setIfInBounds index (some item) }

@[simp]
theorem capacity_unallocated : (unallocated : SlotArray α).capacity = 0 := rfl

@[simp]
theorem capacity_blank (capacity : Nat) : (blank capacity : SlotArray α).capacity = capacity :=
  rfl

@[simp]
theorem slotCount_blank (capacity : Nat) :
    (blank capacity : SlotArray α).slotCount = capacity + maxOffset := by
  simp [blank, slotCount]

@[simp]
theorem capacity_write (index : Nat) (tag : Tag) (item : α) :
    (s.write index tag item).capacity = s.capacity := rfl

@[simp]
theorem capacity_vacate (index : Nat) : (s.vacate index).capacity = s.capacity := rfl

@[simp]
theorem slotCount_vacate (index : Nat) : (s.vacate index).slotCount = s.slotCount := by
  simp [vacate, slotCount]

@[simp]
theorem slotCount_setItem (index : Nat) (item : α) :
    (s.setItem index item).slotCount = s.slotCount := by
  simp [setItem, slotCount]

/-- An occupied tag is a tag of the array. -/
theorem lt_size_of_isOccupied {index : Nat} (h : s.isOccupied index = true) :
    index < s.tags.size := by
  refine Nat.lt_of_not_le fun hle ↦ ?_
  simp [isOccupied, tag, Array.getD, Nat.not_lt.mpr hle, Tag.not_isOccupied_empty] at h

end SlotArray

end ProbeWindow
