import ProbeWindow.Proofs.Checked.Basic
import ProbeWindow.Proofs.SlotArray.Placement

/-!
# Access to slots

The accesses that every operation on slots is made of, with their conditions, and the two searches
of a window. Items are read and written at slots below `capacity + maxOffset`, tags are read below
the end of the sentinels and written at slots only, and a group is read from the first sentinel at
the latest, so that it ends with the last one. A slot that is read or moved from has an item, and a
slot that is written or moved to has none.
-/

namespace ProbeWindow

universe u

namespace Tag

variable (t : Tag)

/-- The tag of an item with a fragment and an offset, which must fit their fields. -/
def checkedEncode (fragment : UInt8) (offset : Nat) : Checked Tag :=
  .require (fragment < 8 ∧ offset ≤ maxOffset) (.pure (.encode fragment offset))

/-- The tag of an item one slot further from home, which must not be as far as it can be. -/
def checkedPushed : Checked Tag :=
  .require (t.isOccupied = true ∧ t.offset < maxOffset ∧ t.byte.toNat + 16 < 256) (.pure t.pushed)

/-- The tag of an item one slot closer to home, which must not be at home. -/
def checkedPulled : Checked Tag :=
  .require (t.isOccupied = true ∧ 0 < t.offset ∧ 16 ≤ t.byte.toNat) (.pure t.pulled)

theorem checkedEncode_yields {fragment : UInt8} {offset : Nat} (hf : fragment < 8)
    (ho : offset ≤ maxOffset) :
    (checkedEncode fragment offset).Yields (.encode fragment offset) :=
  .require ⟨hf, ho⟩ (.pure _)

variable {t}

/-- The byte does not overflow. -/
theorem checkedPushed_yields (hocc : t.isOccupied = true) (hoff : t.offset < maxOffset) :
    t.checkedPushed.Yields t.pushed :=
  .require ⟨hocc, hoff, byte_ind (P := fun t ↦ t.offset < maxOffset → t.byte.toNat + 16 < 256)
    (by decide +kernel) t hoff⟩ (.pure _)

/-- The byte does not underflow. -/
theorem checkedPulled_yields (hocc : t.isOccupied = true) (hoff : 0 < t.offset) :
    t.checkedPulled.Yields t.pulled :=
  .require ⟨hocc, hoff, byte_ind (P := fun t ↦ 0 < t.offset → 16 ≤ t.byte.toNat)
    (by decide +kernel) t hoff⟩ (.pure _)

end Tag

namespace SlotArray

variable {α : Type u} (s : SlotArray α)

/-! ### Ranges -/

/-- An index of a slot. -/
structure HasSlot (i : Nat) : Prop where
  /-- The index is that of a home or of an overflow slot. -/
  lt : i < s.capacity + maxOffset
  /-- There is an item cell at the index. -/
  lt_slotCount : i < s.slotCount
  /-- There is a tag at the index. -/
  lt_tagCount : i < s.tags.size

/-- An index of a tag, the sentinels included. -/
structure HasTag (i : Nat) : Prop where
  /-- The index is that of a slot or of a sentinel. -/
  lt : i < s.capacity + maxOffset + windowWidth
  /-- There is a tag at the index. -/
  lt_tagCount : i < s.tags.size

/-- An index from which a group can be read. -/
structure HasGroup (i : Nat) : Prop where
  /-- The index is not behind the first sentinel. -/
  le : i ≤ s.capacity + maxOffset
  /-- All tags of the group are there. -/
  le_tagCount : i + windowWidth ≤ s.tags.size

/-- An index of a slot that has an item, and the tag of one. -/
structure Live (i : Nat) : Prop extends s.HasSlot i where
  /-- The tag is occupied. -/
  isOccupied : s.isOccupied i = true
  /-- The slot has an item. -/
  isSome : (s.item? i).isSome = true

/-! ### Accesses -/

/-- The array with the tag at an index exchanged. -/
def setTag (i : Nat) (g : Tag) : SlotArray α := { s with tags := s.tags.setIfInBounds i g }

/-- The array with the content of a slot exchanged and its tag kept. -/
def setCell (i : Nat) (cell : Option α) : SlotArray α :=
  { s with items := s.items.setIfInBounds i cell }

/-- Reads a group. -/
def checkedGroup (i : Nat) : Checked Group := .require (s.HasGroup i) (.pure (s.group i))

/-- Reads a tag. -/
def checkedTag (i : Nat) : Checked Tag := .require (s.HasTag i) (.pure (s.tag i))

/-- Reads whether a slot is occupied. -/
def checkedOccupied (i : Nat) : Checked Bool := .require (s.HasSlot i) (.pure (s.isOccupied i))

/-- Reads the item of a slot, which must have one. -/
def checkedItem (i : Nat) : Checked (Option α) := .require (s.Live i) (.pure (s.item? i))

/-- Writes the tag of a slot. -/
def checkedSetTag (i : Nat) (g : Tag) : Checked (SlotArray α) :=
  .require (s.HasSlot i) (.pure (s.setTag i g))

/-- Writes an item to a slot, which must have none. -/
def checkedPut (i : Nat) (a : α) : Checked (SlotArray α) :=
  .require (s.HasSlot i ∧ s.item? i = none) (.pure (s.setCell i (some a)))

/-- Moves the item of a slot, which must have one, out of the array. -/
def checkedTakeOut (i : Nat) : Checked (SlotArray α) :=
  .require (s.HasSlot i ∧ (s.item? i).isSome = true) (.pure (s.setCell i none))

/-- Moves the item of a slot, which must have one, to another slot, which must have none. -/
def checkedMove (i j : Nat) : Checked (SlotArray α) :=
  .require (s.HasSlot i ∧ s.HasSlot j ∧ (s.item? i).isSome = true ∧ s.item? j = none)
    (.pure ((s.setCell j (s.item? i)).setCell i none))

section Cells

variable (i : Nat) (g : Tag) (cell : Option α) (j : Nat)

@[simp]
theorem capacity_setTag : (s.setTag i g).capacity = s.capacity := rfl

@[simp]
theorem slotCount_setTag : (s.setTag i g).slotCount = s.slotCount := rfl

@[simp]
theorem size_tags_setTag : (s.setTag i g).tags.size = s.tags.size := Array.size_setIfInBounds ..

@[simp]
theorem item?_setTag : (s.setTag i g).item? j = s.item? j := rfl

theorem tag_setTag :
    (s.setTag i g).tag j = if j = i ∧ i < s.tags.size then g else s.tag j :=
  s.tag_of_tags_set rfl j

@[simp]
theorem capacity_setCell : (s.setCell i cell).capacity = s.capacity := rfl

@[simp]
theorem slotCount_setCell : (s.setCell i cell).slotCount = s.slotCount :=
  Array.size_setIfInBounds ..

@[simp]
theorem tags_setCell : (s.setCell i cell).tags = s.tags := rfl

@[simp]
theorem tag_setCell : (s.setCell i cell).tag j = s.tag j := rfl

theorem item?_setCell :
    (s.setCell i cell).item? j = if j = i ∧ i < s.slotCount then cell else s.item? j :=
  s.item?_of_items_set rfl j

variable {s j} in
theorem HasSlot.setTag (h : s.HasSlot j) : (s.setTag i g).HasSlot j :=
  ⟨h.lt, h.lt_slotCount, by rw [size_tags_setTag]; exact h.lt_tagCount⟩

variable {s j} in
theorem HasSlot.setCell (h : s.HasSlot j) : (s.setCell i cell).HasSlot j :=
  ⟨h.lt, by rw [slotCount_setCell]; exact h.lt_slotCount, h.lt_tagCount⟩

end Cells

/-! ### Searches of a window -/

/-- Compares the items of some lanes, which must have items, up to the first that passes a test. -/
def checkedCompare (home : Nat) (test : α → Bool) : List Nat → Checked (Option (Occupant α))
  | [] => .pure none
  | lane :: lanes =>
    (s.checkedItem (home + lane)).andThen fun item ↦
      match item.filter test with
      | some a => .pure (some ⟨home + lane, a⟩)
      | none => checkedCompare home test lanes

/-- The resident of the window of `home` with the given fragment that passes a test. -/
def checkedSearch (home : Nat) (fragment : UInt8) (test : α → Bool) :
    Checked (Option (Occupant α)) :=
  .require (home < s.capacity ∧ fragment < 8) <|
    (s.checkedGroup home).andThen fun group ↦
      let limit := group.vacant.lowest?.getD windowWidth
      s.checkedCompare home test ((group.probe fragment).below limit).lanes

/-- The first of some lanes whose tag has a property. -/
def checkedFirst (home : Nat) (p : Nat → Tag → Bool) : List Nat → Checked (Option Nat)
  | [] => .pure none
  | lane :: lanes =>
    (s.checkedTag (home + lane)).andThen fun tag ↦
      if p lane tag then .pure (some lane) else checkedFirst home p lanes

/-- Where an item with the given home goes, or `none` when there is no room. -/
def checkedVacancy (home : Nat) : Checked (Option Vacancy) :=
  .require (home < s.capacity) <|
    (s.checkedGroup home).andThen fun group ↦
      match group.vacant.lowest? with
      | none => .pure none
      | some empty =>
        (s.checkedFirst home (fun lane tag ↦ tag.offset < lane) (List.range empty)).andThen
          fun found ↦
            let steal := found.getD empty
            (s.checkedFirst home (fun _ tag ↦ tag.offset == maxOffset)
              (List.range' steal (empty - steal))).map
              fun stuck ↦ if stuck.isSome then none else some ⟨steal, empty⟩

variable {s}

namespace Formed

variable (f : Formed s) {i : Nat}
include f

theorem hasSlot (hi : i < s.slotCount) : s.HasSlot i := by
  refine ⟨f.slotCount_eq ▸ hi, hi, ?_⟩
  rw [f.tagCount_eq]
  exact Nat.lt_add_right _ hi

theorem hasTag (hi : i ≤ s.slotCount) : s.HasTag i := by
  have hcount := f.slotCount_eq
  have htags := f.tagCount_eq
  simp only [windowWidth] at htags
  exact ⟨by simp only [windowWidth]; omega, by omega⟩

theorem hasGroup (hi : i ≤ s.slotCount) : s.HasGroup i := by
  refine ⟨f.slotCount_eq ▸ hi, ?_⟩
  rw [f.tagCount_eq]
  exact Nat.add_le_add_right hi _

theorem live {a : α} (h : s.item? i = some a) : s.Live i :=
  ⟨f.hasSlot (s.lt_slotCount_of_item? h), f.isOccupied_of_item i a h, by rw [h]; rfl⟩

theorem checkedGroup (hi : i ≤ s.slotCount) : (s.checkedGroup i).Yields (s.group i) :=
  .require (f.hasGroup hi) (.pure _)

theorem checkedTag (hi : i ≤ s.slotCount) : (s.checkedTag i).Yields (s.tag i) :=
  .require (f.hasTag hi) (.pure _)

theorem checkedOccupied (hi : i < s.slotCount) : (s.checkedOccupied i).Yields (s.isOccupied i) :=
  .require (f.hasSlot hi) (.pure _)

theorem checkedItem {a : α} (h : s.item? i = some a) : (s.checkedItem i).Yields (some a) :=
  .require (f.live h) ((Checked.Yields.pure _).trans h)

variable {home : Nat}

theorem checkedCompare (test : α → Bool) {lanes : List Nat}
    (h : ∀ lane ∈ lanes, ∃ a, s.item? (home + lane) = some a) :
    (s.checkedCompare home test lanes).Yields (lanes.findSome? fun lane ↦
      (s.occupant? (home + lane)).filter fun o ↦ test o.item) := by
  induction lanes with
  | nil => exact .pure _
  | cons lane lanes ih =>
    obtain ⟨a, ha⟩ := h lane List.mem_cons_self
    refine (f.checkedItem ha).andThen ?_
    rw [List.findSome?_cons, occupant?, ha, Option.map_some, Option.filter_some,
      Option.filter_some]
    cases test a with
    | true => exact .pure _
    | false => exact ih fun lane hlane ↦ h lane (List.mem_cons_of_mem _ hlane)

/-- **A search of a window reads items only**: the candidates of a probe have items. -/
theorem checkedSearch (hhome : home < s.capacity) {fragment : UInt8} (hf : fragment < 8)
    (test : α → Bool) :
    (s.checkedSearch home fragment test).Yields (s.search? home fragment test) := by
  have hcount := f.slotCount_eq
  simp only [maxOffset, windowWidth] at hcount
  refine .require ⟨hhome, hf⟩ ((f.checkedGroup (by omega)).andThen ?_)
  refine f.checkedCompare test fun lane hlane ↦ ?_
  obtain ⟨hlt, hhas⟩ := (LaneMask.mem_lanes _).mp hlane
  rw [LaneMask.has_below _ hlt, has_probe_group s _ _ hlt, Bool.and_eq_true, beq_iff_eq] at hhas
  simp only [windowWidth] at hlt
  refine f.exists_item (by omega) ?_
  rw [isOccupied, hhas.1]
  exact Tag.isOccupied_encode hf (by simp only [maxOffset, windowWidth]; omega)

theorem checkedFirst (p : Nat → Tag → Bool) {lanes : List Nat}
    (h : ∀ lane ∈ lanes, home + lane ≤ s.slotCount) :
    (s.checkedFirst home p lanes).Yields (lanes.find? fun lane ↦ p lane (s.tag (home + lane))) := by
  induction lanes with
  | nil => exact .pure _
  | cons lane lanes ih =>
    refine (f.checkedTag (h lane List.mem_cons_self)).andThen ?_
    rw [List.find?_cons]
    cases p lane (s.tag (home + lane)) with
    | true => exact .pure _
    | false => exact ih fun lane hlane ↦ h lane (List.mem_cons_of_mem _ hlane)

/-- **A search for a vacancy reads tags of slots only.** -/
theorem checkedVacancy (hhome : home < s.capacity) :
    (s.checkedVacancy home).Yields (s.vacancy? home) := by
  have hcount := f.slotCount_eq
  refine .require hhome ((f.checkedGroup (by omega)).andThen ?_)
  rw [vacancy?]
  cases hlow : (s.group home).vacant.lowest? with
  | none => exact .pure _
  | some empty =>
    obtain ⟨hlt, -⟩ := (LaneMask.lowest?_eq_some_iff _).mp hlow
    simp only [maxOffset, windowWidth] at hcount hlt
    refine (f.checkedFirst _ fun lane hlane ↦ ?_).andThen ?_
    · have := List.mem_range.mp hlane
      omega
    refine ((f.checkedFirst _ fun lane hlane ↦ ?_).map _).trans ?_
    · have := List.mem_range'_1.mp hlane
      have := (s.stealLane_spec home empty).1
      omega
    · rw [List.isSome_find?]
      rfl

end Formed

end SlotArray

end ProbeWindow
