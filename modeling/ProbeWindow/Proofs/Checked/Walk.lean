import ProbeWindow.Proofs.Checked.Slots
import ProbeWindow.Proofs.SlotArray.Walk

/-!
# Walks, step by step

A cursor loads a group at every step, and the sentinels are there so that it can: it loads from
slots only, a group without an occupied lane ends before the sentinels, and a lane that is one of
them ends the walk. A cursor that counts the items to come (`Cursor.Counts`) never counts below
zero.
-/

namespace ProbeWindow

universe u

variable {α : Type u} {s : SlotArray α}

namespace Cursor

/-! ### The steps -/

/-- Skips groups without an occupied lane, which end before the sentinels. -/
def checkedSkip (s : SlotArray α) (position : Nat) : Checked Nat :=
  if position < s.slotCount then
    .require (s.HasGroup position) <|
      if (s.group position).occupied.lowest? = none then
        .require (position + windowWidth ≤ s.slotCount) (checkedSkip s (position + windowWidth))
      else
        .pure position
  else
    .pure position
termination_by s.slotCount - position
decreasing_by
  rename_i h _
  exact Nat.sub_lt_sub_left h (Nat.lt_add_of_pos_right (by decide))

/-- The next slot, which has an item and has been counted, and the cursor behind it. -/
def checkedNext (s : SlotArray α) (c : Cursor) : Checked (Option Nat × Cursor) :=
  (checkedSkip s c.position).andThen fun position ↦
    if position < s.slotCount then
      match (s.group position).occupied.lowest? with
      | some lane =>
        if position + lane < s.slotCount then
          .require (0 < c.remaining ∧ s.Live (position + lane)) <|
            .pure (some (position + lane), ⟨position + lane + 1, c.remaining - 1⟩)
        else
          .pure (none, ⟨s.slotCount, c.remaining⟩)
      | none => .pure (none, ⟨position, c.remaining⟩)
    else
      .pure (none, ⟨position, c.remaining⟩)

/-- Up to so many next slots, and the cursor behind them. -/
def checkedTake (s : SlotArray α) : Nat → Cursor → Checked (List Nat × Cursor)
  | 0, c => .pure ([], c)
  | n + 1, c =>
    (c.checkedNext s).andThen fun step ↦
      match step with
      | (none, c) => .pure ([], c)
      | (some index, c) =>
        (checkedTake s n c).map fun (rest, c) ↦ (index :: rest, c)

/-! ### What they need -/

/-- The items that are still to come. -/
def ahead (s : SlotArray α) (c : Cursor) : List α := s.segment c.position s.slotCount

/-- A cursor counts the items that are still to come. -/
def Counts (s : SlotArray α) (c : Cursor) : Prop := c.remaining = (c.ahead s).length

theorem ahead_start (n : Nat) : (start n).ahead s = s.toList := s.toList_eq_segment.symm

theorem counts_start : (start s.toList.length).Counts s := by
  rw [Counts, ahead_start, start]

/-- **A step goes to the first item to come**, and the cursor behind it counts the others; or no
item is to come. -/
theorem Counts.next_cases (f : SlotArray.Formed s) {c : Cursor} (h : c.Counts s) :
    (∃ i a d, c.next s = (some i, d) ∧ s.item? i = some a ∧ c.ahead s = a :: d.ahead s ∧
      d.Counts s) ∨
    ∃ d, c.next s = (none, d) ∧ c.ahead s = [] ∧ d.Counts s := by
  rcases next_spec f c with ⟨i, a, hnext, hle, ha, hfree⟩ | ⟨p, hnext, hp, hfree⟩
  · have hlt := s.lt_slotCount_of_item? ha
    have hahead : c.ahead s = a :: s.segment (i + 1) s.slotCount := by
      rw [ahead, s.segment_cut _ i _ hle (Nat.le_of_lt hlt), s.segment_eq_nil hfree,
        List.nil_append, s.segment_eq_cons hlt ha]
    rw [Counts, hahead, List.length_cons] at h
    refine .inl ⟨i, a, _, hnext, ha, hahead, ?_⟩
    rw [Counts, h, Nat.add_sub_cancel]
    rfl
  · have hnil : c.ahead s = [] := s.segment_eq_nil fun j h1 _ ↦ hfree j h1
    rw [Counts, hnil] at h
    refine .inr ⟨_, hnext, hnil, ?_⟩
    rw [Counts, ahead, s.segment_eq_nil fun j h1 h2 ↦ by simp only at h1; omega, h]

/-- A cursor that counts the items to come has counted one that is there. -/
theorem Counts.succ_eq {c d : Cursor} (h : c.Counts s) (hd : d.Counts s) {a : α}
    (hahead : c.ahead s = a :: d.ahead s) : c.remaining = d.remaining + 1 := by
  rw [h, hd, hahead, List.length_cons]

end Cursor

namespace SlotArray.Formed

variable (f : Formed s)
include f

/-- A group without an occupied lane ends before the sentinels. -/
theorem add_windowWidth_le {position : Nat} (hlt : position < s.slotCount)
    (hlow : (s.group position).occupied.lowest? = none) :
    position + windowWidth ≤ s.slotCount := by
  by_contra hgt
  have hlane : s.slotCount - position < windowWidth := by omega
  have hfree := (LaneMask.lowest?_eq_none_iff _).mp hlow _ hlane
  rw [s.has_occupied_group _ hlane, Nat.add_sub_cancel' (Nat.le_of_lt hlt),
    f.isOccupied_sentinel (Nat.le_refl _) (Nat.lt_add_of_pos_right (by decide))] at hfree
  cases hfree

theorem checkedSkip (position : Nat) :
    (Cursor.checkedSkip s position).Yields (Cursor.skipVacant s position) := by
  fun_induction Cursor.skipVacant s position with
  | case1 position h ih =>
    rw [Cursor.checkedSkip, if_pos h.1, if_pos h.2]
    exact .require (f.hasGroup (Nat.le_of_lt h.1)) (.require (f.add_windowWidth_le h.1 h.2) ih)
  | case2 position h =>
    rw [Cursor.checkedSkip]
    split_ifs with h1 h2
    · exact absurd ⟨h1, h2⟩ h
    · exact .require (f.hasGroup (Nat.le_of_lt h1)) (.pure _)
    · exact .pure _

/-- **A step of a walk is safe.** -/
theorem checkedNext {c : Cursor} (hc : c.Counts s) : (c.checkedNext s).Yields (c.next s) := by
  have hcases := hc.next_cases f
  refine (f.checkedSkip c.position).andThen ?_
  simp only [Cursor.next] at hcases ⊢
  generalize Cursor.skipVacant s c.position = p at hcases ⊢
  by_cases hlt : p < s.slotCount
  · rw [if_pos hlt] at hcases ⊢
    rw [if_pos hlt]
    cases hlow : (s.group p).occupied.lowest? with
    | none => exact .pure _
    | some lane =>
      simp only [hlow] at hcases ⊢
      by_cases hslot : p + lane < s.slotCount
      · rw [if_pos hslot] at hcases ⊢
        rw [if_pos hslot]
        rcases hcases with ⟨i, a, d, heq, ha, hahead, hd⟩ | ⟨d, heq, -⟩
        · have hcounted := hc.succ_eq hd hahead
          cases heq
          exact .require ⟨by omega, f.live ha⟩ (.pure _)
        · cases heq
      · rw [if_neg hslot, if_neg hslot]
        exact .pure _
  · rw [if_neg hlt, if_neg hlt]
    exact .pure _

/-- **A walk is safe**, however long it is. -/
theorem checkedTake (n : Nat) {c : Cursor} (hc : c.Counts s) :
    (Cursor.checkedTake s n c).Yields (Cursor.take s n c) := by
  induction n generalizing c with
  | zero => exact .pure _
  | succ n ih =>
    refine (f.checkedNext hc).andThen ?_
    rcases hc.next_cases f with ⟨i, a, d, hnext, -, -, hd⟩ | ⟨d, hnext, -⟩
    · rw [Cursor.take, hnext]
      exact (ih hd).map _
    · rw [Cursor.take, hnext]
      exact .pure _

/-- The slots of a walk have items. -/
theorem exists_item_of_mem_take {n : Nat} {c : Cursor} {i : Nat} (h : i ∈ (Cursor.take s n c).1) :
    ∃ a, s.item? i = some a := by
  rw [(Cursor.take_spec f n c).1] at h
  exact Option.isSome_iff_exists.mp (s.mem_occupiedSlots.mp (List.mem_of_mem_take h)).2.2

end SlotArray.Formed

namespace SlotArray

/-! ### Reading many slots -/

/-- Reads the items of some slots, which must have items. -/
def checkedItems (s : SlotArray α) : List Nat → Checked (List α)
  | [] => .pure []
  | i :: is =>
    (s.checkedItem i).andThen fun item ↦ (s.checkedItems is).map (item.toList ++ ·)

/-- Reads the tags at some indices. -/
def checkedTags (s : SlotArray α) : List Nat → Checked (List Tag)
  | [] => .pure []
  | i :: is => (s.checkedTag i).andThen fun tag ↦ (s.checkedTags is).map (tag :: ·)

namespace Formed

variable (f : Formed s)
include f

theorem checkedItems {is : List Nat} (h : ∀ i ∈ is, ∃ a, s.item? i = some a) :
    (s.checkedItems is).Yields (is.filterMap s.item?) := by
  induction is with
  | nil => exact .pure _
  | cons i is ih =>
    obtain ⟨a, ha⟩ := h i List.mem_cons_self
    rw [List.filterMap_cons, ha]
    exact (f.checkedItem ha).andThen ((ih fun j hj ↦ h j (List.mem_cons_of_mem _ hj)).map _)

theorem checkedTags {is : List Nat} (h : ∀ i ∈ is, i < s.slotCount) :
    (s.checkedTags is).Yields (is.map s.tag) := by
  induction is with
  | nil => exact .pure _
  | cons i is ih =>
    exact (f.checkedTag (Nat.le_of_lt (h i List.mem_cons_self))).andThen
      ((ih fun j hj ↦ h j (List.mem_cons_of_mem _ hj)).map _)

/-- The tags of the slots are the first tags. -/
theorem map_tag_range : (List.range s.slotCount).map s.tag = s.tags.toList.take s.slotCount := by
  have htags := f.tagCount_eq
  refine List.ext_getElem (by simp; omega) fun i h1 h2 ↦ ?_
  have hi : i < s.tags.size := by
    rw [List.length_map, List.length_range] at h1
    omega
  simp [tag, Array.getD, hi]

end Formed

end SlotArray

end ProbeWindow
