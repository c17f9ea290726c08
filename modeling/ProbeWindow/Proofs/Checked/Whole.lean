import ProbeWindow.Proofs.Checked.Block
import ProbeWindow.Proofs.Checked.Table
import ProbeWindow.Proofs.Checked.Walk
import ProbeWindow.Proofs.Table.Iteration
import ProbeWindow.Table.Description
import ProbeWindow.Table.Statistics

/-!
# Operations on whole tables, step by step

Clearing and dropping, the walks that leave the items where they are, and the reports that read all
tags.
-/

namespace ProbeWindow

universe u v

variable {α : Type u} {κ : Type v} [BEq κ] {key : α → κ}

namespace Table

variable {t : Table key}

/-! ### Clearing and dropping -/

section Clear

variable (t)

/-- The table without its items, all of which must have been counted. -/
def checkedClear : Checked (Table key) :=
  if t.capacity = 0 then
    .pure { t with rehashPending := false }
  else
    (t.slots.checkedDestroyAll t.size).map fun slots ↦
      { t with slots := slots, size := 0, rehashPending := false }

/-- Drops the table: its items, and then its slots, none of which may have an item. -/
def checkedDrop : Checked Unit :=
  t.checkedClear.andThen fun t ↦ .require (∀ i, t.slots.item? i = none) (.pure ())

end Clear

namespace WellFormed

variable (h : t.WellFormed)
include h

theorem clear : t.clear.WellFormed := by
  rcases h with h | h
  · rw [clear_of_capacity_eq_zero h.capacity_eq]
    exact .inl ⟨h.slots_eq, h.size_eq⟩
  · have hclear := Table.clear_eq h.formed h.offered.pos h.size_eq
    refine .inr ⟨?_, ?_, ?_, ?_⟩
    · rw [hclear]
      exact SlotArray.formed_blank t.capacity
    · rw [setup_clear, capacity_clear]
      exact h.offered
    · rw [hclear, toList, SlotArray.toList_blank]
      rfl
    · rw [capacity_clear]
      exact h.tags_lt

/-- **Clearing is safe**: when the loop is done, no item is left to count. -/
theorem checkedClear : t.checkedClear.Yields t.clear := by
  rw [Table.checkedClear]
  rcases h with h | h
  · rw [if_pos h.capacity_eq, clear_of_capacity_eq_zero h.capacity_eq]
    exact .pure _
  · rw [if_neg (Nat.ne_of_gt h.offered.pos), Table.clear_eq h.formed h.offered.pos h.size_eq]
    exact (h.formed.checkedDestroyAll h.size_eq).map _

/-- **Dropping is safe.** -/
theorem checkedDrop : t.checkedDrop.Yields () := by
  refine h.checkedClear.andThen (.require (fun i ↦ ?_) (.pure ()))
  rcases h with h | h
  · rw [clear_of_capacity_eq_zero h.capacity_eq]
    exact h.item?_eq i
  · rw [Table.clear_eq h.formed h.offered.pos h.size_eq]
    exact SlotArray.item?_blank _ i

end WellFormed

/-! ### Borrowing walks -/

section Walk

variable (t)

/-- Up to so many next items of a walk, and the cursor behind them. -/
def checkedWalk (n : Nat) (c : Cursor) : Checked (List α × Cursor) :=
  (Cursor.checkedTake t.slots n c).andThen fun (indices, c) ↦
    (t.slots.checkedItems indices).map fun items ↦ (items, c)

/-- A function is applied to the items of some slots, which must have items. -/
def checkedUpdateEach (f : α → α) : List Nat → Table key → List α → Checked (Table key × List α)
  | [], t, items => .pure (t, items)
  | index :: indices, t, items =>
    (t.slots.checkedItem index).andThen fun item ↦
      match item with
      | none => checkedUpdateEach f indices t items
      | some a =>
        (t.checkedUpdate ⟨index, a⟩ f).andThen fun (t, b) ↦
          checkedUpdateEach f indices t (b :: items)

/-- A walk that applies a function to up to so many items. -/
def checkedWalkUpdating (f : α → α) (n : Nat) : Checked (Table key × List α × Cursor) :=
  (Cursor.checkedTake t.slots n t.cursor).andThen fun (indices, c) ↦
    (checkedUpdateEach f indices t []).map fun (t, items) ↦ (t, items.reverse, c)

end Walk

/-- A walk over no slots is over. -/
theorem Bare.checkedNext (h : t.Bare) (c : Cursor) :
    (c.checkedNext t.slots).Yields (none, c) ∧ c.next t.slots = (none, c) := by
  have hcount : ¬c.position < t.slots.slotCount := by
    rw [h.slots_eq]
    exact Nat.not_lt_zero _
  have hskip : Cursor.skipVacant t.slots c.position = c.position := by
    rw [Cursor.skipVacant, if_neg fun hcond ↦ hcount hcond.1]
  have hsafe : (Cursor.checkedSkip t.slots c.position).Yields c.position := by
    rw [Cursor.checkedSkip, if_neg hcount]
    exact .pure _
  constructor
  · refine hsafe.andThen ?_
    rw [if_neg hcount]
    exact .pure _
  · rw [Cursor.next, hskip]
    exact if_neg hcount

theorem Bare.checkedTake (h : t.Bare) (n : Nat) (c : Cursor) :
    (Cursor.checkedTake t.slots n c).Yields ([], c) ∧ Cursor.take t.slots n c = ([], c) := by
  obtain ⟨hsafe, hnext⟩ := h.checkedNext c
  cases n with
  | zero => exact ⟨.pure _, rfl⟩
  | succ n => exact ⟨hsafe.andThen (.pure _), by rw [Cursor.take, hnext]⟩

namespace WellFormed

variable (h : t.WellFormed)
include h

theorem counts_cursor : t.cursor.Counts t.slots := by
  rw [Table.cursor, h.size_eq]
  exact Cursor.counts_start

theorem checkedNext {c : Cursor} (hc : c.Counts t.slots) :
    (c.checkedNext t.slots).Yields (c.next t.slots) := by
  rcases h with h | h
  · exact (h.checkedNext c).1.trans (h.checkedNext c).2.symm
  · exact h.formed.checkedNext hc

/-- A step of a walk over a table goes to the first item to come, if there is one. -/
theorem next_cases {c : Cursor} (hc : c.Counts t.slots) :
    (∃ i a d, c.next t.slots = (some i, d) ∧ t.slots.item? i = some a ∧
      c.ahead t.slots = a :: d.ahead t.slots ∧ d.Counts t.slots) ∨
    ∃ d, c.next t.slots = (none, d) ∧ c.ahead t.slots = [] ∧ d.Counts t.slots := by
  rcases h with h | h
  · exact .inr ⟨c, (h.checkedNext c).2, t.slots.segment_eq_nil fun i _ _ ↦ h.item?_eq i, hc⟩
  · exact hc.next_cases h.formed

theorem checkedTake (n : Nat) {c : Cursor} (hc : c.Counts t.slots) :
    (Cursor.checkedTake t.slots n c).Yields (Cursor.take t.slots n c) := by
  rcases h with h | h
  · exact (h.checkedTake n c).1.trans (h.checkedTake n c).2.symm
  · exact h.formed.checkedTake n hc

theorem exists_item_of_mem_take {n : Nat} {c : Cursor} {i : Nat}
    (hi : i ∈ (Cursor.take t.slots n c).1) : ∃ a, t.slots.item? i = some a := by
  rcases h with h | h
  · rw [(h.checkedTake n c).2] at hi
    cases hi
  · exact h.formed.exists_item_of_mem_take hi

theorem checkedItem {i : Nat} {a : α} (hi : t.slots.item? i = some a) :
    (t.slots.checkedItem i).Yields (some a) :=
  (h.allocated_of_item hi).formed.checkedItem hi

/-- **A walk is safe.** -/
theorem checkedWalk (n : Nat) {c : Cursor} (hc : c.Counts t.slots) :
    (t.checkedWalk n c).Yields (t.walk n c) := by
  refine (h.checkedTake n hc).andThen ?_
  have hitems : (t.slots.checkedItems (Cursor.take t.slots n c).1).Yields
      ((Cursor.take t.slots n c).1.filterMap t.slots.item?) := by
    rcases h with h | h
    · rw [(h.checkedTake n c).2]
      exact .pure _
    · exact h.formed.checkedItems fun i hi ↦ h.formed.exists_item_of_mem_take hi
  exact hitems.map _

end WellFormed

/-- A walk that changes items finds an item in each of its slots. -/
theorem WellFormed.checkedUpdateEach {t : Table key} (h : t.WellFormed) (f : α → α)
    (indices : List Nat) (hi : ∀ i ∈ indices, ∃ a, t.slots.item? i = some a) (items : List α) :
    (checkedUpdateEach f indices t items).Yields (indices.foldl (updateStep f) (t, items)) ∧
      (indices.foldl (updateStep f) (t, items)).1.WellFormed := by
  induction indices generalizing t items with
  | nil => exact ⟨.pure _, h⟩
  | cons index indices ih =>
    obtain ⟨a, ha⟩ := hi index List.mem_cons_self
    have hkept : ∀ i ∈ indices, ∃ b, (t.update ⟨index, a⟩ f).1.slots.item? i = some b :=
      fun i hmem ↦ by
        obtain ⟨b, hb⟩ := hi i (List.mem_cons_of_mem _ hmem)
        show ∃ b, (t.slots.setItem index (f a)).item? i = some b
        rw [SlotArray.item?_setItem]
        split
        · exact ⟨_, rfl⟩
        · exact ⟨b, hb⟩
    obtain ⟨hyields, hwell⟩ := ih (h.update (o := ⟨index, a⟩) ha f) hkept (f a :: items)
    rw [List.foldl_cons, updateStep_eq f ha]
    exact ⟨(h.checkedItem ha).andThen
      ((h.checkedUpdate (o := ⟨index, a⟩) ha f).andThen hyields), hwell⟩

/-- **A walk that changes items is safe**, and leaves the table well-formed. -/
theorem WellFormed.checkedWalkUpdating (h : t.WellFormed) (f : α → α) (n : Nat) :
    (t.checkedWalkUpdating f n).Yields (t.walkUpdating f n) ∧
      (t.walkUpdating f n).1.WellFormed := by
  obtain ⟨hyields, hwell⟩ := h.checkedUpdateEach f (Cursor.take t.slots n t.cursor).1
    (fun i hi ↦ h.exists_item_of_mem_take hi) []
  exact ⟨(h.checkedTake n h.counts_cursor).andThen (hyields.map _), hwell⟩

/-! ### Reports -/

section Reports

variable (t)

/-- The picture of the slots. -/
def checkedPicture : Checked (List String) :=
  (t.slots.checkedTags (List.range t.slots.slotCount)).map
    (SlotArray.pictureRows ((t.slots.slotCount + windowWidth - 1) / windowWidth))

/-- How far the items are from their homes; there is a counter for every distance. -/
def checkedHistogram : Checked ProbeHistogram :=
  (t.slots.checkedTags (List.range t.slots.slotCount)).andThen fun tags ↦
    let offsets := tags.filterMap fun tag ↦ if tag.isOccupied then some tag.offset else none
    .require (∀ offset ∈ offsets, offset < windowWidth) <|
      .pure ⟨(List.range windowWidth).map fun offset ↦ offsets.count offset⟩

end Reports

namespace WellFormed

variable (h : t.WellFormed)
include h

/-- The tags of all slots can be read. -/
theorem checkedTags : (t.slots.checkedTags (List.range t.slots.slotCount)).Yields
    (t.slots.tags.toList.take t.slots.slotCount) := by
  rcases h with h | h
  · rw [h.slots_eq]
    exact .pure _
  · rw [← h.formed.map_tag_range]
    exact h.formed.checkedTags fun i hi ↦ List.mem_range.mp hi

theorem checkedPicture : t.checkedPicture.Yields t.slots.picture := h.checkedTags.map _

/-- **Reading the tags is safe**, and there is a counter for every offset. -/
theorem checkedHistogram : t.checkedHistogram.Yields t.probeHistogram := by
  refine h.checkedTags.andThen (.require (fun offset hoffset ↦ ?_) (.pure _))
  obtain ⟨tag, -, htag⟩ := List.mem_filterMap.mp hoffset
  split at htag
  · cases htag
    exact Nat.lt_succ_of_le tag.offset_le
  · cases htag

end WellFormed

end Table

end ProbeWindow
