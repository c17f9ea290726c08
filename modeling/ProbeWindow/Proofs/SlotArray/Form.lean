import ProbeWindow.Proofs.SlotArray.Cells
import ProbeWindow.Proofs.SlotArray.Lanes

/-!
# Arrays in form

What holds of a slot array whatever happens to its items: there are as many slots and tags as the
capacity calls for, the sentinels are behind the slots, and the slots with an item are those with an
occupied tag. Nothing is said about hashes or homes. A user who changes items in place can bring
them out of order, and then look-ups miss them, but cannot bring the array out of form.
-/

namespace ProbeWindow.SlotArray

universe u

variable {α : Type u} {s : SlotArray α}

/-- The tags say which slots have items, and the sentinels close the array. -/
structure Formed (s : SlotArray α) : Prop where
  /-- There is a slot for every home, and the overflow slots. -/
  slotCount_eq : s.slotCount = s.capacity + maxOffset
  /-- There is a tag for every slot, and the sentinels. -/
  tagCount_eq : s.tags.size = s.slotCount + windowWidth
  /-- Behind the last slot are the sentinels. -/
  tag_sentinel : ∀ i, s.slotCount ≤ i → i < s.slotCount + windowWidth → s.tag i = .sentinel
  /-- A slot without an item has the empty tag. -/
  tag_vacant : ∀ i, i < s.slotCount → s.item? i = none → s.tag i = .empty
  /-- A slot with an item has an occupied tag. -/
  isOccupied_of_item : ∀ i a, s.item? i = some a → s.isOccupied i = true

theorem item?_blank (capacity i : Nat) : (blank capacity : SlotArray α).item? i = none := by
  simp only [item?, blank, Array.getD_eq_getD_getElem?, Array.getElem?_replicate]
  split <;> rfl

/-- Blank slots are in form. -/
theorem formed_blank (capacity : Nat) : Formed (blank capacity : SlotArray α) := by
  constructor
  case slotCount_eq => exact slotCount_blank capacity
  case tagCount_eq => simp [blank, slotCount]
  case tag_sentinel =>
    intro i h1 h2
    rw [slotCount_blank] at h1 h2
    rw [tag, blank, Array.getD_eq_getD_getElem?, Array.getElem?_append_right (by simpa using h1),
      Array.getElem?_replicate, if_pos (by rw [Array.size_replicate]; omega)]
    rfl
  case tag_vacant =>
    intro i h1 _
    rw [slotCount_blank] at h1
    rw [tag, blank, Array.getD_eq_getD_getElem?, Array.getElem?_append_left (by simpa using h1),
      Array.getElem?_replicate, if_pos h1]
    rfl
  case isOccupied_of_item => simp [item?_blank]

theorem toList_blank (capacity : Nat) : (blank capacity : SlotArray α).toList = [] := by
  simp [toList, blank]

theorem toList_unallocated : (unallocated : SlotArray α).toList = [] := rfl

namespace Formed

variable (f : Formed s) {i : Nat} {a : α}
include f

theorem not_isOccupied (hi : i < s.slotCount) (h : s.item? i = none) : s.isOccupied i = false := by
  rw [isOccupied, f.tag_vacant i hi h]
  rfl

theorem isOccupied_eq_isSome (hi : i < s.slotCount) : s.isOccupied i = (s.item? i).isSome := by
  cases h : s.item? i with
  | none => exact f.not_isOccupied hi h
  | some a => exact f.isOccupied_of_item i a h

/-- A slot with an occupied tag has an item. -/
theorem exists_item (hi : i < s.slotCount) (h : s.isOccupied i = true) :
    ∃ a, s.item? i = some a := by
  rw [f.isOccupied_eq_isSome hi] at h
  exact Option.isSome_iff_exists.mp h

/-- A slot without an occupied tag has none. -/
theorem item?_eq_none (hi : i < s.slotCount) (h : s.isOccupied i = false) : s.item? i = none := by
  rwa [f.isOccupied_eq_isSome hi, Option.isSome_eq_false_iff, Option.isNone_iff_eq_none] at h

theorem isOccupied_sentinel (h1 : s.slotCount ≤ i) (h2 : i < s.slotCount + windowWidth) :
    s.isOccupied i = true := by
  rw [isOccupied, f.tag_sentinel i h1 h2]
  exact Tag.isOccupied_sentinel

/-- The slots in which the tag says that there is an item are those that have one. -/
theorem countP_isOccupied : (List.range s.slotCount).countP s.isOccupied = s.toList.length := by
  rw [toList_eq_filterMap, List.length_filterMap_eq_countP]
  refine List.countP_congr fun i hi ↦ ?_
  rw [f.isOccupied_eq_isSome (List.mem_range.mp hi)]

/-- **One slot may be exchanged for another**, whose tag says whether there is an item. -/
theorem exchange {t : SlotArray α} (hi : i < s.slotCount) (hcapacity : t.capacity = s.capacity)
    (hcount : t.slotCount = s.slotCount) (htagCount : t.tags.size = s.tags.size)
    (htag : ∀ j, j ≠ i → t.tag j = s.tag j) (hitem : ∀ j, j ≠ i → t.item? j = s.item? j)
    (hvacant : t.item? i = none → t.tag i = .empty)
    (hoccupied : ∀ b, t.item? i = some b → t.isOccupied i = true) : Formed t := by
  constructor
  case slotCount_eq => rw [hcount, hcapacity, f.slotCount_eq]
  case tagCount_eq => rw [htagCount, hcount, f.tagCount_eq]
  case tag_sentinel =>
    intro j h1 h2
    rw [hcount] at h1 h2
    rw [htag j (by omega), f.tag_sentinel j h1 h2]
  case tag_vacant =>
    intro j h1 h2
    rw [hcount] at h1
    by_cases hj : j = i
    · subst hj
      exact hvacant h2
    · rw [hitem j hj] at h2
      rw [htag j hj, f.tag_vacant j h1 h2]
  case isOccupied_of_item =>
    intro j b hb
    by_cases hj : j = i
    · subst hj
      exact hoccupied b hb
    · rw [hitem j hj] at hb
      rw [isOccupied, htag j hj]
      exact f.isOccupied_of_item j b hb

/-- **Any item may be exchanged for any other.** -/
theorem setItem (h : s.item? i = some a) (b : α) : Formed (s.setItem i b) := by
  have hi := s.lt_slotCount_of_item? h
  refine f.exchange hi rfl (s.slotCount_setItem i b) rfl (fun j _ ↦ rfl) (fun j hj ↦ ?_)
    (fun hnone ↦ ?_) fun _ _ ↦ f.isOccupied_of_item i a h
  · rw [item?_setItem, if_neg fun h ↦ hj h.1]
  · rw [item?_setItem, if_pos ⟨rfl, hi⟩] at hnone
    cases hnone

end Formed

theorem toList_setItem {i : Nat} (hi : i < s.slotCount) (b : α) :
    (s.setItem i b).toList = s.segment 0 i ++ b :: s.segment (i + 1) s.slotCount := by
  have hitem : (s.setItem i b).item? i = some b := by rw [item?_setItem, if_pos ⟨rfl, hi⟩]
  rw [toList_of_item? _ hitem, slotCount_setItem, s.segment_setItem_of_le (Nat.le_refl i),
    s.segment_setItem_of_lt (Nat.lt_succ_self i)]

theorem length_toList_setItem {i : Nat} {a : α} (h : s.item? i = some a) (b : α) :
    (s.setItem i b).toList.length = s.toList.length := by
  rw [toList_setItem (s.lt_slotCount_of_item? h), s.toList_of_item? h, List.length_append,
    List.length_append, List.length_cons, List.length_cons]

end ProbeWindow.SlotArray
