import ProbeWindow.SlotArray.Removal
import ProbeWindow.SlotArray.Window
import Mathlib.Data.List.Basic

/-!
# Slot arrays cell by cell

A slot array is read through two functions of an index, `item?` and `tag`. This module says what
every operation on an array does to these two, so that no later proof looks at the underlying
arrays, and cuts the list of all items into the segments between given slots.
-/

namespace ProbeWindow.SlotArray

universe u

variable {α : Type u} (s : SlotArray α)

/-! ### Single cells -/

theorem item?_eq_none_of_le {index : Nat} (h : s.slotCount ≤ index) : s.item? index = none := by
  simp only [slotCount] at h
  simp [item?, Array.getD_eq_getD_getElem?, h]

theorem lt_slotCount_of_item? {index : Nat} {a : α} (h : s.item? index = some a) :
    index < s.slotCount := by
  by_contra hlt
  rw [s.item?_eq_none_of_le (Nat.le_of_not_lt hlt)] at h
  exact absurd h (by simp)

theorem item?_eq_getD_toList (index : Nat) : s.item? index = s.items.toList.getD index none := by
  rw [item?, Array.getD_eq_getD_getElem?, List.getD_eq_getElem?_getD, Array.getElem?_toList]

theorem item?_of_items_set {t : SlotArray α} {index : Nat} {cell : Option α}
    (h : t.items = s.items.setIfInBounds index cell) (j : Nat) :
    t.item? j = if j = index ∧ index < s.slotCount then cell else s.item? j := by
  simp only [item?, h, Array.getD_eq_getD_getElem?, Array.getElem?_setIfInBounds, slotCount]
  grind

theorem tag_of_tags_set {t : SlotArray α} {index : Nat} {g : Tag}
    (h : t.tags = s.tags.setIfInBounds index g) (j : Nat) :
    t.tag j = if j = index ∧ index < s.tags.size then g else s.tag j := by
  simp only [tag, h, Array.getD_eq_getD_getElem?, Array.getElem?_setIfInBounds]
  grind

variable {s} in
/-- Two arrays are the same when their cells are. -/
theorem ext_cells {t : SlotArray α} (hcapacity : t.capacity = s.capacity)
    (hcount : t.slotCount = s.slotCount) (htagCount : t.tags.size = s.tags.size)
    (htag : ∀ i, t.tag i = s.tag i) (hitem : ∀ i, t.item? i = s.item? i) : t = s := by
  have htags : t.tags = s.tags := by
    refine Array.ext htagCount fun i h1 h2 ↦ ?_
    have hi := htag i
    simpa [tag, Array.getD, h1, h2] using hi
  have hitems : t.items = s.items := by
    refine Array.ext hcount fun i h1 h2 ↦ ?_
    have hi := hitem i
    simpa [item?, Array.getD, h1, h2] using hi
  obtain ⟨_, _, _⟩ := t
  obtain ⟨_, _, _⟩ := s
  cases hcapacity
  cases htags
  cases hitems
  rfl

/-! ### Whole operations -/

section Operations

variable (index : Nat) (g : Tag) (a : α) (j : Nat)

theorem item?_write : (s.write index g a).item? j =
    if j = index ∧ index < s.slotCount then some a else s.item? j :=
  s.item?_of_items_set rfl j

theorem tag_write : (s.write index g a).tag j =
    if j = index ∧ index < s.tags.size then g else s.tag j :=
  s.tag_of_tags_set rfl j

theorem item?_vacate : (s.vacate index).item? j =
    if j = index ∧ index < s.slotCount then none else s.item? j :=
  s.item?_of_items_set rfl j

theorem tag_vacate : (s.vacate index).tag j =
    if j = index ∧ index < s.tags.size then .empty else s.tag j :=
  s.tag_of_tags_set rfl j

theorem item?_setItem : (s.setItem index a).item? j =
    if j = index ∧ index < s.slotCount then some a else s.item? j :=
  s.item?_of_items_set rfl j

@[simp]
theorem tag_setItem : (s.setItem index a).tag j = s.tag j := rfl

theorem item?_push : (s.push index).item? j =
    if j = index + 1 ∧ index + 1 < s.slotCount then s.item? index else s.item? j :=
  s.item?_of_items_set rfl j

theorem tag_push : (s.push index).tag j =
    if j = index + 1 ∧ index + 1 < s.tags.size then (s.tag index).pushed else s.tag j :=
  s.tag_of_tags_set rfl j

theorem item?_pull : (s.pull index).item? j =
    if j = index ∧ index < s.slotCount then s.item? (index + 1) else s.item? j :=
  s.item?_of_items_set rfl j

theorem tag_pull : (s.pull index).tag j =
    if j = index ∧ index < s.tags.size then (s.tag (index + 1)).pulled else s.tag j :=
  s.tag_of_tags_set rfl j

@[simp]
theorem slotCount_write : (s.write index g a).slotCount = s.slotCount := by
  simp [write, slotCount]

@[simp]
theorem size_tags_write : (s.write index g a).tags.size = s.tags.size := by
  simp [write]

@[simp]
theorem size_tags_vacate : (s.vacate index).tags.size = s.tags.size := by
  simp [vacate]

@[simp]
theorem capacity_setItem : (s.setItem index a).capacity = s.capacity := rfl

@[simp]
theorem tags_setItem : (s.setItem index a).tags = s.tags := rfl

@[simp]
theorem slotCount_push : (s.push index).slotCount = s.slotCount := by
  simp [push, slotCount]

@[simp]
theorem size_tags_push : (s.push index).tags.size = s.tags.size := by
  simp [push]

@[simp]
theorem size_tags_pull : (s.pull index).tags.size = s.tags.size := by
  simp [pull]

end Operations

/-! ### Runs -/

section Runs

variable (start : Nat) {n : Nat}

@[simp]
theorem slotCount_pushRun (n : Nat) : (pushRun start n s).slotCount = s.slotCount := by
  induction n generalizing s with
  | zero => rfl
  | succ n ih => rw [pushRun, ih, slotCount_push]

@[simp]
theorem size_tags_pushRun (n : Nat) : (pushRun start n s).tags.size = s.tags.size := by
  induction n generalizing s with
  | zero => rfl
  | succ n ih => rw [pushRun, ih, size_tags_push]

@[simp]
theorem size_tags_pullRun (n : Nat) : (pullRun start n s).tags.size = s.tags.size := by
  induction n generalizing start s with
  | zero => rfl
  | succ n ih => rw [pullRun, ih, size_tags_pull]

/-- A run pushed back: the slots behind `start` have the items that were one slot before. -/
theorem item?_pushRun (h : start + n < s.slotCount) (j : Nat) :
    (pushRun start n s).item? j =
      if start < j ∧ j ≤ start + n then s.item? (j - 1) else s.item? j := by
  induction n generalizing s with
  | zero => rw [if_neg (by omega)]; rfl
  | succ n ih =>
    rw [pushRun, ih _ (by rw [slotCount_push]; omega), item?_push, item?_push]
    grind

theorem tag_pushRun (h : start + n < s.tags.size) (j : Nat) :
    (pushRun start n s).tag j =
      if start < j ∧ j ≤ start + n then (s.tag (j - 1)).pushed else s.tag j := by
  induction n generalizing s with
  | zero => rw [if_neg (by omega)]; rfl
  | succ n ih =>
    rw [pushRun, ih _ (by rw [size_tags_push]; omega), tag_push, tag_push]
    grind

/-- A run pulled forward: its slots have the items that were one slot behind. -/
theorem item?_pullRun (h : start + n ≤ s.slotCount) (j : Nat) :
    (pullRun start n s).item? j =
      if start ≤ j ∧ j < start + n then s.item? (j + 1) else s.item? j := by
  induction n generalizing start s with
  | zero => rw [if_neg (by omega)]; rfl
  | succ n ih =>
    rw [pullRun, ih _ _ (by rw [slotCount_pull]; omega), item?_pull, item?_pull]
    grind

theorem tag_pullRun (h : start + n ≤ s.tags.size) (j : Nat) :
    (pullRun start n s).tag j =
      if start ≤ j ∧ j < start + n then (s.tag (j + 1)).pulled else s.tag j := by
  induction n generalizing start s with
  | zero => rw [if_neg (by omega)]; rfl
  | succ n ih =>
    rw [pullRun, ih _ _ (by rw [size_tags_pull]; omega), tag_pull, tag_pull]
    grind

end Runs

/-! ### Segments -/

/-- The items of the slots from `start` on and before `stop`, in slot order. -/
def segment (start stop : Nat) : List α := (List.range' start (stop - start)).filterMap s.item?

theorem toList_eq_segment : s.toList = s.segment 0 s.slotCount := by
  have h : s.items.toList = (List.range' 0 s.slotCount).map s.item? := by
    refine List.ext_getElem (by simp [slotCount]) fun i h1 h2 ↦ ?_
    have hi : i < s.items.size := by simpa using h1
    simp [item?, Array.getD_eq_getD_getElem?, hi]
  rw [toList, h, segment, List.filterMap_map]
  rfl

/-- The items are read slot by slot. -/
theorem toList_eq_filterMap : s.toList = (List.range s.slotCount).filterMap s.item? := by
  rw [toList_eq_segment, segment, Nat.sub_zero, List.range_eq_range']

theorem mem_segment {start stop : Nat} {a : α} :
    a ∈ s.segment start stop ↔ ∃ i, start ≤ i ∧ i < stop ∧ s.item? i = some a := by
  simp only [segment, List.mem_filterMap, List.mem_range'_1]
  refine exists_congr fun i ↦ ?_
  constructor
  · rintro ⟨⟨h1, h2⟩, h3⟩
    exact ⟨h1, by omega, h3⟩
  · rintro ⟨h1, h2, h3⟩
    exact ⟨⟨h1, by omega⟩, h3⟩

theorem mem_toList {a : α} : a ∈ s.toList ↔ ∃ i, s.item? i = some a := by
  rw [toList_eq_segment, mem_segment]
  constructor
  · rintro ⟨i, -, -, h⟩
    exact ⟨i, h⟩
  · rintro ⟨i, h⟩
    exact ⟨i, Nat.zero_le i, s.lt_slotCount_of_item? h, h⟩

/-- A segment, cut at a slot. -/
theorem segment_cut (start cut stop : Nat) (h1 : start ≤ cut) (h2 : cut ≤ stop) :
    s.segment start stop = s.segment start cut ++ s.segment cut stop := by
  obtain ⟨m, rfl⟩ := Nat.exists_eq_add_of_le h1
  obtain ⟨n, rfl⟩ := Nat.exists_eq_add_of_le h2
  simp only [segment, ← List.filterMap_append]
  rw [Nat.add_sub_cancel_left, Nat.add_sub_cancel_left, List.range'_append_1, Nat.add_assoc,
    Nat.add_sub_cancel_left]

theorem segment_self (start : Nat) : s.segment start start = [] := by
  simp [segment]

/-- A segment begins with the item of its first slot, if there is one. -/
theorem segment_eq_append {start stop : Nat} (h : start < stop) :
    s.segment start stop = (s.item? start).toList ++ s.segment (start + 1) stop := by
  obtain ⟨n, rfl⟩ := Nat.exists_eq_add_of_lt h
  rw [segment, segment, show start + n + 1 - start = n + 1 by omega,
    show start + n + 1 - (start + 1) = n by omega, List.range'_succ, List.filterMap_cons]
  cases s.item? start <;> rfl

theorem segment_eq_cons {start stop : Nat} {a : α} (h : start < stop)
    (ha : s.item? start = some a) : s.segment start stop = a :: s.segment (start + 1) stop := by
  rw [s.segment_eq_append h, ha]
  rfl

theorem segment_of_vacant {start stop : Nat} (h : start < stop) (hnone : s.item? start = none) :
    s.segment start stop = s.segment (start + 1) stop := by
  rw [s.segment_eq_append h, hnone]
  rfl

/-- A segment ends with the item of its last slot, if there is one. -/
theorem segment_succ {start stop : Nat} (h : start ≤ stop) :
    s.segment start (stop + 1) = s.segment start stop ++ (s.item? stop).toList := by
  rw [s.segment_cut start stop _ h (Nat.le_succ stop), s.segment_eq_append (Nat.lt_succ_self stop),
    segment_self, List.append_nil]

/-- The items before an item, the item, the items behind it. -/
theorem toList_of_item? {index : Nat} {a : α} (h : s.item? index = some a) :
    s.toList = s.segment 0 index ++ a :: s.segment (index + 1) s.slotCount := by
  have hlt := s.lt_slotCount_of_item? h
  rw [toList_eq_segment, s.segment_cut 0 index _ (Nat.zero_le index) (Nat.le_of_lt hlt),
    s.segment_eq_cons hlt h]

/-- Segments agree when their slots do, up to a shift. -/
theorem segment_congr {t : SlotArray α} {start start' n : Nat}
    (h : ∀ i < n, s.item? (start + i) = t.item? (start' + i)) :
    s.segment start (start + n) = t.segment start' (start' + n) := by
  have hr : ∀ k, List.range' k n = (List.range n).map (k + ·) := fun k ↦ by
    rw [List.range_eq_range', List.map_add_range']
    rfl
  simp only [segment, Nat.add_sub_cancel_left, hr, List.filterMap_map]
  refine List.filterMap_congr fun i hi ↦ ?_
  exact h i (List.mem_range.mp hi)

/-- Segments of the same slots. -/
theorem segment_congr_slots {t : SlotArray α} {start stop : Nat}
    (h : ∀ i, start ≤ i → i < stop → s.item? i = t.item? i) :
    s.segment start stop = t.segment start stop := by
  refine List.filterMap_congr fun i hi ↦ ?_
  obtain ⟨h1, h2⟩ := List.mem_range'_1.mp hi
  exact h i h1 (by omega)

theorem segment_setItem_of_le {i start stop : Nat} (h : stop ≤ i) (a : α) :
    (s.setItem i a).segment start stop = s.segment start stop :=
  segment_congr_slots _ fun j _ hj ↦ by rw [item?_setItem, if_neg (by omega)]

theorem segment_setItem_of_lt {i start stop : Nat} (h : i < start) (a : α) :
    (s.setItem i a).segment start stop = s.segment start stop :=
  segment_congr_slots _ fun j hj _ ↦ by rw [item?_setItem, if_neg (by omega)]

/-- A segment of an array whose items were moved back by one slot. -/
theorem segment_succ_succ {t : SlotArray α} {start stop : Nat}
    (h : ∀ i, start ≤ i → i < stop → s.item? (i + 1) = t.item? i) :
    s.segment (start + 1) (stop + 1) = t.segment start stop := by
  rcases Nat.lt_or_ge stop start with hlt | hle
  · rw [segment, segment, show stop + 1 - (start + 1) = 0 by omega,
      show stop - start = 0 by omega]
    rfl
  · obtain ⟨n, rfl⟩ := Nat.exists_eq_add_of_le hle
    rw [show start + n + 1 = start + 1 + n by omega]
    refine s.segment_congr fun i hi ↦ ?_
    rw [show start + 1 + i = start + i + 1 by omega]
    exact h _ (by omega) (by omega)

theorem segment_eq_nil {start stop : Nat} (h : ∀ i, start ≤ i → i < stop → s.item? i = none) :
    s.segment start stop = [] := by
  refine List.eq_nil_iff_forall_not_mem.mpr fun a ha ↦ ?_
  obtain ⟨i, h1, h2, h3⟩ := s.mem_segment.mp ha
  rw [h i h1 h2] at h3
  exact absurd h3 (by simp)

theorem toList_eq_nil_iff : s.toList = [] ↔ ∀ i, s.item? i = none := by
  constructor
  · intro h i
    cases hi : s.item? i with
    | none => rfl
    | some a =>
      have hmem := s.mem_toList.mpr ⟨i, hi⟩
      rw [h] at hmem
      cases hmem
  · intro h
    rw [toList_eq_segment]
    exact s.segment_eq_nil fun i _ _ ↦ h i

/-- The items before a slot and the items from it on. -/
theorem toList_cut (index : Nat) :
    s.toList = s.segment 0 index ++ s.segment index s.slotCount := by
  rw [toList_eq_segment]
  rcases Nat.le_total index s.slotCount with hle | hge
  · exact s.segment_cut 0 index _ (Nat.zero_le _) hle
  · rw [s.segment_cut 0 s.slotCount index (Nat.zero_le _) hge,
      s.segment_eq_nil fun i h1 _ ↦ s.item?_eq_none_of_le h1,
      s.segment_eq_nil fun i h1 _ ↦ s.item?_eq_none_of_le (Nat.le_trans hge h1),
      List.append_nil, List.append_nil]

end ProbeWindow.SlotArray
