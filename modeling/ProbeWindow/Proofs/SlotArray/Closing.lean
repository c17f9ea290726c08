import ProbeWindow.Proofs.SlotArray.Order

/-!
# Closing the gap of a removed item

The run that a removal moves forward ends at the first sentinel at the latest, so in an array in
form a removal keeps the form, and it removes one item from the list of items and leaves the others
in their order.

In an array in order the run ends where moving would put an item before its home. Read on items
(`Closing`): the items of the run are all behind their homes, and everything behind the run has its
home behind the run. From this, a removal keeps the array in order.
-/

namespace ProbeWindow.SlotArray

universe u

variable {α : Type u} {hash : α → UInt64} {index : UInt64 → Nat} {s : SlotArray α} {i stop : Nat}

/-- What the end of the run behind a slot says about the items. -/
structure Closing (hash : α → UInt64) (index : UInt64 → Nat) (s : SlotArray α) (i stop : Nat) :
    Prop where
  /-- The run is behind the slot. -/
  lt_stop : i < stop
  /-- The run is in the array. -/
  stop_le : stop ≤ s.slotCount
  /-- Every slot of the run has an item, which is behind its home. -/
  run : ∀ j, i < j → j < stop → ∃ a, s.item? j = some a ∧ index (hash a) < j
  /-- What is behind the run has its home behind the run. -/
  rest : ∀ j a, stop ≤ j → s.item? j = some a → stop ≤ index (hash a)

/-! ### What the search for the end finds -/

theorem runEnd_spec (s : SlotArray α) (index : Nat) :
    index ≤ s.runEnd index ∧
      (∀ j, index ≤ j → j < s.runEnd index → s.isOccupied j = true ∧ (s.tag j).offset ≠ 0) ∧
        ¬(s.isOccupied (s.runEnd index) = true ∧ (s.tag (s.runEnd index)).offset ≠ 0) := by
  fun_induction runEnd s index with
  | case1 index h ih =>
    obtain ⟨hle, hrun, hend⟩ := ih
    refine ⟨by omega, fun j h1 h2 ↦ ?_, hend⟩
    rcases Nat.eq_or_lt_of_le h1 with rfl | h1
    · exact h
    · exact hrun j h1 h2
  | case2 index h => exact ⟨Nat.le_refl _, fun j h1 h2 ↦ by omega, h⟩

theorem lt_runEnd (s : SlotArray α) (i : Nat) : i < s.runEnd (i + 1) := (s.runEnd_spec (i + 1)).1

namespace Formed

variable (f : Formed s) (hi : i < s.slotCount)
include f hi

/-- The first sentinel ends every run. -/
theorem runEnd_le : s.runEnd (i + 1) ≤ s.slotCount := by
  obtain ⟨hle, hrun, -⟩ := s.runEnd_spec (i + 1)
  by_contra hlt
  have hsentinel := (hrun s.slotCount (by omega) (by omega)).2
  rw [f.tag_sentinel _ (Nat.le_refl _) (by simp)] at hsentinel
  exact hsentinel Tag.offset_sentinel

/-- The slots of a run have items that are not at home. -/
theorem item_of_lt_runEnd {j : Nat} (h1 : i < j) (h2 : j < s.runEnd (i + 1)) :
    ∃ a, s.item? j = some a ∧ (s.tag j).offset ≠ 0 := by
  obtain ⟨hocc, hoff⟩ := (s.runEnd_spec (i + 1)).2.1 j h1 h2
  have hle := f.runEnd_le hi
  obtain ⟨a, ha⟩ := f.exists_item (by omega) hocc
  exact ⟨a, ha, hoff⟩

end Formed

/-- **The end of the run is a closing.** -/
theorem Ordered.closing (ord : Ordered hash index s) (hi : i < s.slotCount) :
    Closing hash index s i (s.runEnd (i + 1)) := by
  have hend := (s.runEnd_spec (i + 1)).2.2
  refine ⟨s.lt_runEnd i, ord.formed.runEnd_le hi, fun j h1 h2 ↦ ?_, fun j a h1 ha ↦ ?_⟩
  · obtain ⟨a, ha, hoff⟩ := ord.formed.item_of_lt_runEnd hi h1 h2
    rw [ord.offset_tag ha] at hoff
    exact ⟨a, ha, by omega⟩
  · generalize s.runEnd (i + 1) = stop at hend h1 ⊢
    cases hb : s.item? stop with
    | none => exact Nat.le_of_lt (ord.lt_home_of_vacant hb ha h1)
    | some b =>
      have hoff : ¬(s.tag stop).offset ≠ 0 := fun h ↦ hend ⟨ord.isOccupied_of_item hb, h⟩
      rw [ord.offset_tag hb] at hoff
      have hle := ord.home_le stop b hb
      have hsorted := ord.sorted stop j b a h1 hb ha
      omega

/-! ### The array after a removal, cell by cell -/

section Cells

@[simp]
theorem size_tags_erase (s : SlotArray α) (i : Nat) : (s.erase i).tags.size = s.tags.size := by
  rw [erase, size_tags_vacate, size_tags_pullRun]

variable (hstop : s.runEnd (i + 1) ≤ s.slotCount)
include hstop

theorem item?_erase (j : Nat) : (s.erase i).item? j =
    if j + 1 = s.runEnd (i + 1) then none
    else if i ≤ j ∧ j + 1 < s.runEnd (i + 1) then s.item? (j + 1) else s.item? j := by
  have hlt := s.lt_runEnd i
  rw [erase, item?_vacate, slotCount_pullRun, item?_pullRun _ _ (by omega)]
  grind

theorem tag_erase (hsize : s.slotCount ≤ s.tags.size) (j : Nat) :
    (s.erase i).tag j =
      if j + 1 = s.runEnd (i + 1) then .empty
      else if i ≤ j ∧ j + 1 < s.runEnd (i + 1) then (s.tag (j + 1)).pulled else s.tag j := by
  have hlt := s.lt_runEnd i
  rw [erase, tag_vacate, size_tags_pullRun, tag_pullRun _ _ (by omega)]
  grind

/-- Where the items of the new array come from: those that stayed, and those that moved forward
by one. -/
theorem item?_erase_cases {j : Nat} {a : α} (h : (s.erase i).item? j = some a) :
    (s.item? j = some a ∧ (j < i ∨ s.runEnd (i + 1) ≤ j)) ∨
      (s.item? (j + 1) = some a ∧ i ≤ j ∧ j + 1 < s.runEnd (i + 1)) := by
  rw [item?_erase hstop] at h
  split_ifs at h with h1 h2
  · exact .inr ⟨h, h2⟩
  · exact .inl ⟨h, by omega⟩

end Cells

/-! ### Form and content -/

namespace Formed

variable (f : Formed s)
include f

/-- **A removal keeps the array in form.** -/
theorem erase (hi : i < s.slotCount) : Formed (s.erase i) := by
  have hstop := f.runEnd_le hi
  have hlt := s.lt_runEnd i
  have htags := f.tagCount_eq
  have htag := tag_erase hstop (by omega)
  constructor
  case slotCount_eq => rw [slotCount_erase, capacity_erase, f.slotCount_eq]
  case tagCount_eq => rw [slotCount_erase, size_tags_erase, htags]
  case tag_sentinel =>
    intro j h1 h2
    rw [slotCount_erase] at h1 h2
    rw [htag, if_neg (by omega), if_neg (by omega), f.tag_sentinel j h1 h2]
  case tag_vacant =>
    intro j h1 h2
    rw [slotCount_erase] at h1
    rw [item?_erase hstop] at h2
    split_ifs at h2 with h3 h4
    · rw [htag, if_pos h3]
    · obtain ⟨a, ha, -⟩ := f.item_of_lt_runEnd hi (j := j + 1) (by omega) (by omega)
      rw [h2] at ha
      cases ha
    · rw [htag, if_neg h3, if_neg h4, f.tag_vacant j h1 h2]
  case isOccupied_of_item =>
    intro j a h
    rw [isOccupied, htag]
    rcases item?_erase_cases hstop h with ⟨ha, hj⟩ | ⟨ha, h1, h2⟩
    · rw [if_neg (by omega), if_neg (by omega)]
      exact f.isOccupied_of_item j a ha
    · rw [if_neg (by omega), if_pos ⟨h1, h2⟩, Tag.isOccupied_pulled]
      exact f.isOccupied_of_item (j + 1) a ha

/-- The slots before the removed item are as they were. -/
theorem item?_erase_of_lt (hi : i < s.slotCount) {j : Nat} (h : j < i) :
    (s.erase i).item? j = s.item? j := by
  have hlt := s.lt_runEnd i
  rw [item?_erase (f.runEnd_le hi), if_neg (by omega), if_neg (by omega)]

/-- **A removal takes out the item of its slot**: the items before and behind it are left, in
their order. -/
theorem segment_erase (hi : i < s.slotCount) :
    (s.erase i).segment i s.slotCount = s.segment (i + 1) s.slotCount := by
  have hle := f.runEnd_le hi
  have hitem := item?_erase hle
  have hlt := s.lt_runEnd i
  generalize s.runEnd (i + 1) = stop at hitem hlt hle
  -- the last slot of the run is emptied, the others take the item of the slot behind
  obtain ⟨last, rfl⟩ : ∃ last, stop = last + 1 := ⟨stop - 1, by omega⟩
  have hrun : s.segment (i + 1) (last + 1) = (s.erase i).segment i last :=
    segment_succ_succ s fun j h1 h2 ↦ by rw [hitem, if_neg (by omega), if_pos (by omega)]
  have hrest : (s.erase i).segment (last + 1) s.slotCount = s.segment (last + 1) s.slotCount :=
    segment_congr_slots _ fun j h1 _ ↦ by rw [hitem, if_neg (by omega), if_neg (by omega)]
  rw [segment_cut _ i last s.slotCount (by omega) (by omega), ← hrun,
    segment_of_vacant _ (show last < s.slotCount by omega) (by rw [hitem, if_pos rfl]), hrest,
    ← s.segment_cut (i + 1) (last + 1) s.slotCount (by omega) hle]

theorem toList_erase (hi : i < s.slotCount) :
    (s.erase i).toList = s.segment 0 i ++ s.segment (i + 1) s.slotCount := by
  rw [toList_eq_segment, slotCount_erase, segment_cut _ 0 i _ (Nat.zero_le i) (Nat.le_of_lt hi),
    f.segment_erase hi, segment_congr_slots _ fun j _ h ↦ f.item?_erase_of_lt hi h]

/-- The list of items before a removal is the list after it, with the removed item. -/
theorem toList_perm_erase {a : α} (h : s.item? i = some a) :
    s.toList.Perm (a :: (s.erase i).toList) := by
  rw [f.toList_erase (s.lt_slotCount_of_item? h), s.toList_of_item? h]
  exact List.perm_middle

end Formed

/-! ### Order -/

/-- **A removal keeps the array in order.** -/
theorem Ordered.erase (ord : Ordered hash index s) (hi : i < s.slotCount) :
    Ordered hash index (s.erase i) := by
  have cl := ord.closing hi
  have hlt := cl.lt_stop
  have hstop := cl.stop_le
  have htags := ord.tagCount_eq
  have hform := ord.formed.erase hi
  have htag := tag_erase hstop (by omega)
  constructor
  case slotCount_eq => exact hform.slotCount_eq
  case tagCount_eq => exact hform.tagCount_eq
  case tag_sentinel => exact hform.tag_sentinel
  case tag_vacant => exact hform.tag_vacant
  case tag_item =>
    intro j a h
    rcases item?_erase_cases hstop h with ⟨ha, hj⟩ | ⟨ha, h1, h2⟩
    · rw [htag, if_neg (by omega), if_neg (by omega), ord.tag_item j a ha]
    · obtain ⟨b, hb, hhome⟩ := cl.run (j + 1) (by omega) (by omega)
      rw [ha] at hb
      cases hb
      rw [htag, if_neg (by omega), if_pos ⟨h1, h2⟩, ord.tag_item _ a ha,
        Tag.pulled_encode (Tag.fragmentOf_lt _) (ord.offset_le ha) (by omega)]
      congr 1
      omega
  case home_lt =>
    intro j a h
    rw [capacity_erase]
    rcases item?_erase_cases hstop h with ⟨ha, -⟩ | ⟨ha, -⟩
    exacts [ord.home_lt j a ha, ord.home_lt (j + 1) a ha]
  case home_le =>
    intro j a h
    rcases item?_erase_cases hstop h with ⟨ha, -⟩ | ⟨ha, h1, h2⟩
    · exact ord.home_le j a ha
    · obtain ⟨b, hb, hhome⟩ := cl.run (j + 1) (by omega) (by omega)
      rw [ha] at hb
      cases hb
      omega
  case le_home_add =>
    intro j a h
    rcases item?_erase_cases hstop h with ⟨ha, -⟩ | ⟨ha, -⟩
    · exact ord.le_home_add j a ha
    · have := ord.le_home_add (j + 1) a ha
      omega
  case no_hole =>
    intro j a k h h1 h2
    rw [item?_erase hstop]
    split_ifs with h3 h4
    · rcases item?_erase_cases hstop h with ⟨ha, hj⟩ | ⟨-, -, hj⟩
      · have := cl.rest j a (by omega) ha
        omega
      · omega
    · obtain ⟨b, hb, -⟩ := cl.run (k + 1) (by omega) (by omega)
      simp [hb]
    · rcases item?_erase_cases hstop h with ⟨ha, -⟩ | ⟨ha, -⟩
      · exact ord.no_hole j a k ha h1 h2
      · exact ord.no_hole (j + 1) a k ha h1 (by omega)
  case sorted =>
    intro j k a b hjk hj hk
    rcases item?_erase_cases hstop hj with ⟨ha, h1⟩ | ⟨ha, h1, h2⟩ <;>
      rcases item?_erase_cases hstop hk with ⟨hb, h3⟩ | ⟨hb, h3, h4⟩
    · exact ord.sorted j k a b hjk ha hb
    · exact ord.sorted j (k + 1) a b (by omega) ha hb
    · exact ord.sorted (j + 1) k a b (by omega) ha hb
    · exact ord.sorted (j + 1) (k + 1) a b (by omega) ha hb

end ProbeWindow.SlotArray
