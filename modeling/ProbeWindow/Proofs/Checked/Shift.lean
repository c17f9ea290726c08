import ProbeWindow.Proofs.Checked.Slots
import ProbeWindow.Proofs.SlotArray.Closing

/-!
# Shifts, step by step

Placing an item moves a run of items back by one slot, and removing one moves a run forward. Here
both are taken apart into the moves of single items and the writes of single tags, in the order in
which a program makes them: the end of the run that moves into the empty slot goes first, and the
tags follow the items. Every move goes to a slot that is empty when its turn comes, and what the
steps leave is what `place` and `erase` say.
-/

namespace ProbeWindow.SlotArray

universe u

variable {α : Type u}

/-! ### Placing -/

/-- The items of a run move back by one slot, the last of them first. -/
def checkedMoveUp (start : Nat) : Nat → SlotArray α → Checked (SlotArray α)
  | 0, s => .pure s
  | n + 1, s => (s.checkedMove (start + n) (start + n + 1)).andThen (checkedMoveUp start n)

/-- The tags of a run move back by one slot, the last of them first. -/
def checkedPushTags (start : Nat) : Nat → SlotArray α → Checked (SlotArray α)
  | 0, s => .pure s
  | n + 1, s =>
    (s.checkedTag (start + n)).andThen fun tag ↦
      tag.checkedPushed.andThen fun pushed ↦
        (s.checkedSetTag (start + n + 1) pushed).andThen (checkedPushTags start n)

/-- Writes a new item into a vacancy of the window of `home`. -/
def checkedPlace (s : SlotArray α) (home : Nat) (fragment : UInt8) (v : Vacancy) (item : α) :
    Checked (SlotArray α) :=
  let index := home + v.steal
  .require (v.steal ≤ v.empty) <|
    (checkedMoveUp index (v.empty - v.steal) s).andThen fun s ↦
      (checkedPushTags index (v.empty - v.steal) s).andThen fun s ↦
        (s.checkedPut index item).andThen fun s ↦
          (Tag.checkedEncode fragment v.steal).andThen fun tag ↦ s.checkedSetTag index tag

/-- Two arrays have the same tags, and as many slots. -/
structure SameTags (s t : SlotArray α) : Prop where
  /-- The capacity is the same. -/
  capacity_eq : t.capacity = s.capacity
  /-- There are as many slots. -/
  slotCount_eq : t.slotCount = s.slotCount
  /-- The tags are the same. -/
  tags_eq : t.tags = s.tags

/-- Two arrays have the same items, and as many tags. -/
structure SameItems (s t : SlotArray α) : Prop where
  /-- The capacity is the same. -/
  capacity_eq : t.capacity = s.capacity
  /-- There are as many tags. -/
  tagCount_eq : t.tags.size = s.tags.size
  /-- The items are the same. -/
  items_eq : t.items = s.items

section Same

variable {s t : SlotArray α} {i : Nat}

theorem HasSlot.hasTag (h : s.HasSlot i) : s.HasTag i := ⟨Nat.lt_add_right _ h.lt, h.lt_tagCount⟩

theorem SameTags.tag_eq (h : SameTags s t) (i : Nat) : t.tag i = s.tag i := by
  rw [tag, tag, h.tags_eq]

theorem SameTags.hasSlot (h : SameTags s t) (hs : s.HasSlot i) : t.HasSlot i :=
  ⟨h.capacity_eq ▸ hs.lt, h.slotCount_eq ▸ hs.lt_slotCount, h.tags_eq ▸ hs.lt_tagCount⟩

theorem SameTags.hasTag (h : SameTags s t) (hs : s.HasTag i) : t.HasTag i :=
  ⟨h.capacity_eq ▸ hs.lt, h.tags_eq ▸ hs.lt_tagCount⟩

theorem SameItems.item?_eq (h : SameItems s t) (i : Nat) : t.item? i = s.item? i := by
  rw [item?, item?, h.items_eq]

theorem SameItems.slotCount_eq (h : SameItems s t) : t.slotCount = s.slotCount := by
  rw [slotCount, slotCount, h.items_eq]

theorem SameItems.hasSlot (h : SameItems s t) (hs : s.HasSlot i) : t.HasSlot i :=
  ⟨h.capacity_eq ▸ hs.lt, h.slotCount_eq ▸ hs.lt_slotCount, h.tagCount_eq ▸ hs.lt_tagCount⟩

end Same

section Up

variable {s : SlotArray α}

/-- A run whose slots have items moves into an empty slot behind it. -/
theorem checkedMoveUp_yields (start n : Nat)
    (hslot : ∀ i ≤ start + n, s.HasSlot i)
    (hsome : ∀ i, start ≤ i → i < start + n → ∃ a, s.item? i = some a)
    (hnone : s.item? (start + n) = none) :
    ∃ t, (checkedMoveUp start n s).Yields t ∧ SameTags s t ∧ ∀ j, t.item? j =
      if j = start then none
      else if start < j ∧ j ≤ start + n then s.item? (j - 1) else s.item? j := by
  induction n generalizing s with
  | zero =>
    refine ⟨s, .pure s, ⟨rfl, rfl, rfl⟩, fun j ↦ ?_⟩
    split_ifs with h1 h2
    · rw [h1]
      exact hnone
    · omega
    · rfl
  | succ n ih =>
    obtain ⟨a, ha⟩ := hsome (start + n) (by omega) (by omega)
    have h1 := hslot (start + n) (by omega)
    have h2 := hslot (start + n + 1) (by omega)
    -- the last item is in the empty slot, and its own slot is empty for the next one
    have hitem : ∀ j, ((s.setCell (start + n + 1) (s.item? (start + n))).setCell (start + n)
        none).item? j = if j = start + n then none
          else if j = start + n + 1 then s.item? (start + n) else s.item? j := fun j ↦ by
      have := h1.lt_slotCount
      have := h2.lt_slotCount
      rw [item?_setCell, item?_setCell, slotCount_setCell]
      grind
    obtain ⟨t, hyields, hsame, hcells⟩ := ih
      (fun i hi ↦ ((hslot i (by omega)).setCell _ _).setCell _ _)
      (fun i h1 h2 ↦ by
        rw [hitem, if_neg (by omega), if_neg (by omega)]
        exact hsome i h1 (by omega))
      (by rw [hitem, if_pos rfl])
    refine ⟨t, Checked.Yields.andThen
      (.require ⟨h1, h2, by rw [ha]; rfl, hnone⟩ (.pure _)) hyields, ?_, fun j ↦ ?_⟩
    · exact ⟨hsame.capacity_eq, by simpa using hsame.slotCount_eq, hsame.tags_eq⟩
    · rw [hcells, hitem, hitem]
      grind

/-- The tags of items that are not as far from home as they can be move back by one slot. -/
theorem checkedPushTags_yields (start n : Nat)
    (hslot : ∀ i ≤ start + n, s.HasSlot i)
    (htag : ∀ i, start ≤ i → i < start + n →
      (s.tag i).isOccupied = true ∧ (s.tag i).offset < maxOffset) :
    ∃ t, (checkedPushTags start n s).Yields t ∧ SameItems s t ∧ ∀ j, t.tag j =
      if start < j ∧ j ≤ start + n then (s.tag (j - 1)).pushed else s.tag j := by
  induction n generalizing s with
  | zero => exact ⟨s, .pure s, ⟨rfl, rfl, rfl⟩, fun j ↦ by rw [if_neg (by omega)]⟩
  | succ n ih =>
    obtain ⟨hocc, hoff⟩ := htag (start + n) (by omega) (by omega)
    have h2 := hslot (start + n + 1) (by omega)
    have hcell : ∀ j, (s.setTag (start + n + 1) (s.tag (start + n)).pushed).tag j =
        if j = start + n + 1 then (s.tag (start + n)).pushed else s.tag j := fun j ↦ by
      have := h2.lt_tagCount
      rw [tag_setTag]
      grind
    obtain ⟨t, hyields, hsame, hcells⟩ := ih (fun i hi ↦ (hslot i (by omega)).setTag _ _)
      (fun i h1 h2 ↦ by
        rw [hcell, if_neg (by omega)]
        exact htag i h1 (by omega))
    refine ⟨t, Checked.Yields.andThen (.require (hslot _ (by omega)).hasTag (.pure _)) <|
      (Tag.checkedPushed_yields hocc hoff).andThen <|
        Checked.Yields.andThen (.require h2 (.pure _)) hyields, ?_, fun j ↦ ?_⟩
    · exact ⟨hsame.capacity_eq, by simpa using hsame.tagCount_eq, hsame.items_eq⟩
    · rw [hcells, hcell, hcell]
      grind

end Up

/-- **Placing an item into a gap is safe.** -/
theorem Formed.checkedPlace {s : SlotArray α} (f : Formed s) {home : Nat} {v : Vacancy}
    (gap : Gap s home v) {fragment : UInt8} (hf : fragment < 8) (item : α) :
    (s.checkedPlace home fragment v item).Yields (s.place home fragment v item) := by
  have hsteal := gap.steal_le
  have hempty := gap.empty_lt_slotCount
  have hwidth := gap.empty_lt
  have htags := f.tagCount_eq
  simp only [windowWidth] at hwidth
  have hstop : home + v.steal + (v.empty - v.steal) = home + v.empty := by omega
  obtain ⟨s₁, hmoved, hsame₁, hitem₁⟩ := checkedMoveUp_yields (s := s)
    (home + v.steal) (v.empty - v.steal)
    (fun i hi ↦ f.hasSlot (by omega)) (fun i h1 h2 ↦ gap.full i (by omega) (by omega))
    (by rw [hstop]; exact gap.vacant)
  obtain ⟨s₂, hpushed, hsame₂, htag₂⟩ := checkedPushTags_yields (s := s₁)
    (home + v.steal) (v.empty - v.steal)
    (fun i hi ↦ hsame₁.hasSlot (f.hasSlot (by omega)))
    (fun i h1 h2 ↦ by
      obtain ⟨a, ha⟩ := gap.full i (by omega) (by omega)
      rw [hsame₁.tag_eq]
      exact ⟨f.isOccupied_of_item i a ha, gap.room i h1 (by omega)⟩)
  have hslot : s₂.HasSlot (home + v.steal) :=
    hsame₂.hasSlot (hsame₁.hasSlot (f.hasSlot (by omega)))
  have hvacant : s₂.item? (home + v.steal) = none := by
    rw [hsame₂.item?_eq, hitem₁, if_pos rfl]
  refine .require hsteal <| hmoved.andThen <| hpushed.andThen <|
    Checked.Yields.andThen (.require ⟨hslot, hvacant⟩ (.pure _)) <|
    (Tag.checkedEncode_yields hf (by simp only [maxOffset, windowWidth]; omega)).andThen <|
    (Checked.Yields.require (hslot.setCell _ _) (.pure _)).trans ?_
  -- cell by cell, the steps leave what placing says
  have hcount : s₂.slotCount = s.slotCount := by rw [hsame₂.slotCount_eq, hsame₁.slotCount_eq]
  have htagCount : s₂.tags.size = s.tags.size := by rw [hsame₂.tagCount_eq, hsame₁.tags_eq]
  refine ext_cells ?_ ?_ ?_ (fun i ↦ ?_) fun i ↦ ?_
  · rw [capacity_setTag, capacity_setCell, capacity_place, hsame₂.capacity_eq, hsame₁.capacity_eq]
  · rw [slotCount_setTag, slotCount_setCell, slotCount_place, hcount]
  · rw [size_tags_setTag, tags_setCell, size_tags_place, htagCount]
  · rw [tag_setTag, tags_setCell, tag_setCell, htag₂, hsame₁.tag_eq, hsame₁.tag_eq, htagCount,
      tag_place hsteal hempty _ _ (by omega)]
    grind
  · rw [item?_setTag, item?_setCell, hsame₂.item?_eq, hitem₁, hcount, item?_place hsteal hempty]
    grind

/-! ### Removal -/

/-- The items behind an empty slot move forward by one slot, the first of them first. -/
def checkedMoveDown : Nat → Nat → SlotArray α → Checked (SlotArray α)
  | _, 0, s => .pure s
  | start, n + 1, s => (s.checkedMove (start + 1) start).andThen (checkedMoveDown (start + 1) n)

/-- The tags behind a slot move forward by one slot, the first of them first. -/
def checkedPullTags : Nat → Nat → SlotArray α → Checked (SlotArray α)
  | _, 0, s => .pure s
  | start, n + 1, s =>
    (s.checkedTag (start + 1)).andThen fun tag ↦
      tag.checkedPulled.andThen fun pulled ↦
        (s.checkedSetTag start pulled).andThen (checkedPullTags (start + 1) n)

/-- The first index from a given one on whose tag is empty or records offset 0; no tag behind the
first sentinel is read. -/
def checkedRunEnd (s : SlotArray α) (i : Nat) : Checked Nat :=
  .require (i ≤ s.capacity + maxOffset ∧ s.HasTag i) <|
    if h : s.isOccupied i = true ∧ (s.tag i).offset ≠ 0 then s.checkedRunEnd (i + 1) else .pure i
termination_by s.tags.size - i
decreasing_by
  have := s.lt_size_of_isOccupied h.1
  omega

/-- Removes the item of an occupied slot and closes the gap. -/
def checkedErase (s : SlotArray α) (i : Nat) : Checked (SlotArray α) :=
  (s.checkedOccupied i).andThen fun occupied ↦
    .require (occupied = true) <|
      (s.checkedTakeOut i).andThen fun s ↦
        (s.checkedRunEnd (i + 1)).andThen fun stop ↦
          .require (i + 1 ≤ stop) <|
            (checkedMoveDown i (stop - i - 1) s).andThen fun s ↦
              (checkedPullTags i (stop - i - 1) s).andThen fun s ↦
                s.checkedSetTag (stop - 1) .empty

section Down

variable {s : SlotArray α}

/-- A run whose slots have items moves into an empty slot before it. -/
theorem checkedMoveDown_yields (start n : Nat)
    (hslot : ∀ i ≤ start + n, s.HasSlot i)
    (hsome : ∀ i, start < i → i ≤ start + n → ∃ a, s.item? i = some a)
    (hnone : s.item? start = none) :
    ∃ t, (checkedMoveDown start n s).Yields t ∧ SameTags s t ∧ ∀ j, t.item? j =
      if j = start + n then none
      else if start ≤ j ∧ j < start + n then s.item? (j + 1) else s.item? j := by
  induction n generalizing start s with
  | zero =>
    refine ⟨s, .pure s, ⟨rfl, rfl, rfl⟩, fun j ↦ ?_⟩
    split_ifs with h1 h2
    · rw [h1]
      exact hnone
    · omega
    · rfl
  | succ n ih =>
    obtain ⟨a, ha⟩ := hsome (start + 1) (by omega) (by omega)
    have h1 := hslot (start + 1) (by omega)
    have h2 := hslot start (by omega)
    have hitem : ∀ j, ((s.setCell start (s.item? (start + 1))).setCell (start + 1)
        none).item? j = if j = start + 1 then none
          else if j = start then s.item? (start + 1) else s.item? j := fun j ↦ by
      have := h1.lt_slotCount
      have := h2.lt_slotCount
      rw [item?_setCell, item?_setCell, slotCount_setCell]
      grind
    obtain ⟨t, hyields, hsame, hcells⟩ := ih (start + 1)
      (fun i hi ↦ ((hslot i (by omega)).setCell _ _).setCell _ _)
      (fun i h1 h2 ↦ by
        rw [hitem, if_neg (by omega), if_neg (by omega)]
        exact hsome i (by omega) (by omega))
      (by rw [hitem, if_pos rfl])
    refine ⟨t, Checked.Yields.andThen
      (.require ⟨h1, h2, by rw [ha]; rfl, hnone⟩ (.pure _)) hyields, ?_, fun j ↦ ?_⟩
    · exact ⟨hsame.capacity_eq, by simpa using hsame.slotCount_eq, hsame.tags_eq⟩
    · rw [hcells, hitem, hitem]
      grind

/-- The tags of items that are not at home move forward by one slot. -/
theorem checkedPullTags_yields (start n : Nat)
    (hslot : ∀ i ≤ start + n, s.HasSlot i)
    (htag : ∀ i, start < i → i ≤ start + n →
      (s.tag i).isOccupied = true ∧ 0 < (s.tag i).offset) :
    ∃ t, (checkedPullTags start n s).Yields t ∧ SameItems s t ∧ ∀ j, t.tag j =
      if start ≤ j ∧ j < start + n then (s.tag (j + 1)).pulled else s.tag j := by
  induction n generalizing start s with
  | zero => exact ⟨s, .pure s, ⟨rfl, rfl, rfl⟩, fun j ↦ by rw [if_neg (by omega)]⟩
  | succ n ih =>
    obtain ⟨hocc, hoff⟩ := htag (start + 1) (by omega) (by omega)
    have h2 := hslot start (by omega)
    have hcell : ∀ j, (s.setTag start (s.tag (start + 1)).pulled).tag j =
        if j = start then (s.tag (start + 1)).pulled else s.tag j := fun j ↦ by
      have := h2.lt_tagCount
      rw [tag_setTag]
      grind
    obtain ⟨t, hyields, hsame, hcells⟩ := ih (start + 1)
      (fun i hi ↦ (hslot i (by omega)).setTag _ _)
      (fun i h1 h2 ↦ by
        rw [hcell, if_neg (by omega)]
        exact htag i (by omega) (by omega))
    refine ⟨t, Checked.Yields.andThen (.require (hslot _ (by omega)).hasTag (.pure _)) <|
      (Tag.checkedPulled_yields hocc hoff).andThen <|
        Checked.Yields.andThen (.require h2 (.pure _)) hyields, ?_, fun j ↦ ?_⟩
    · exact ⟨hsame.capacity_eq, by simpa using hsame.tagCount_eq, hsame.items_eq⟩
    · rw [hcells, hcell, hcell]
      grind

/-- The end of a run is looked for among the tags of slots and the first sentinel. -/
theorem checkedRunEnd_yields {t : SlotArray α} (hsame : SameTags s t) {i : Nat}
    (hend : s.runEnd i ≤ s.capacity + maxOffset) (htag : ∀ j ≤ s.capacity + maxOffset, s.HasTag j) :
    (t.checkedRunEnd i).Yields (s.runEnd i) := by
  fun_induction runEnd s i with
  | case1 i h ih =>
    have hle : i ≤ s.capacity + maxOffset :=
      Nat.le_trans (Nat.le_of_lt (s.runEnd_spec (i + 1)).1) hend
    rw [checkedRunEnd, dif_pos (by rw [isOccupied, hsame.tag_eq]; exact h)]
    exact .require ⟨hsame.capacity_eq ▸ hle, hsame.hasTag (htag i hle)⟩ (ih hend)
  | case2 i h =>
    rw [checkedRunEnd, dif_neg (by rw [isOccupied, hsame.tag_eq]; exact h)]
    exact .require ⟨hsame.capacity_eq ▸ hend, hsame.hasTag (htag i hend)⟩ (.pure _)

end Down

/-- **Removing an item is safe.** The scan for the end of the run ends at the first sentinel at the
latest, and no sentinel is written. -/
theorem Formed.checkedErase {s : SlotArray α} (f : Formed s) {i : Nat} {a : α}
    (h : s.item? i = some a) : (s.checkedErase i).Yields (s.erase i) := by
  have hi := s.lt_slotCount_of_item? h
  have hstop := f.runEnd_le hi
  have hlt := s.lt_runEnd i
  have htags := f.tagCount_eq
  have hout : SameTags s (s.setCell i none) := ⟨rfl, by simp, rfl⟩
  have hend := checkedRunEnd_yields hout (i := i + 1) (f.slotCount_eq ▸ hstop)
    fun j hj ↦ f.hasTag (f.slotCount_eq ▸ hj)
  have hitem₀ : ∀ j, (s.setCell i none).item? j = if j = i then none else s.item? j := fun j ↦ by
    rw [item?_setCell]
    grind
  obtain ⟨s₁, hmoved, hsame₁, hitem₁⟩ := checkedMoveDown_yields
    (s := s.setCell i none) i (s.runEnd (i + 1) - i - 1)
    (fun j hj ↦ hout.hasSlot (f.hasSlot (by omega)))
    (fun j h1 h2 ↦ by
      obtain ⟨b, hb, -⟩ := f.item_of_lt_runEnd hi h1 (by omega)
      exact ⟨b, by rw [hitem₀, if_neg (by omega), hb]⟩)
    (by rw [hitem₀, if_pos rfl])
  obtain ⟨s₂, hpulled, hsame₂, htag₂⟩ := checkedPullTags_yields
    (s := s₁) i (s.runEnd (i + 1) - i - 1)
    (fun j hj ↦ hsame₁.hasSlot (hout.hasSlot (f.hasSlot (by omega))))
    (fun j h1 h2 ↦ by
      obtain ⟨b, hb, hoff⟩ := f.item_of_lt_runEnd hi h1 (by omega)
      rw [hsame₁.tag_eq, hout.tag_eq]
      exact ⟨f.isOccupied_of_item j b hb, Nat.pos_of_ne_zero hoff⟩)
  have hlast : s₂.HasSlot (s.runEnd (i + 1) - 1) :=
    hsame₂.hasSlot (hsame₁.hasSlot (hout.hasSlot (f.hasSlot (by omega))))
  refine (f.checkedOccupied hi).andThen <| .require (f.isOccupied_of_item i a h) <|
    Checked.Yields.andThen (.require ⟨f.hasSlot hi, by rw [h]; rfl⟩ (.pure _)) <|
    hend.andThen <| .require hlt <| hmoved.andThen <| hpulled.andThen <|
    (Checked.Yields.require hlast (.pure _)).trans ?_
  -- cell by cell, the steps leave what erasing says
  have hcount : s₂.slotCount = s.slotCount := by
    rw [hsame₂.slotCount_eq, hsame₁.slotCount_eq, hout.slotCount_eq]
  have htagCount : s₂.tags.size = s.tags.size := by
    rw [hsame₂.tagCount_eq, hsame₁.tags_eq, hout.tags_eq]
  refine ext_cells ?_ ?_ ?_ (fun j ↦ ?_) fun j ↦ ?_
  · rw [capacity_setTag, capacity_erase, hsame₂.capacity_eq, hsame₁.capacity_eq, capacity_setCell]
  · rw [slotCount_setTag, slotCount_erase, hcount]
  · rw [size_tags_setTag, size_tags_erase, htagCount]
  · rw [tag_setTag, htag₂, hsame₁.tag_eq, hsame₁.tag_eq, hout.tag_eq, hout.tag_eq, htagCount,
      tag_erase hstop (by omega)]
    grind
  · rw [item?_setTag, hsame₂.item?_eq, hitem₁, hitem₀, hitem₀, item?_erase hstop]
    grind

end ProbeWindow.SlotArray
