import ProbeWindow.Proofs.SlotArray.Order

/-!
# Placing an item

A vacancy splits the items around it into those that stay and those that move back by one. In an
array in form it is a gap (`Gap`): all slots of the window before the empty one have items, and
those that move have room to. From this, placing keeps the array in form, and it inserts the new
item into the list of items between the two groups.

In an array in order, what the search for a vacancy has checked on tags is a statement about the
homes of items (`Opening`): before the new slot no home is larger than the home of the new item,
behind it all are, and none of the items that move is at the end of its window. From this, placing
keeps the array in order.

A new item goes behind all items of its hash: what is behind an opening has a larger home. So items
that are placed one after the other come, among those of one hash, in the order in which they were
placed, and this is what a look-up depends on when keys are equal.
-/

namespace ProbeWindow.SlotArray

universe u

variable {α : Type u} {hash : α → UInt64} {index : UInt64 → Nat} {s : SlotArray α}
  {home : Nat} {v : Vacancy}

/-- What a vacancy of the window of `home` says about the slots. -/
structure Gap (s : SlotArray α) (home : Nat) (v : Vacancy) : Prop where
  /-- The new slot is not behind the empty one. -/
  steal_le : v.steal ≤ v.empty
  /-- The empty slot is in the window. -/
  empty_lt : v.empty < windowWidth
  /-- The empty slot is one of the array. -/
  empty_lt_slotCount : home + v.empty < s.slotCount
  /-- The empty slot is empty. -/
  vacant : s.item? (home + v.empty) = none
  /-- The slots of the window before it have items. -/
  full : ∀ i, home ≤ i → i < home + v.empty → ∃ a, s.item? i = some a
  /-- The items that move are not yet as far from home as they can be. -/
  room : ∀ i, home + v.steal ≤ i → i < home + v.empty → (s.tag i).offset < maxOffset

/-- What a vacancy of the window of `home` says about the items. -/
structure Opening (hash : α → UInt64) (index : UInt64 → Nat) (s : SlotArray α) (home : Nat)
    (v : Vacancy) : Prop where
  /-- The new slot is not behind the empty one. -/
  steal_le : v.steal ≤ v.empty
  /-- The empty slot is in the window. -/
  empty_lt : v.empty < windowWidth
  /-- The empty slot is one of the array. -/
  empty_lt_slotCount : home + v.empty < s.slotCount
  /-- The empty slot is empty. -/
  vacant : s.item? (home + v.empty) = none
  /-- Every slot of the window before the new one has an item, of no larger home. -/
  before : ∀ i, home ≤ i → i < home + v.steal →
    ∃ a, s.item? i = some a ∧ index (hash a) ≤ home
  /-- Every slot from the new one to the empty one has an item, of a larger home, which has room
  to move. -/
  behind : ∀ i, home + v.steal ≤ i → i < home + v.empty →
    ∃ a, s.item? i = some a ∧ home < index (hash a) ∧ i < index (hash a) + maxOffset

/-! ### What the search finds -/

/-- The lane to steal is the first one whose resident is closer to its home than the lane. -/
theorem stealLane_spec (s : SlotArray α) (home empty : Nat) :
    s.stealLane home empty ≤ empty ∧
      (∀ lane < s.stealLane home empty, lane ≤ (s.tag (home + lane)).offset) ∧
        (s.stealLane home empty < empty →
          (s.tag (home + s.stealLane home empty)).offset < s.stealLane home empty) := by
  unfold stealLane
  cases h : (List.range empty).find? fun lane ↦ decide ((s.tag (home + lane)).offset < lane) with
  | none =>
    simp only [List.find?_eq_none, List.mem_range, decide_eq_true_eq, Nat.not_lt] at h
    exact ⟨Nat.le_refl _, h, fun hlt ↦ absurd hlt (Nat.lt_irrefl _)⟩
  | some lane =>
    simp only [List.find?_range_eq_some, decide_eq_true_eq, List.mem_range, Bool.not_eq_true',
      decide_eq_false_iff_not, Nat.not_lt] at h
    exact ⟨Nat.le_of_lt h.2.1, h.2.2, fun _ ↦ h.1⟩

theorem vacancy?_eq_some (h : s.vacancy? home = some v) :
    (s.group home).vacant.lowest? = some v.empty ∧ v.steal = s.stealLane home v.empty ∧
      ∀ lane, v.steal ≤ lane → lane < v.empty → (s.tag (home + lane)).offset ≠ maxOffset := by
  simp only [vacancy?, Option.bind_eq_bind, Option.bind_eq_some_iff] at h
  obtain ⟨empty, hempty, h⟩ := h
  split at h
  · cases h
  · next hany =>
    cases h
    refine ⟨hempty, rfl, fun lane h1 h2 heq ↦ hany ?_⟩
    exact List.any_eq_true.mpr ⟨lane, List.mem_range'_1.mpr (by simp only at h1 h2 ⊢; omega), by
      simpa using heq⟩

/-- The first empty lane of a window is that of an empty slot, and the slots of the window before it
have items. -/
theorem Formed.of_lowest? (f : Formed s) (hhome : home < s.capacity) {empty : Nat}
    (h : (s.group home).vacant.lowest? = some empty) :
    empty < windowWidth ∧ home + empty < s.slotCount ∧ s.item? (home + empty) = none ∧
      ∀ i, home ≤ i → i < home + empty → ∃ a, s.item? i = some a := by
  obtain ⟨hlt, hfree, hocc⟩ := (LaneMask.lowest?_eq_some_iff _).mp h
  have hcount := f.slotCount_eq
  simp only [maxOffset, windowWidth] at hlt hcount
  rw [s.has_vacant_group home hlt, Bool.not_eq_true'] at hfree
  refine ⟨hlt, by omega, f.item?_eq_none (by omega) hfree, fun i h1 h2 ↦ ?_⟩
  have hlane := hocc (i - home) (by omega)
  rw [s.has_vacant_group home (by simp only [windowWidth]; omega), Bool.not_eq_false',
    Nat.add_sub_cancel' h1] at hlane
  exact f.exists_item (by omega) hlane

/-- **A vacancy is a gap.** The tags that the search reads are those of items. -/
theorem Formed.gap (f : Formed s) (hhome : home < s.capacity) (h : s.vacancy? home = some v) :
    Gap s home v := by
  obtain ⟨hlow, hsteal, hroom⟩ := vacancy?_eq_some h
  obtain ⟨hlt, hcount, hvacant, hfull⟩ := f.of_lowest? hhome hlow
  refine ⟨hsteal ▸ (s.stealLane_spec home v.empty).1, hlt, hcount, hvacant, hfull,
    fun i h1 h2 ↦ ?_⟩
  have hne := hroom (i - home) (by omega) (by omega)
  rw [Nat.add_sub_cancel' (by omega)] at hne
  exact Nat.lt_of_le_of_ne (s.tag i).offset_le hne

/-- **A vacancy is an opening.** -/
theorem Ordered.opening (ord : Ordered hash index s) (hhome : home < s.capacity)
    (h : s.vacancy? home = some v) : Opening hash index s home v := by
  have gap := ord.formed.gap hhome h
  obtain ⟨-, hsteal, -⟩ := vacancy?_eq_some h
  obtain ⟨-, hbefore, hfirst⟩ := s.stealLane_spec home v.empty
  rw [← hsteal] at hbefore hfirst
  have hle := gap.steal_le
  refine ⟨hle, gap.empty_lt, gap.empty_lt_slotCount, gap.vacant, ?_, ?_⟩
  · intro i h1 h2
    obtain ⟨a, ha⟩ := gap.full i h1 (by omega)
    have hoff := hbefore (i - home) (by omega)
    rw [Nat.add_sub_cancel' h1, ord.offset_tag ha] at hoff
    have := ord.home_le i a ha
    exact ⟨a, ha, by omega⟩
  · intro i h1 h2
    obtain ⟨a, ha⟩ := gap.full i (by omega) h2
    obtain ⟨b, hb⟩ := gap.full (home + v.steal) (by omega) (by omega)
    -- the first of the residents that move has a larger home, so the others have
    have hoffb := hfirst (by omega)
    rw [ord.offset_tag hb] at hoffb
    have hab := ord.sorted _ _ b a h1 hb ha
    have hoffa := gap.room i h1 h2
    rw [ord.offset_tag ha] at hoffa
    have hleb := ord.home_le _ b hb
    exact ⟨a, ha, by omega, by omega⟩

/-! ### The array after placing, cell by cell -/

section Cells

@[simp]
theorem slotCount_place (home : Nat) (fragment : UInt8) (v : Vacancy) (x : α) :
    (s.place home fragment v x).slotCount = s.slotCount := by
  simp [place]

@[simp]
theorem size_tags_place (home : Nat) (fragment : UInt8) (v : Vacancy) (x : α) :
    (s.place home fragment v x).tags.size = s.tags.size := by
  rw [place, size_tags_write, size_tags_pushRun]

variable (hsteal : v.steal ≤ v.empty) (hempty : home + v.empty < s.slotCount)
include hsteal hempty

theorem item?_place (fragment : UInt8) (x : α) (i : Nat) :
    (s.place home fragment v x).item? i =
      if i = home + v.steal then some x
      else if home + v.steal < i ∧ i ≤ home + v.empty then s.item? (i - 1) else s.item? i := by
  rw [place, item?_write, slotCount_pushRun, item?_pushRun _ _ (by omega)]
  grind

theorem tag_place (fragment : UInt8) (x : α) (hsize : s.slotCount ≤ s.tags.size)
    (i : Nat) : (s.place home fragment v x).tag i =
      if i = home + v.steal then .encode fragment v.steal
      else if home + v.steal < i ∧ i ≤ home + v.empty then (s.tag (i - 1)).pushed
      else s.tag i := by
  rw [place, tag_write, size_tags_pushRun, tag_pushRun _ _ (by omega)]
  grind

/-- Where the items of the new array come from: the new item, the items that stayed, and the items
that moved back by one. -/
theorem item?_place_cases {fragment : UInt8} {x : α} {i : Nat} {a : α}
    (h : (s.place home fragment v x).item? i = some a) :
    (i = home + v.steal ∧ a = x) ∨
      (s.item? i = some a ∧ (i < home + v.steal ∨ home + v.empty < i)) ∨
        ∃ j, i = j + 1 ∧ s.item? j = some a ∧ home + v.steal ≤ j ∧ j < home + v.empty := by
  rw [item?_place hsteal hempty] at h
  split_ifs at h with h1 h2
  · exact .inl ⟨h1, (Option.some.inj h).symm⟩
  · exact .inr (.inr ⟨i - 1, by omega, h, by omega, by omega⟩)
  · exact .inr (.inl ⟨h, by omega⟩)

/-- Placing leaves the items before its slot and those from its slot on in sequence. -/
theorem segment_place (hvacant : s.item? (home + v.empty) = none) (fragment : UInt8) (x : α) :
    (s.place home fragment v x).segment 0 (home + v.steal) = s.segment 0 (home + v.steal) ∧
      (s.place home fragment v x).segment (home + v.steal + 1) s.slotCount =
        s.segment (home + v.steal) s.slotCount := by
  have hitem := item?_place hsteal hempty fragment x
  -- the run is one slot further, and the slot behind it was empty
  have hrun : (s.place home fragment v x).segment (home + v.steal + 1) (home + v.empty + 1) =
      s.segment (home + v.steal) (home + v.empty) :=
    segment_succ_succ _ fun i h1 h2 ↦ by
      rw [hitem, if_neg (by omega), if_pos (by omega), Nat.add_sub_cancel]
  have hback : (s.place home fragment v x).segment (home + v.empty + 1) s.slotCount =
      s.segment (home + v.empty) s.slotCount := by
    rw [s.segment_of_vacant hempty hvacant]
    exact segment_congr_slots _ fun i h1 _ ↦ by rw [hitem, if_neg (by omega), if_neg (by omega)]
  refine ⟨segment_congr_slots _ fun i _ hi ↦ ?_, ?_⟩
  · rw [hitem, if_neg (by omega), if_neg (by omega)]
  · rw [segment_cut _ (home + v.steal + 1) (home + v.empty + 1) _ (by omega) (by omega), hrun,
      hback, s.segment_cut (home + v.steal) (home + v.empty) s.slotCount (by omega) (by omega)]

/-- **Placing inserts the item** between the items before its slot and those from its slot on. -/
theorem toList_place (hvacant : s.item? (home + v.empty) = none) (fragment : UInt8) (x : α) :
    (s.place home fragment v x).toList =
      s.segment 0 (home + v.steal) ++ x :: s.segment (home + v.steal) s.slotCount := by
  obtain ⟨hfront, hback⟩ := segment_place hsteal hempty hvacant fragment x
  have hplaced : (s.place home fragment v x).item? (home + v.steal) = some x := by
    rw [item?_place hsteal hempty, if_pos rfl]
  rw [toList_of_item? _ hplaced, slotCount_place, hfront, hback]

theorem toList_place_perm (hvacant : s.item? (home + v.empty) = none) (fragment : UInt8) (x : α) :
    (s.place home fragment v x).toList.Perm (x :: s.toList) := by
  rw [toList_place hsteal hempty hvacant, toList_eq_segment,
    s.segment_cut 0 (home + v.steal) s.slotCount (Nat.zero_le _) (by omega)]
  exact List.perm_middle

end Cells

/-! ### Form -/

/-- **Placing keeps the array in form.** -/
theorem Formed.place (f : Formed s) (gap : Gap s home v) {fragment : UInt8} (hf : fragment < 8)
    (x : α) : Formed (s.place home fragment v x) := by
  have hsteal := gap.steal_le
  have hempty := gap.empty_lt_slotCount
  have hwidth := gap.empty_lt
  have htags := f.tagCount_eq
  have htag := tag_place hsteal hempty fragment x (by omega)
  simp only [windowWidth] at hwidth
  constructor
  case slotCount_eq => rw [slotCount_place, capacity_place, f.slotCount_eq]
  case tagCount_eq => rw [slotCount_place, size_tags_place, htags]
  case tag_sentinel =>
    intro i h1 h2
    rw [slotCount_place] at h1 h2
    rw [htag, if_neg (by omega), if_neg (by omega), f.tag_sentinel i h1 h2]
  case tag_vacant =>
    intro i h1 h2
    rw [slotCount_place] at h1
    rw [item?_place hsteal hempty] at h2
    split_ifs at h2 with h3 h4
    -- a slot of the run that moved has an item
    · obtain ⟨a, ha⟩ := gap.full (i - 1) (by omega) (by omega)
      rw [h2] at ha
      cases ha
    · rw [htag, if_neg h3, if_neg h4, f.tag_vacant i h1 h2]
  case isOccupied_of_item =>
    intro i a h
    rw [isOccupied, htag]
    rcases item?_place_cases hsteal hempty h with ⟨rfl, -⟩ | ⟨ha, hi⟩ | ⟨j, rfl, ha, h1, h2⟩
    · rw [if_pos rfl]
      exact Tag.isOccupied_encode hf (by simp only [maxOffset, windowWidth]; omega)
    · rw [if_neg (by omega), if_neg (by omega)]
      exact f.isOccupied_of_item i a ha
    · rw [if_neg (by omega), if_pos (by omega), Nat.add_sub_cancel, Tag.isOccupied_pushed]
      exact f.isOccupied_of_item j a ha

section Opening

variable (op : Opening hash index s home v)
include op

/-! ### Homes around an opening -/

/-- An opening is a gap. -/
theorem Opening.gap (ord : Ordered hash index s) : Gap s home v := by
  have hsteal := op.steal_le
  refine ⟨hsteal, op.empty_lt, op.empty_lt_slotCount, op.vacant, fun i h1 h2 ↦ ?_,
    fun i h1 h2 ↦ ?_⟩
  · rcases Nat.lt_or_ge i (home + v.steal) with hlt | hge
    · obtain ⟨a, ha, -⟩ := op.before i h1 hlt
      exact ⟨a, ha⟩
    · obtain ⟨a, ha, -⟩ := op.behind i hge h2
      exact ⟨a, ha⟩
  · obtain ⟨a, ha, -, hroom⟩ := op.behind i h1 h2
    rw [ord.offset_tag ha]
    simp only [maxOffset, windowWidth] at hroom ⊢
    omega

theorem Opening.home_le_of_lt (ord : Ordered hash index s) {i : Nat} {a : α}
    (h : s.item? i = some a) (hlt : i < home + v.steal) : index (hash a) ≤ home := by
  by_cases hi : home ≤ i
  · obtain ⟨b, hb, hle⟩ := op.before i hi hlt
    rw [h] at hb
    cases hb
    exact hle
  · have := ord.home_le i a h
    omega

theorem Opening.home_lt_of_le {i : Nat} {a : α} (h : s.item? i = some a)
    (h1 : home + v.steal ≤ i) (h2 : i < home + v.empty) :
    home < index (hash a) ∧ i < index (hash a) + maxOffset := by
  obtain ⟨b, hb, hlt⟩ := op.behind i h1 h2
  rw [h] at hb
  cases hb
  exact hlt

end Opening

/-! ### Order -/

/-- **Placing keeps the array in order.** -/
theorem Ordered.place (ord : Ordered hash index s) {x : α}
    (op : Opening hash index s (index (hash x)) v) (hhome : index (hash x) < s.capacity) :
    Ordered hash index (s.place (index (hash x)) (Tag.fragmentOf (hash x)) v x) := by
  have hsteal := op.steal_le
  have hwidth := op.empty_lt
  have hempty := op.empty_lt_slotCount
  have htags := ord.tagCount_eq
  simp only [windowWidth] at hwidth htags
  have hform := ord.formed.place (op.gap ord) (Tag.fragmentOf_lt (hash x)) x
  have htag := tag_place hsteal hempty (Tag.fragmentOf (hash x)) x (by omega)
  constructor
  case slotCount_eq => exact hform.slotCount_eq
  case tagCount_eq => exact hform.tagCount_eq
  case tag_sentinel => exact hform.tag_sentinel
  case tag_vacant => exact hform.tag_vacant
  case tag_item =>
    intro i a h
    rcases item?_place_cases hsteal hempty h with ⟨rfl, rfl⟩ | ⟨ha, hi⟩ | ⟨j, rfl, ha, h1, h2⟩
    · rw [htag, if_pos rfl, Nat.add_sub_cancel_left]
    · rw [htag, if_neg (by omega), if_neg (by omega), ord.tag_item i a ha]
    · obtain ⟨-, hroom⟩ := op.home_lt_of_le ha h1 h2
      have hle := ord.home_le j a ha
      rw [htag, if_neg (by omega), if_pos (by omega), Nat.add_sub_cancel, ord.tag_item j a ha,
        Tag.pushed_encode (Tag.fragmentOf_lt _) (by omega)]
      congr 1
      omega
  case home_lt =>
    intro i a h
    rw [capacity_place]
    rcases item?_place_cases hsteal hempty h with ⟨-, rfl⟩ | ⟨ha, -⟩ | ⟨j, -, ha, -⟩
    exacts [hhome, ord.home_lt i a ha, ord.home_lt j a ha]
  case home_le =>
    intro i a h
    rcases item?_place_cases hsteal hempty h with ⟨rfl, rfl⟩ | ⟨ha, -⟩ | ⟨j, rfl, ha, -⟩
    · omega
    · exact ord.home_le i a ha
    · have := ord.home_le j a ha
      omega
  case le_home_add =>
    intro i a h
    rcases item?_place_cases hsteal hempty h with ⟨rfl, rfl⟩ | ⟨ha, -⟩ | ⟨j, rfl, ha, h1, h2⟩
    · simp only [maxOffset, windowWidth]
      omega
    · exact ord.le_home_add i a ha
    · have := (op.home_lt_of_le ha h1 h2).2
      omega
  case no_hole =>
    intro i a k h h1 h2
    rw [item?_place hsteal hempty]
    split_ifs with h3 h4
    · simp
    · obtain ⟨b, hb, -⟩ := op.behind (k - 1) (by omega) (by omega)
      simp [hb]
    · rcases item?_place_cases hsteal hempty h with ⟨rfl, rfl⟩ | ⟨ha, hi⟩ | ⟨j, rfl, ha, h5, h6⟩
      · obtain ⟨b, hb, -⟩ := op.before k h1 (by omega)
        simp [hb]
      · exact ord.no_hole i a k ha h1 h2
      · exact ord.no_hole j a k ha h1 (by omega)
  case sorted =>
    intro i k a b hik hi hk
    -- each of the two items is the new one, or stayed, or moved
    rcases item?_place_cases hsteal hempty hi with ⟨rfl, rfl⟩ | ⟨ha, h1⟩ | ⟨j, rfl, ha, h1, h2⟩ <;>
      rcases item?_place_cases hsteal hempty hk with ⟨rfl, rfl⟩ | ⟨hb, h3⟩ | ⟨l, rfl, hb, h3, h4⟩
    · exact Nat.le_refl _
    · have := ord.lt_home_of_vacant op.vacant hb (by omega)
      omega
    · have := (op.home_lt_of_le hb h3 h4).1
      omega
    · exact op.home_le_of_lt ord ha (by omega)
    · exact ord.sorted i k a b hik ha hb
    · exact ord.sorted i l a b (by omega) ha hb
    · omega
    · exact ord.sorted j k a b (by omega) ha hb
    · exact ord.sorted j l a b (by omega) ha hb

/-! ### Stability -/

/-- What is behind an opening has a larger home, also behind the empty slot. -/
theorem Opening.home_lt {home : Nat} (op : Opening hash index s home v)
    (ord : Ordered hash index s) {i : Nat} {a : α} (h : s.item? i = some a)
    (hle : home + v.steal ≤ i) : home < index (hash a) := by
  rcases Nat.lt_or_ge i (home + v.empty) with hlt | hge
  · exact (op.home_lt_of_le h hle hlt).1
  · have := ord.lt_home_of_vacant op.vacant h hge
    omega

/-- **Placing appends the new item to the items of its hash**, and leaves those of another hash. -/
theorem Opening.filter_toList_place {x : α} (op : Opening hash index s (index (hash x)) v)
    (ord : Ordered hash index s) (fragment : UInt8) (h : UInt64) :
    (s.place (index (hash x)) fragment v x).toList.filter (fun a ↦ hash a = h) =
      (s.toList ++ [x]).filter fun a ↦ hash a = h := by
  rw [toList_place op.steal_le op.empty_lt_slotCount op.vacant,
    s.toList_cut (index (hash x) + v.steal)]
  simp only [List.filter_append, List.append_assoc, List.append_cancel_left_eq]
  by_cases hx : hash x = h
  · -- nothing behind the opening has the hash, since its home is another one
    have hback : (s.segment (index (hash x) + v.steal) s.slotCount).filter
        (fun a ↦ hash a = h) = [] := by
      refine List.filter_eq_nil_iff.mpr fun a ha hah ↦ ?_
      obtain ⟨i, hle, -, hi⟩ := s.mem_segment.mp ha
      have hlt := op.home_lt ord hi hle
      rw [of_decide_eq_true hah, hx] at hlt
      exact Nat.lt_irrefl _ hlt
    rw [List.filter_cons, if_pos (decide_eq_true hx), hback, List.nil_append, List.filter_cons,
      if_pos (decide_eq_true hx)]
    rfl
  · rw [List.filter_cons, if_neg (by simpa using hx), List.filter_cons, if_neg (by simpa using hx),
      List.filter_nil, List.append_nil]

end ProbeWindow.SlotArray
