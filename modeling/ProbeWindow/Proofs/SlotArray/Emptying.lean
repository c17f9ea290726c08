import ProbeWindow.Proofs.SlotArray.Order

/-!
# Emptying slots

Slots are emptied in ascending order when all items go, and nothing moves. Where this stops at some
slot, the slots before it are vacant and the others are as they were (`emptied`).

At every stage the array is in form, and at the end it is blank (`Formed.emptied_slotCount`). It is
not in order at every stage: an item that is left may have its home among the emptied slots, and then
there is a hole between the two. That is the only obstacle (`Ordered.ordered_emptied_iff`).
-/

namespace ProbeWindow.SlotArray

universe u

variable {α : Type u}

/-! ### One slot -/

/-- An array that has an item where another one has none, and is the same elsewhere, has one item
more. -/
theorem length_toList_of_item? {s t : SlotArray α} {i : Nat} {a : α} (ha : s.item? i = some a)
    (hnone : t.item? i = none) (hcount : t.slotCount = s.slotCount)
    (h : ∀ j, j ≠ i → t.item? j = s.item? j) : s.toList.length = t.toList.length + 1 := by
  have hi : i < t.slotCount := hcount ▸ s.lt_slotCount_of_item? ha
  have hbefore : t.segment 0 i = s.segment 0 i :=
    segment_congr_slots _ fun j _ hj ↦ h j (Nat.ne_of_lt hj)
  have hbehind : t.segment i t.slotCount = s.segment (i + 1) s.slotCount := by
    rw [segment_of_vacant _ hi hnone, hcount]
    exact segment_congr_slots _ fun j hj _ ↦ h j (by omega)
  rw [s.toList_of_item? ha, t.toList_cut i, hbefore, hbehind, List.length_append,
    List.length_append, List.length_cons, Nat.add_assoc]

section Blank

variable {s : SlotArray α}

section Congr

variable {t : SlotArray α} (f : Formed s) (g : Formed t) (hcapacity : t.capacity = s.capacity)
include f g hcapacity

theorem Formed.slotCount_congr : t.slotCount = s.slotCount := by
  rw [g.slotCount_eq, f.slotCount_eq, hcapacity]

theorem Formed.tagCount_congr : t.tags.size = s.tags.size := by
  rw [g.tagCount_eq, f.tagCount_eq, f.slotCount_congr g hcapacity]

/-- Arrays in form of the same capacity have the same tags when their slots have. -/
theorem Formed.tag_congr (h : ∀ i < s.slotCount, t.tag i = s.tag i) (i : Nat) :
    t.tag i = s.tag i := by
  have hcount := f.slotCount_congr g hcapacity
  by_cases h1 : i < s.slotCount
  · exact h i h1
  by_cases h2 : i < s.slotCount + windowWidth
  · rw [f.tag_sentinel i (Nat.le_of_not_lt h1) h2,
      g.tag_sentinel i (hcount ▸ Nat.le_of_not_lt h1) (hcount ▸ h2)]
  -- behind the sentinels there are no tags, in either array
  · have h3 : ¬i < s.tags.size := by rwa [f.tagCount_eq]
    have h4 : ¬i < t.tags.size := by rwa [f.tagCount_congr g hcapacity]
    simp only [tag, Array.getD, h3, h4, dite_false]

/-- Arrays in form without items are the same when they have the same capacity. -/
theorem Formed.eq_of_vacant (hs : ∀ i, s.item? i = none) (ht : ∀ i, t.item? i = none) : t = s := by
  have hcount := f.slotCount_congr g hcapacity
  refine ext_cells hcapacity hcount (f.tagCount_congr g hcapacity)
    (f.tag_congr g hcapacity fun i hi ↦ ?_) fun i ↦ by rw [hs i, ht i]
  rw [f.tag_vacant i hi (hs i), g.tag_vacant i (hcount ▸ hi) (ht i)]

end Congr

variable (f : Formed s)
include f

/-- An array in form without items is blank. -/
theorem Formed.eq_blank (h : ∀ i, s.item? i = none) : s = blank s.capacity :=
  (formed_blank s.capacity).eq_of_vacant f (capacity_blank _).symm (item?_blank s.capacity) h

/-- A slot may be emptied. -/
theorem Formed.vacate {i : Nat} (hi : i < s.slotCount) : Formed (s.vacate i) := by
  have htags := f.tagCount_eq
  refine f.exchange hi rfl (s.slotCount_vacate i) (s.size_tags_vacate i) (fun j hj ↦ ?_)
    (fun j hj ↦ ?_) (fun _ ↦ ?_) fun a ha ↦ ?_
  · rw [tag_vacate, if_neg fun h ↦ hj h.1]
  · rw [item?_vacate, if_neg fun h ↦ hj h.1]
  · rw [tag_vacate, if_pos ⟨rfl, by omega⟩]
  · rw [item?_vacate, if_pos ⟨rfl, hi⟩] at ha
    cases ha

end Blank

/-! ### All slots before one -/

/-- The array with the slots before a given one emptied. -/
def emptied (s : SlotArray α) (stop : Nat) : SlotArray α := (List.range stop).foldl vacate s

section Emptied

variable (s : SlotArray α) (stop : Nat)

@[simp]
theorem emptied_zero : s.emptied 0 = s := rfl

theorem emptied_succ : s.emptied (stop + 1) = (s.emptied stop).vacate stop := by
  rw [emptied, List.range_succ, List.foldl_append]
  rfl

@[simp]
theorem capacity_emptied : (s.emptied stop).capacity = s.capacity := by
  induction stop with
  | zero => rfl
  | succ stop ih => rw [emptied_succ, capacity_vacate, ih]

@[simp]
theorem slotCount_emptied : (s.emptied stop).slotCount = s.slotCount := by
  induction stop with
  | zero => rfl
  | succ stop ih => rw [emptied_succ, slotCount_vacate, ih]

/-- The slots before a given one are vacant. -/
theorem item?_emptied (i : Nat) :
    (s.emptied stop).item? i = if i < stop then none else s.item? i := by
  induction stop with
  | zero => rfl
  | succ stop ih =>
    rw [emptied_succ, item?_vacate, ih, slotCount_emptied]
    rcases Nat.lt_trichotomy i stop with hlt | rfl | hgt
    · rw [if_neg (by omega), if_pos hlt, if_pos (by omega)]
    · rw [if_neg (Nat.lt_irrefl i), if_pos (Nat.lt_succ_self i)]
      split
      · rfl
      · next hi => exact s.item?_eq_none_of_le (Nat.le_of_not_lt fun h ↦ hi ⟨rfl, h⟩)
    · rw [if_neg (by omega), if_neg (by omega), if_neg (by omega)]

/-- The tags from a given slot on are as they were. -/
theorem tag_emptied {i : Nat} (h : stop ≤ i) : (s.emptied stop).tag i = s.tag i := by
  induction stop with
  | zero => rfl
  | succ stop ih => rw [emptied_succ, tag_vacate, if_neg (by omega), ih (by omega)]

/-- The items from a given slot on are left. -/
theorem toList_emptied : (s.emptied stop).toList = s.segment stop s.slotCount := by
  rw [(s.emptied stop).toList_cut stop, slotCount_emptied,
    segment_eq_nil _ fun i _ hi ↦ by rw [item?_emptied, if_pos hi], List.nil_append]
  exact segment_congr_slots _ fun i hi _ ↦ by rw [item?_emptied, if_neg (by omega)]

end Emptied

section Formed

variable {s : SlotArray α} {stop : Nat} (f : Formed s)
include f

theorem Formed.emptied (hstop : stop ≤ s.slotCount) : Formed (s.emptied stop) := by
  induction stop with
  | zero => exact f
  | succ stop ih =>
    rw [emptied_succ]
    exact (ih (by omega)).vacate (by rw [slotCount_emptied]; omega)

/-- A vacant slot need not be emptied. -/
theorem Formed.vacate_eq_self {i : Nat} (hi : i < s.slotCount) (hnone : s.item? i = none) :
    s.vacate i = s := by
  refine ext_cells rfl (s.slotCount_vacate i) (s.size_tags_vacate i) (fun j ↦ ?_) fun j ↦ ?_
  · rw [tag_vacate]
    split_ifs with hj
    · rw [hj.1, f.tag_vacant i hi hnone]
    · rfl
  · rw [item?_vacate]
    split_ifs with hj
    · rw [hj.1, hnone]
    · rfl

/-- **An array whose slots are all emptied is blank.** -/
theorem Formed.emptied_slotCount : s.emptied s.slotCount = blank s.capacity := by
  have hblank := (f.emptied (Nat.le_refl _)).eq_blank fun i ↦ by
    rw [item?_emptied]
    split_ifs with hi
    · rfl
    · exact s.item?_eq_none_of_le (Nat.le_of_not_lt hi)
  rw [hblank, capacity_emptied]

end Formed

/-- **Emptied slots leave an array in order if and only if no item that is left has its home among
them.** -/
theorem Ordered.ordered_emptied_iff {hash : α → UInt64} {index : UInt64 → Nat} {s : SlotArray α}
    (ord : Ordered hash index s) {stop : Nat} (hstop : stop ≤ s.slotCount) :
    Ordered hash index (s.emptied stop) ↔
      ∀ i a, stop ≤ i → s.item? i = some a → stop ≤ index (hash a) := by
  have hitem : ∀ {i a}, (s.emptied stop).item? i = some a ↔ stop ≤ i ∧ s.item? i = some a := by
    intro i a
    rw [item?_emptied]
    split_ifs with hi
    · exact ⟨nofun, fun h ↦ absurd hi (Nat.not_lt_of_le h.1)⟩
    · exact ⟨fun h ↦ ⟨Nat.le_of_not_lt hi, h⟩, fun h ↦ h.2⟩
  constructor
  · intro h i a hi ha
    by_contra hlt
    -- the slot before `stop` is vacant, and on the way from the home of the item to its slot
    refine h.no_hole i a (stop - 1) (hitem.mpr ⟨hi, ha⟩) (by omega) (by omega) ?_
    rw [item?_emptied, if_pos (by omega)]
  · intro h
    have hform := ord.formed.emptied hstop
    constructor
    case slotCount_eq => exact hform.slotCount_eq
    case tagCount_eq => exact hform.tagCount_eq
    case tag_sentinel => exact hform.tag_sentinel
    case tag_vacant => exact hform.tag_vacant
    case tag_item =>
      intro i a ha
      obtain ⟨hi, ha⟩ := hitem.mp ha
      rw [tag_emptied s stop hi, ord.tag_item i a ha]
    case home_lt => exact fun i a ha ↦ capacity_emptied s stop ▸ ord.home_lt i a (hitem.mp ha).2
    case home_le => exact fun i a ha ↦ ord.home_le i a (hitem.mp ha).2
    case le_home_add => exact fun i a ha ↦ ord.le_home_add i a (hitem.mp ha).2
    case no_hole =>
      intro i a j ha hhome hj
      obtain ⟨hi, ha⟩ := hitem.mp ha
      have := h i a hi ha
      rw [item?_emptied, if_neg (by omega)]
      exact ord.no_hole i a j ha hhome hj
    case sorted => exact fun i j a b hij ha hb ↦ ord.sorted i j a b hij (hitem.mp ha).2 (hitem.mp hb).2

end ProbeWindow.SlotArray
