import ProbeWindow.Proofs.SlotArray.Order
import ProbeWindow.Proofs.SlotArray.Walk
import Mathlib.Data.List.Sort

/-!
# Where the items are

In an array in order the slots of the items are determined by their homes: taken in the order of
homes, each item is in the first slot that is neither before its home nor taken by the item before
it (`packed`). So an array in order has one layout for each collection of homes, whatever led to it:
two arrays whose items have the same homes, each equally often, have items in the same slots, with
the same homes slot by slot, and the same offsets in their tags (`Ordered.sameLayout`). Which of the
items of one home is in which of their slots is not determined.
-/

namespace ProbeWindow.SlotArray

universe u

variable {α : Type u} {hash : α → UInt64} {index : UInt64 → Nat} {s s' : SlotArray α}

/-- The slots for items with the given homes, from a slot on. -/
def packed : Nat → List Nat → List Nat
  | _, [] => []
  | start, home :: homes => max start home :: packed (max start home + 1) homes

/-! ### One array -/

/-- **The items are packed**: the slots that have one are determined by the homes. -/
theorem Ordered.occupiedSlots_eq_packed (ord : Ordered hash index s) (start : Nat) :
    s.occupiedSlots start s.slotCount =
      packed start ((s.segment start s.slotCount).map fun a ↦ index (hash a)) := by
  induction hseg : s.segment start s.slotCount generalizing start with
  | nil =>
    rcases s.occupiedSlots_cases start s.slotCount with ⟨hnil, -⟩ | ⟨i, a, -, -, -, -, -, hcons⟩
    · rw [hnil]
      rfl
    · rw [hcons] at hseg
      cases hseg
  | cons a rest ih =>
    rcases s.occupiedSlots_cases start s.slotCount with
      ⟨-, hnil⟩ | ⟨i, b, hle, -, hi, hfree, hslots, hcons⟩
    · rw [hnil] at hseg
      cases hseg
    · rw [hcons] at hseg
      cases hseg
      -- the slot before the item is empty unless it is before `start`, so it is before the home
      have hhome := ord.home_le i a hi
      have hfirst : max start (index (hash a)) = i := by
        rcases Nat.eq_or_lt_of_le hle with rfl | hlt
        · omega
        · have hbefore := hfree (i - 1) (by omega) (by omega)
          have := ord.lt_home_of_vacant hbefore hi (by omega)
          omega
      rw [hslots, List.map_cons, packed, hfirst, ih (i + 1) rfl]

/-- The items come in the order of their homes. -/
theorem Ordered.pairwise_homes (ord : Ordered hash index s) :
    (s.toList.map fun a ↦ index (hash a)).Pairwise (· ≤ ·) := by
  rw [toList_eq_segment, segment, List.pairwise_map, List.pairwise_filterMap]
  refine (List.pairwise_lt_range' (s := 0) (n := s.slotCount - 0)).imp ?_
  intro i j hij a ha b hb
  exact ord.sorted i j a b (Nat.le_of_lt hij) ha hb

/-- The items of the occupied slots, one by one. -/
theorem map_item?_occupiedSlots (s : SlotArray α) (start stop : Nat) :
    (s.occupiedSlots start stop).map s.item? = (s.segment start stop).map some := by
  rw [occupiedSlots, segment]
  induction List.range' start (stop - start) with
  | nil => rfl
  | cons i is ih =>
    cases hi : s.item? i with
    | none => simpa [hi] using ih
    | some a => simpa [hi] using ih

/-- The homes of the occupied slots, one by one. -/
theorem map_home_occupiedSlots (s : SlotArray α) (home : α → Nat) :
    ((s.occupiedSlots 0 s.slotCount).map fun i ↦ (s.item? i).map home) =
      (s.toList.map home).map some := by
  have h := congrArg (List.map (Option.map home)) (s.map_item?_occupiedSlots 0 s.slotCount)
  rw [List.map_map, List.map_map, ← s.toList_eq_segment] at h
  rw [List.map_map]
  exact h

theorem item?_of_not_mem_occupiedSlots {i : Nat} (h : i ∉ s.occupiedSlots 0 s.slotCount) :
    s.item? i = none := by
  by_contra hne
  obtain ⟨a, ha⟩ := Option.ne_none_iff_exists'.mp hne
  exact h (s.mem_occupiedSlots.mpr ⟨Nat.zero_le i, s.lt_slotCount_of_item? ha, by rw [ha]; rfl⟩)

/-! ### Two arrays -/

/-- Two arrays have items in the same slots, with the same homes and the same recorded offsets. -/
structure SameLayout (home : α → Nat) (s s' : SlotArray α) : Prop where
  /-- There are as many slots. -/
  slotCount_eq : s'.slotCount = s.slotCount
  /-- The same slots are occupied. -/
  isOccupied_eq : ∀ i < s.slotCount, s'.isOccupied i = s.isOccupied i
  /-- The same offsets are recorded. -/
  offset_eq : ∀ i < s.slotCount, (s'.tag i).offset = (s.tag i).offset
  /-- The items of each home are in the same slots. -/
  home_eq : ∀ i, (s'.item? i).map home = (s.item? i).map home

/-- The tags of slots are those of the homes of their items. -/
theorem Ordered.sameLayout_of_home_eq (ord : Ordered hash index s) (ord' : Ordered hash index s')
    (hcount : s'.slotCount = s.slotCount)
    (hhome : ∀ i, (s'.item? i).map (fun a ↦ index (hash a)) =
      (s.item? i).map fun a ↦ index (hash a)) : SameLayout (fun a ↦ index (hash a)) s s' := by
  refine ⟨hcount, fun i hi ↦ ?_, fun i hi ↦ ?_, hhome⟩
  · have hsome := congrArg Option.isSome (hhome i)
    rw [Option.isSome_map, Option.isSome_map] at hsome
    rw [ord'.formed.isOccupied_eq_isSome (hcount ▸ hi), ord.formed.isOccupied_eq_isSome hi, hsome]
  · cases ha : s.item? i with
    | none =>
      have hnone := hhome i
      rw [ha, Option.map_none, Option.map_eq_none_iff] at hnone
      rw [ord'.tag_vacant i (hcount ▸ hi) hnone, ord.tag_vacant i hi ha]
    | some a =>
      have hsome := hhome i
      rw [ha, Option.map_some, Option.map_eq_some_iff] at hsome
      obtain ⟨b, hb, hab⟩ := hsome
      rw [ord'.offset_tag hb, ord.offset_tag ha, hab]

theorem Ordered.slotCount_congr (ord : Ordered hash index s) (ord' : Ordered hash index s')
    (hcapacity : s'.capacity = s.capacity) : s'.slotCount = s.slotCount := by
  rw [ord'.slotCount_eq, ord.slotCount_eq, hcapacity]

/-- Arrays in order whose items have the same sequence of homes have items in the same slots. -/
theorem Ordered.occupiedSlots_congr (ord : Ordered hash index s) (ord' : Ordered hash index s')
    (hhomes : (s'.toList.map fun a ↦ index (hash a)) = s.toList.map fun a ↦ index (hash a)) :
    s'.occupiedSlots 0 s'.slotCount = s.occupiedSlots 0 s.slotCount := by
  rw [ord'.occupiedSlots_eq_packed, ord.occupiedSlots_eq_packed, ← s'.toList_eq_segment, hhomes,
    s.toList_eq_segment]

/-- **Arrays in order with the same homes have the same layout.** -/
theorem Ordered.sameLayout (ord : Ordered hash index s) (ord' : Ordered hash index s')
    (hcapacity : s'.capacity = s.capacity)
    (hhomes : (s'.toList.map fun a ↦ index (hash a)).Perm (s.toList.map fun a ↦ index (hash a))) :
    SameLayout (fun a ↦ index (hash a)) s s' := by
  -- both lists of homes are sorted, so they are one list
  have hlist := hhomes.eq_of_pairwise' ord'.pairwise_homes ord.pairwise_homes
  have hslots := ord.occupiedSlots_congr ord' hlist
  refine ord.sameLayout_of_home_eq ord' (ord.slotCount_congr ord' hcapacity) fun i ↦ ?_
  by_cases hi : i ∈ s.occupiedSlots 0 s.slotCount
  · have hmap := s'.map_home_occupiedSlots fun a ↦ index (hash a)
    rw [hslots, hlist, ← s.map_home_occupiedSlots] at hmap
    exact List.map_inj_left.mp hmap i hi
  · rw [item?_of_not_mem_occupiedSlots hi, item?_of_not_mem_occupiedSlots (hslots ▸ hi)]

/-- **Arrays in order with the same items in the same sequence are one array**: its slots are those
of the homes, its items come in the sequence of the slots, and its tags are those of the items. -/
theorem Ordered.eq_of_toList_eq (ord : Ordered hash index s) (ord' : Ordered hash index s')
    (hcapacity : s'.capacity = s.capacity) (hlist : s'.toList = s.toList) : s' = s := by
  have hcount := ord.slotCount_congr ord' hcapacity
  have hslots := ord.occupiedSlots_congr ord' (by rw [hlist])
  have hitem : ∀ i, s'.item? i = s.item? i := by
    intro i
    by_cases hi : i ∈ s.occupiedSlots 0 s.slotCount
    · have hmap := s'.map_item?_occupiedSlots 0 s'.slotCount
      rw [hslots, ← s'.toList_eq_segment, hlist, s.toList_eq_segment,
        ← s.map_item?_occupiedSlots] at hmap
      exact List.map_inj_left.mp hmap i hi
    · rw [item?_of_not_mem_occupiedSlots hi, item?_of_not_mem_occupiedSlots (hslots ▸ hi)]
  have htags : s'.tags.size = s.tags.size := by rw [ord'.tagCount_eq, ord.tagCount_eq, hcount]
  refine ext_cells hcapacity hcount htags (fun i ↦ ?_) hitem
  -- a tag is that of an item or of an empty slot, or it is a sentinel, or past the end
  rcases Nat.lt_or_ge i s.slotCount with hi | hi
  · cases ha : s.item? i with
    | none => rw [ord'.tag_vacant i (hcount ▸ hi) (by rw [hitem, ha]), ord.tag_vacant i hi ha]
    | some a => rw [ord'.tag_item i a (by rw [hitem, ha]), ord.tag_item i a ha]
  · rcases Nat.lt_or_ge i s.tags.size with hlt | hge
    · rw [ord.tagCount_eq] at hlt
      rw [ord'.tag_sentinel i (hcount ▸ hi) (hcount ▸ hlt), ord.tag_sentinel i hi hlt]
    · rw [tag, tag, Array.getD_eq_getD_getElem?, Array.getD_eq_getD_getElem?,
        Array.getElem?_eq_none (htags ▸ hge), Array.getElem?_eq_none hge]

end ProbeWindow.SlotArray
