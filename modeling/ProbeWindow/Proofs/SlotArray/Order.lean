import ProbeWindow.Proofs.SlotArray.Form

/-!
# Arrays in order

The invariant of a slot array, for a mixed hash of its items and the homes that a policy derives
from hashes. It has two halves. The tags say what the items say: the tag of a slot is determined
by the item in it, and the sentinels close the array. And the items are where a lookup expects
them: within a window of their homes, without a hole on the way from home, and in the order of
their homes.

The order of homes is stated for any two slots, not for neighbours: since no item has a hole
between its home and its slot, items on both sides of an empty slot are in order anyway.
-/

namespace ProbeWindow.SlotArray

universe u

variable {α : Type u} {hash : α → UInt64} {index : UInt64 → Nat} {s : SlotArray α}

/-- The slots hold their items in order, for the given hashes and homes. -/
structure Ordered (hash : α → UInt64) (index : UInt64 → Nat) (s : SlotArray α) : Prop where
  /-- There is a slot for every home, and the overflow slots. -/
  slotCount_eq : s.slotCount = s.capacity + maxOffset
  /-- There is a tag for every slot, and the sentinels. -/
  tagCount_eq : s.tags.size = s.slotCount + windowWidth
  /-- Behind the last slot are the sentinels. -/
  tag_sentinel : ∀ i, s.slotCount ≤ i → i < s.slotCount + windowWidth → s.tag i = .sentinel
  /-- A slot without an item has the empty tag. -/
  tag_vacant : ∀ i, i < s.slotCount → s.item? i = none → s.tag i = .empty
  /-- The tag of an item has its fragment and its distance from home. -/
  tag_item : ∀ i a, s.item? i = some a →
    s.tag i = .encode (Tag.fragmentOf (hash a)) (i - index (hash a))
  /-- Homes are below the capacity. -/
  home_lt : ∀ i a, s.item? i = some a → index (hash a) < s.capacity
  /-- No item is before its home. -/
  home_le : ∀ i a, s.item? i = some a → index (hash a) ≤ i
  /-- No item is outside of the window of its home. -/
  le_home_add : ∀ i a, s.item? i = some a → i ≤ index (hash a) + maxOffset
  /-- No slot is empty between an item and its home. -/
  no_hole : ∀ i a j, s.item? i = some a → index (hash a) ≤ j → j ≤ i → s.item? j ≠ none
  /-- The items are in the order of their homes. -/
  sorted : ∀ i j a b, i ≤ j → s.item? i = some a → s.item? j = some b →
    index (hash a) ≤ index (hash b)

/-- Blank slots are in order. -/
theorem ordered_blank (capacity : Nat) : Ordered hash index (blank capacity) := by
  have hform : Formed (blank capacity : SlotArray α) := formed_blank capacity
  constructor
  case slotCount_eq => exact hform.slotCount_eq
  case tagCount_eq => exact hform.tagCount_eq
  case tag_sentinel => exact hform.tag_sentinel
  case tag_vacant => exact hform.tag_vacant
  -- what is left is about items, and there are none
  all_goals simp [item?_blank]

namespace Ordered

variable (ord : Ordered hash index s) {i : Nat} {a : α}
include ord

/-! ### Tags and items -/

theorem offset_le (h : s.item? i = some a) : i - index (hash a) ≤ maxOffset := by
  have := ord.le_home_add i a h
  omega

theorem isOccupied_of_item (h : s.item? i = some a) : s.isOccupied i = true := by
  rw [isOccupied, ord.tag_item i a h]
  exact Tag.isOccupied_encode (Tag.fragmentOf_lt _) (ord.offset_le h)

theorem offset_tag (h : s.item? i = some a) : (s.tag i).offset = i - index (hash a) := by
  rw [ord.tag_item i a h]
  exact Tag.offset_encode (Tag.fragmentOf_lt _) (ord.offset_le h)

/-- **Arrays in order are in form.** -/
theorem formed : Formed s where
  slotCount_eq := ord.slotCount_eq
  tagCount_eq := ord.tagCount_eq
  tag_sentinel := ord.tag_sentinel
  tag_vacant := ord.tag_vacant
  isOccupied_of_item _ _ h := ord.isOccupied_of_item h

/-! ### Homes around a vacant slot -/

/-- What lies behind a vacant slot has its home behind it. -/
theorem lt_home_of_vacant {q : Nat} (hq : s.item? q = none) (h : s.item? i = some a) (hlt : q ≤ i) :
    q < index (hash a) := by
  by_contra hle
  exact ord.no_hole i a q h (Nat.le_of_not_lt hle) hlt hq

/-! ### Exchange of items -/

/-- Order looks at items through their hashes only: slots with the same tags, whose items have
the same hashes, are in order too. -/
theorem transfer {t : SlotArray α} (hcapacity : t.capacity = s.capacity) (htags : t.tags = s.tags)
    (hcount : t.slotCount = s.slotCount)
    (hitem : ∀ i, (t.item? i).map hash = (s.item? i).map hash) : Ordered hash index t := by
  have htag : ∀ i, t.tag i = s.tag i := fun i ↦ by rw [tag, tag, htags]
  -- every item has the hash of the item that was in its slot, and so its home
  have hold : ∀ i b, t.item? i = some b → ∃ a, s.item? i = some a ∧ hash b = hash a := by
    intro i b hb
    have h := hitem i
    rw [hb, Option.map_some, eq_comm, Option.map_eq_some_iff] at h
    obtain ⟨a, ha, hab⟩ := h
    exact ⟨a, ha, hab.symm⟩
  have hnone : ∀ i, t.item? i = none → s.item? i = none := by
    intro i hi
    have h := hitem i
    rwa [hi, Option.map_none, eq_comm, Option.map_eq_none_iff] at h
  constructor
  case slotCount_eq =>
    rw [hcount, hcapacity, ord.slotCount_eq]
  case tagCount_eq =>
    rw [htags, hcount, ord.tagCount_eq]
  case tag_sentinel =>
    intro i h1 h2
    rw [hcount] at h1 h2
    rw [htag, ord.tag_sentinel i h1 h2]
  case tag_vacant =>
    intro i h1 h2
    rw [hcount] at h1
    rw [htag, ord.tag_vacant i h1 (hnone i h2)]
  case tag_item =>
    intro i b hb
    obtain ⟨a, ha, hab⟩ := hold i b hb
    rw [htag, hab, ord.tag_item i a ha]
  case home_lt =>
    intro i b hb
    obtain ⟨a, ha, hab⟩ := hold i b hb
    rw [hab, hcapacity]
    exact ord.home_lt i a ha
  case home_le =>
    intro i b hb
    obtain ⟨a, ha, hab⟩ := hold i b hb
    rw [hab]
    exact ord.home_le i a ha
  case le_home_add =>
    intro i b hb
    obtain ⟨a, ha, hab⟩ := hold i b hb
    rw [hab]
    exact ord.le_home_add i a ha
  case no_hole =>
    intro i b j hb h1 h2 h3
    obtain ⟨a, ha, hab⟩ := hold i b hb
    rw [hab] at h1
    exact ord.no_hole i a j ha h1 h2 (hnone j h3)
  case sorted =>
    intro i j b c hij hb hc
    obtain ⟨a, ha, hab⟩ := hold i b hb
    obtain ⟨d, hd, hcd⟩ := hold j c hc
    rw [hab, hcd]
    exact ord.sorted i j a d hij ha hd

/-- An item may be exchanged for one of equal hash. -/
theorem setItem (h : s.item? i = some a) {b : α} (hb : hash b = hash a) :
    Ordered hash index (s.setItem i b) := by
  refine ord.transfer (s.capacity_setItem i b) (s.tags_setItem i b) (s.slotCount_setItem i b)
    fun j ↦ ?_
  rw [item?_setItem]
  split_ifs with hj
  · rw [hj.1, h, Option.map_some, Option.map_some, hb]
  · rfl

end Ordered

end ProbeWindow.SlotArray
