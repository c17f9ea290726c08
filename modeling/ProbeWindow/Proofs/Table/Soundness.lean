import ProbeWindow.Proofs.Contents
import ProbeWindow.Proofs.SlotArray.Closing
import ProbeWindow.Proofs.SlotArray.Search
import ProbeWindow.Proofs.Table.Clearing

/-!
# Sound tables

The invariant of a table. A table is **bare** while it has no slots, and **furnished** when it
has: then its slots are in order for the hashes of its setup and the homes of its policy, its
capacity is one that the policy offers, and its size is the number of its items.

Nothing is said about keys: a sound table may hold two items with equal keys. What a look-up finds
is the first item of a key in slot order, so the lemmas about look-up and change are about that
item (`Found`), and hold with or without distinct keys.
-/

namespace ProbeWindow

universe u v

variable {α : Type u} {κ : Type v} [BEq κ]

/-- Equal keys have equal mixed hashes. -/
theorem Setup.hash_congr (setup : Setup κ) {j k : κ} (h : (j == k) = true) :
    setup.hash j = setup.hash k :=
  congrArg mix (setup.hasher.hash_congr h)

/-- The slots hold their items in order, for the hashes and homes of a setup. -/
abbrev Setup.Orders (setup : Setup κ) (key : α → κ) (slots : SlotArray α) : Prop :=
  slots.Ordered (fun a ↦ setup.hash (key a)) (fun hash ↦ setup.policy.index hash slots.capacity)

/-- A capacity is one that the policy of a setup returns. -/
def Setup.Offers (setup : Setup κ) (capacity : Nat) : Prop :=
  ∃ size, setup.policy.capacityFor size = .ok capacity

theorem Setup.Offers.pos {setup : Setup κ} {capacity : Nat} (h : setup.Offers capacity) :
    0 < capacity := by
  obtain ⟨size, hsize⟩ := h
  exact Nat.lt_of_lt_of_le (by decide) (setup.policy.le_of_capacityFor hsize).2

theorem Setup.Offers.index_lt {setup : Setup κ} {capacity : Nat} (h : setup.Offers capacity)
    (hash : UInt64) : setup.policy.index hash capacity < capacity := by
  obtain ⟨size, hsize⟩ := h
  exact setup.policy.index_lt hash hsize

namespace Table

variable {key : α → κ}

/-- The table has no slots. -/
structure Bare (t : Table key) : Prop where
  /-- There are no slots. -/
  slots_eq : t.slots = .unallocated
  /-- There are no items. -/
  size_eq : t.size = 0

/-- The table has slots, which are in order. -/
structure Furnished (t : Table key) : Prop where
  /-- The slots hold their items in order. -/
  ordered : t.setup.Orders key t.slots
  /-- The capacity is one that the policy returns. -/
  offered : t.setup.Offers t.capacity
  /-- The size is the number of occupied slots. -/
  size_eq : t.size = (List.range t.slots.slotCount).countP t.slots.isOccupied
  /-- There are homes for all items. -/
  size_le : t.size ≤ t.capacity
  /-- Slots are numbered by words. -/
  slots_lt : t.capacity + maxOffset < Word.bound

/-- **The invariant of tables.** -/
def Sound (t : Table key) : Prop := t.Bare ∨ t.Furnished

theorem bare_empty (setup : Setup κ) : (empty key setup).Bare := ⟨rfl, rfl⟩

theorem sound_empty (setup : Setup κ) : (empty key setup).Sound := .inl (bare_empty setup)

variable {t : Table key}

theorem Furnished.size_eq_length (h : t.Furnished) : t.size = t.toList.length := by
  rw [h.size_eq, h.ordered.formed.countP_isOccupied, toList]

/-- A table with slots in order is furnished when its size is the number of its items. -/
theorem furnished_of_length (hordered : t.setup.Orders key t.slots)
    (hoffered : t.setup.Offers t.capacity) (hsize : t.size = t.toList.length)
    (hle : t.size ≤ t.capacity) (hlt : t.capacity + maxOffset < Word.bound) : t.Furnished :=
  ⟨hordered, hoffered, by rw [hsize, hordered.formed.countP_isOccupied, toList], hle, hlt⟩

theorem Bare.capacity_eq (h : t.Bare) : t.capacity = 0 := by
  rw [capacity, h.slots_eq, SlotArray.capacity_unallocated]

theorem Bare.toList_eq (h : t.Bare) : t.toList = [] := by
  rw [toList, h.slots_eq, SlotArray.toList_unallocated]

theorem Bare.item?_eq (h : t.Bare) (i : Nat) : t.slots.item? i = none := by
  rw [h.slots_eq]
  exact SlotArray.item?_eq_none_of_le _ (Nat.zero_le i)

namespace Sound

theorem size_eq_length (h : t.Sound) : t.size = t.toList.length := by
  rcases h with h | h
  · rw [h.toList_eq, h.size_eq, List.length_nil]
  · exact h.size_eq_length

theorem size_le (h : t.Sound) : t.size ≤ t.capacity := by
  rcases h with h | h
  · rw [h.size_eq]
    exact Nat.zero_le _
  · exact h.size_le

theorem furnished (h : t.Sound) (hpos : 0 < t.capacity) : t.Furnished := by
  rcases h with h | h
  · exact absurd h.capacity_eq (Nat.ne_of_gt hpos)
  · exact h

theorem bare (h : t.Sound) (hzero : t.capacity = 0) : t.Bare :=
  h.resolve_right fun hfur ↦ Nat.ne_of_gt hfur.offered.pos hzero

theorem furnished_of_item (h : t.Sound) {i : Nat} {a : α} (hi : t.slots.item? i = some a) :
    t.Furnished := by
  rcases h with h | h
  · rw [h.item?_eq] at hi
    cases hi
  · exact h

/-- Two sound tables with the same items have the same size. -/
theorem size_eq_of_perm (h : t.Sound) {t' : Table key} (h' : t'.Sound)
    (hperm : t'.toList.Perm t.toList) : t'.size = t.size := by
  rw [h'.size_eq_length, h.size_eq_length, hperm.length_eq]

end Sound

/-! ### Look-up -/

/-- An occupant of a table that has the first of its items with a key. -/
structure Found (t : Table key) (k : κ) (o : Occupant α) : Prop where
  /-- The slot has the item. -/
  item : t.slots.item? o.index = some o.item
  /-- No slot before it has an item with the key. -/
  first : Contents.FirstAt key t.toList k (t.slots.segment 0 o.index) o.item
    (t.slots.segment (o.index + 1) t.slots.slotCount)

theorem Found.lookup_eq {k : κ} {o : Occupant α} (h : t.Found k o) :
    Contents.lookup key t.toList k = some o.item :=
  h.first.lookup_eq

/-- **Look-up in one window finds the first item of a key in the table**, and nothing when there
is no such item. -/
theorem Sound.locate?_cases (h : t.Sound) (k : κ) :
    (∃ o, t.locate? (t.setup.hash k) k = some o ∧ t.Found k o) ∨
      t.locate? (t.setup.hash k) k = none ∧ Contents.lookup key t.toList k = none := by
  by_cases hsize : t.size = 0
  · have hnil : t.toList = [] := List.eq_nil_of_length_eq_zero (h.size_eq_length.symm.trans hsize)
    exact .inr ⟨by rw [locate?, if_pos hsize], by rw [hnil]; rfl⟩
  have hf : t.Furnished := h.furnished (Nat.lt_of_lt_of_le (Nat.pos_of_ne_zero hsize) h.size_le)
  have hsought : ∀ a : α, (key a == k) = true → t.setup.hash (key a) = t.setup.hash k :=
    fun a ↦ t.setup.hash_congr
  rw [locate?, if_neg hsize]
  cases hsearch : t.slots.search? (t.home (t.setup.hash k)) (Tag.fragmentOf (t.setup.hash k))
      fun a ↦ key a == k with
  | none =>
    refine .inr ⟨rfl, Contents.lookup_eq_none_iff.mpr fun a ha ↦ ?_⟩
    obtain ⟨i, hi⟩ := t.slots.mem_toList.mp ha
    exact hf.ordered.test_eq_false_of_search?_eq_none hsought hsearch hi
  | some o =>
    obtain ⟨hitem, hkey⟩ := SlotArray.of_search?_eq_some hsearch
    refine .inl ⟨o, rfl, hitem, t.slots.toList_of_item? hitem, hkey, fun b hb ↦ ?_⟩
    · obtain ⟨i, -, hi, hib⟩ := t.slots.mem_segment.mp hb
      by_contra hne
      have := hf.ordered.le_of_search?_eq_some hsought hsearch hib (Bool.not_eq_false _ ▸ hne)
      omega

/-- Look-up reads the list of items. -/
theorem Sound.find?_eq (h : t.Sound) (k : κ) : t.find? k = Contents.lookup key t.toList k := by
  rcases h.locate?_cases k with ⟨o, ho, hfound⟩ | ⟨hnone, hlookup⟩
  · rw [find?, occupant?, ho, hfound.lookup_eq, Option.map_some]
  · rw [find?, occupant?, hnone, hlookup, Option.map_none]

theorem Sound.contains_eq (h : t.Sound) (k : κ) :
    t.contains k = (Contents.lookup key t.toList k).isSome := by
  rw [← h.find?_eq, contains, find?, Option.isSome_map]

/-- A key is counted once, or not at all. -/
theorem Sound.countPresent_singleton (h : t.Sound) (k : κ) :
    t.countPresent [k] = (Contents.lookup key t.toList k).toList.length := by
  rw [countPresent, List.countP_singleton, h.contains_eq]
  cases Contents.lookup key t.toList k <;> rfl

/-! ### Change and removal -/

/-- Two items have the same hash. -/
abbrev SameHash (t : Table key) (a b : α) : Prop := t.setup.hash (key b) = t.setup.hash (key a)

theorem toList_update {o : Occupant α} (hitem : t.slots.item? o.index = some o.item) (f : α → α) :
    (t.update o f).1.toList = t.slots.segment 0 o.index ++
      f o.item :: t.slots.segment (o.index + 1) t.slots.slotCount :=
  SlotArray.toList_setItem (t.slots.lt_slotCount_of_item? hitem) _

section Change

variable {o : Occupant α} (h : t.Sound) (hitem : t.slots.item? o.index = some o.item)
include h hitem

/-- **A change that keeps the hash of an item keeps the table sound.** -/
theorem Sound.update {f : α → α}
    (hf : t.setup.hash (key (f o.item)) = t.setup.hash (key o.item)) : (t.update o f).1.Sound := by
  have hfur := h.furnished_of_item hitem
  refine .inr (furnished_of_length (hfur.ordered.setItem hitem hf) hfur.offered ?_ hfur.size_le
    hfur.slots_lt)
  exact hfur.size_eq_length.trans (SlotArray.length_toList_setItem hitem _).symm

/-- **A removal keeps the table sound.** -/
theorem Sound.eraseAt : (t.eraseAt o.index).Sound := by
  have hfur := h.furnished_of_item hitem
  have hlt := t.slots.lt_slotCount_of_item? hitem
  have hordered : t.setup.Orders key (t.slots.erase o.index) := by
    rw [Setup.Orders, SlotArray.capacity_erase]
    exact hfur.ordered.erase hlt
  have hcapacity : (t.eraseAt o.index).capacity = t.capacity := SlotArray.capacity_erase _ _
  have hlen := (hfur.ordered.formed.toList_perm_erase hitem).length_eq
  rw [List.length_cons] at hlen
  have hsize := hfur.size_eq_length
  have hle := hfur.size_le
  refine .inr (furnished_of_length hordered ?_ ?_ ?_ ?_)
  · rw [hcapacity]
    exact hfur.offered
  · show t.size - 1 = (t.slots.erase o.index).toList.length
    rw [hsize, toList, hlen, Nat.add_sub_cancel]
  · rw [hcapacity]
    exact Nat.le_trans (Nat.sub_le t.size 1) hle
  · rw [hcapacity]
    exact hfur.slots_lt

theorem Sound.toList_eraseAt : (t.eraseAt o.index).toList =
    t.slots.segment 0 o.index ++ t.slots.segment (o.index + 1) t.slots.slotCount :=
  (h.furnished_of_item hitem).ordered.formed.toList_erase (t.slots.lt_slotCount_of_item? hitem)

end Change

/-! ### Whole tables -/

/-- What a furnished table is when it is cleared. -/
theorem Furnished.clear_eq (h : t.Furnished) :
    t.clear = { t with slots := .blank t.capacity, size := 0, rehashPending := false } :=
  Table.clear_eq h.ordered.formed h.offered.pos h.size_eq_length

/-- **Clearing keeps the table sound.** -/
theorem Sound.clear (h : t.Sound) : t.clear.Sound := by
  rcases h with h | h
  · rw [clear_of_capacity_eq_zero h.capacity_eq]
    exact .inl ⟨h.slots_eq, h.size_eq⟩
  · refine .inr (furnished_of_length ?_ ?_ ?_ ?_ ?_)
    · rw [h.clear_eq]
      exact SlotArray.ordered_blank t.capacity
    · rw [setup_clear, capacity_clear]
      exact h.offered
    · rw [h.clear_eq, toList, SlotArray.toList_blank]
      rfl
    · rw [h.clear_eq]
      exact Nat.zero_le _
    · rw [capacity_clear]
      exact h.slots_lt

theorem Sound.toList_clear (h : t.Sound) : t.clear.toList = [] := by
  rcases h with h | h
  · rw [clear_of_capacity_eq_zero h.capacity_eq]
    exact h.toList_eq
  · rw [h.clear_eq, toList, SlotArray.toList_blank]

/-- Soundness does not look at the load factor. -/
theorem Sound.setMaxLoad (h : t.Sound) (f : LoadFactor) : (t.setMaxLoad f).Sound := by
  rcases h with h | h
  · exact .inl ⟨h.slots_eq, h.size_eq⟩
  · exact .inr ⟨h.ordered, h.offered, h.size_eq, h.size_le, h.slots_lt⟩

/-- Soundness does not look at the mark. -/
theorem Sound.mark (h : t.Sound) (pending : Bool) :
    ({ t with rehashPending := pending } : Table key).Sound := by
  rcases h with h | h
  · exact .inl ⟨h.slots_eq, h.size_eq⟩
  · exact .inr ⟨h.ordered, h.offered, h.size_eq, h.size_le, h.slots_lt⟩

end Table

end ProbeWindow
