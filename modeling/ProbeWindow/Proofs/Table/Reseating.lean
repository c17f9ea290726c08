import ProbeWindow.Proofs.Rollback
import ProbeWindow.Proofs.SlotArray.Carrying
import ProbeWindow.Proofs.Table.Attempts
import ProbeWindow.Proofs.Table.Relocation

/-!
# Items that are placed again at their capacity are in their slots again

A relocation visits the slots from the first to the last. At the capacity that the items have
already, every one of them goes where it is: when its turn comes, the slots before its own are as
they were and the others are empty (`Restored`), so between its home and its own slot there are only
items with no larger home, none of which gives way, and its own slot is the first empty one. So the
attempt at the present capacity succeeds, and returns the slots that there are, tags and items.

Under powers of two a chain of retries that starts at or below the present capacity comes to it, if
it gets that far: doubling a smaller power does not step over a larger one. So no attempt of a
rehash to a smaller capacity is above the present one.
-/

namespace ProbeWindow

universe u v

namespace SlotArray

variable {α : Type u} {hash : α → UInt64} {index : UInt64 → Nat} {s copy : SlotArray α} {i : Nat}

/-- A copy of an array, restored up to a slot: the slots before it have their items, and the others
have none yet. -/
structure Restored (s copy : SlotArray α) (stop : Nat) : Prop where
  /-- The capacity is the same. -/
  capacity_eq : copy.capacity = s.capacity
  /-- The slots before have their items. -/
  item?_of_lt : ∀ i < stop, copy.item? i = s.item? i
  /-- The others have none. -/
  item?_of_le : ∀ i, stop ≤ i → copy.item? i = none

/-- Blank slots are where the restoring begins. -/
theorem restored_blank (s : SlotArray α) : Restored s (blank s.capacity) 0 where
  capacity_eq := capacity_blank s.capacity
  item?_of_lt i hi := absurd hi (Nat.not_lt_zero i)
  item?_of_le i _ := item?_blank s.capacity i

/-- A vacant slot is restored as it is. -/
theorem Restored.succ_of_vacant (h : Restored s copy i) (hi : s.item? i = none) :
    Restored s copy (i + 1) where
  capacity_eq := h.capacity_eq
  item?_of_lt j hj := by
    rcases Nat.lt_succ_iff_lt_or_eq.mp hj with hlt | rfl
    · exact h.item?_of_lt j hlt
    · rw [h.item?_of_le j (Nat.le_refl j), hi]
  item?_of_le j hj := h.item?_of_le j (Nat.le_of_succ_le hj)

section Next

variable (ord : Ordered hash index s) (ord' : Ordered hash index copy) (h : Restored s copy i)
  {a : α} (ha : s.item? i = some a)
include ord ord' h ha

/-- **The next item goes where it was.** The slots from its home to its own have items of no larger
home, so none of them gives way, and its own slot is the first empty one. -/
theorem Restored.vacancy?_eq :
    copy.vacancy? (index (hash a)) = some ⟨i - index (hash a), i - index (hash a)⟩ := by
  have hle := ord.home_le i a ha
  have hadd := ord.le_home_add i a ha
  have hhome : index (hash a) < copy.capacity := h.capacity_eq ▸ ord.home_lt i a ha
  have hcount : i < copy.slotCount :=
    (ord.slotCount_congr ord' h.capacity_eq).symm ▸ s.lt_slotCount_of_item? ha
  obtain ⟨lane, hlane⟩ := Nat.exists_eq_add_of_le hle
  have hwidth : lane < windowWidth := by
    simp only [maxOffset, windowWidth] at hadd ⊢
    omega
  -- the slots on the way have the items that they have in the array
  have hfull : ∀ j < lane, ∃ b, copy.item? (index (hash a) + j) = some b ∧
      index (hash b) ≤ index (hash a) := by
    intro j hj
    obtain ⟨b, hb⟩ := Option.ne_none_iff_exists'.mp
      (ord.no_hole i a (index (hash a) + j) ha (by omega) (by omega))
    exact ⟨b, (h.item?_of_lt _ (by omega)).trans hb, ord.sorted _ i b a (by omega) hb ha⟩
  have hlow : (copy.group (index (hash a))).vacant.lowest? = some lane := by
    refine (LaneMask.lowest?_eq_some_iff _).mpr ⟨hwidth, ?_, fun j hj ↦ ?_⟩
    · rw [copy.has_vacant_group _ hwidth, ← hlane,
        ord'.formed.not_isOccupied hcount (h.item?_of_le i (Nat.le_refl i))]
      rfl
    · obtain ⟨b, hb, -⟩ := hfull j hj
      rw [copy.has_vacant_group _ (Nat.lt_trans hj hwidth), ord'.isOccupied_of_item hb]
      rfl
  have hsteal : copy.stealLane (index (hash a)) lane = lane := by
    obtain ⟨hsteal, -, hfirst⟩ := copy.stealLane_spec (index (hash a)) lane
    refine Nat.le_antisymm hsteal (Nat.le_of_not_lt fun hlt ↦ ?_)
    obtain ⟨b, hb, hhomes⟩ := hfull _ hlt
    have hcloser := hfirst hlt
    rw [ord'.offset_tag hb] at hcloser
    omega
  rw [ord'.exists_vacancy? hhome hlow, hsteal, hlane, Nat.add_sub_cancel_left]

/-- **The next item is restored** by placing it. -/
theorem Restored.place :
    let v : Vacancy := ⟨i - index (hash a), i - index (hash a)⟩
    let placed := copy.place (index (hash a)) (Tag.fragmentOf (hash a)) v a
    Ordered hash index placed ∧ Restored s placed (i + 1) := by
  have hle := ord.home_le i a ha
  have hhome : index (hash a) < copy.capacity := h.capacity_eq ▸ ord.home_lt i a ha
  have hcount : i < copy.slotCount :=
    (ord.slotCount_congr ord' h.capacity_eq).symm ▸ s.lt_slotCount_of_item? ha
  have hslot : index (hash a) + (i - index (hash a)) = i := Nat.add_sub_cancel' hle
  have hitem := item?_place (v := ⟨i - index (hash a), i - index (hash a)⟩) (Nat.le_refl _)
    (by rwa [hslot]) (Tag.fragmentOf (hash a)) a
  simp only [hslot] at hitem
  refine ⟨ord'.place_of_vacancy? hhome (h.vacancy?_eq ord ord' ha), ?_, fun j hj ↦ ?_,
    fun j hj ↦ ?_⟩
  · rw [capacity_place, h.capacity_eq]
  · rw [hitem]
    rcases Nat.lt_succ_iff_lt_or_eq.mp hj with hlt | rfl
    · rw [if_neg (by omega), if_neg (by omega), h.item?_of_lt j hlt]
    · rw [if_pos rfl, ha]
  · rw [hitem, if_neg (by omega), if_neg (by omega), h.item?_of_le j (by omega)]

end Next

/-- **What is restored to the end is the array.** -/
theorem Restored.eq (h : Restored s copy s.slotCount) (ord : Ordered hash index s)
    (ord' : Ordered hash index copy) : copy = s := by
  refine ord.eq_of_toList_eq ord' h.capacity_eq ?_
  rw [toList_eq_segment, toList_eq_segment, ord.slotCount_congr ord' h.capacity_eq]
  exact segment_congr_slots _ fun i _ hi ↦ h.item?_of_lt i hi

end SlotArray

namespace Table

variable {α : Type u} {κ : Type v} [BEq κ] {key : α → κ} {t : Table key} {first : Nat}

open SlotArray

/-- The items of the slots from one on, placed into slots that are restored up to it. -/
theorem foldlM_seat?_of_restored (ord : t.setup.Orders key t.slots) {copy : SlotArray α}
    (ord' : copy.Ordered (fun a ↦ t.setup.hash (key a)) t.home) {i : Nat}
    (hi : i ≤ t.slots.slotCount) (h : Restored t.slots copy i) :
    (t.slots.segment i t.slots.slotCount).foldlM t.seat? copy = some t.slots := by
  induction hn : t.slots.slotCount - i generalizing i copy with
  | zero =>
    obtain rfl : i = t.slots.slotCount := by omega
    rw [t.slots.segment_self, h.eq ord ord']
    rfl
  | succ n ih =>
    have hlt : i < t.slots.slotCount := by omega
    rcases ha : t.slots.item? i with - | a
    · rw [t.slots.segment_of_vacant hlt ha]
      exact ih ord' hlt (h.succ_of_vacant ha) (by omega)
    · obtain ⟨hplaced, hrestored⟩ := h.place ord ord' ha
      rw [t.slots.segment_eq_cons hlt ha, List.foldlM_cons, seat?, h.capacity_eq,
        h.vacancy?_eq ord ord' ha]
      exact ih hplaced hlt hrestored (by omega)

/-- **Items that are placed again at their capacity are in their slots again.** -/
theorem reseat?_capacity (ord : t.setup.Orders key t.slots) :
    t.reseat? t.capacity = some t.slots := by
  have hseated := foldlM_seat?_of_restored ord (ordered_blank t.slots.capacity)
    (Nat.zero_le _) (restored_blank t.slots)
  rwa [← toList_eq_segment] at hseated

theorem fitsAt_capacity (ord : t.setup.Orders key t.slots) : t.FitsAt t.capacity := by
  rw [fitsAt_iff, reseat?_capacity ord]
  rfl

/-- **A relocation at the present capacity gives the slots that there are.** -/
theorem relocate_capacity (ord : t.setup.Orders key t.slots) (hblock : t.HasBlock t.capacity) :
    t.relocate t.capacity = .ok (.ok t.slots) := by
  obtain ⟨block, hblock⟩ := hblock
  rw [relocate, hblock]
  simp only [reseat?_capacity ord]

/-! ### Retries under powers of two -/

theorem Attempts.ne_capacity_of_full {capacity : Nat} (ord : t.setup.Orders key t.slots)
    (hfull : t.reseat? capacity = none) : capacity ≠ t.capacity := by
  rintro rfl
  cases (reseat?_capacity ord).symm.trans hfull

/-- No attempt follows the one at the present capacity. -/
theorem Attempts.eq_capacity {capacity : Nat} (ord : t.setup.Orders key t.slots)
    (h : Attempts t t.capacity capacity) : capacity = t.capacity := by
  induction h with
  | first => rfl
  | retry h hblock hfull hdouble hlarger ih =>
    exact absurd ih (Attempts.ne_capacity_of_full ord hfull)

/-- With powers of two, an attempt that fails below the present capacity is at no more than the half
of it. -/
theorem two_mul_le_of_full {capacity : Nat} (ord : t.setup.Orders key t.slots)
    (hpolicy : t.setup.policy = .powerOfTwo) (hoff : t.setup.Offers t.capacity)
    (hcapacity : t.setup.Offers capacity) (hle : capacity ≤ t.capacity)
    (hfull : t.reseat? capacity = none) : capacity * 2 ≤ t.capacity := by
  have hpow : ∀ {c}, t.setup.Offers c → c.isPowerOfTwo := fun ⟨_, hsize⟩ ↦
    (GrowthPolicy.restricts_of_eq hpolicy).isPowerOfTwo hsize
  refine GrowthPolicy.two_mul_le_of_isPowerOfTwo (hpow hcapacity) (hpow hoff) ?_
  exact Nat.lt_of_le_of_ne hle (Attempts.ne_capacity_of_full ord hfull)

section PowerOfTwo

variable (ord : t.setup.Orders key t.slots) (hpolicy : t.setup.policy = .powerOfTwo)
  (hoff : t.setup.Offers t.capacity) (hfirst : t.setup.Offers first) (hle : first ≤ t.capacity)
include ord hpolicy hoff hfirst hle

/-- **With powers of two no attempt is above the present capacity**, if the first one is not: the
retries come to the present capacity, and there the items fit. -/
theorem Attempts.le_capacity {capacity : Nat} (h : Attempts t first capacity) :
    capacity ≤ t.capacity := by
  induction h with
  | first => exact hle
  | retry h hblock hfull hdouble hlarger ih =>
    have htwice := two_mul_le_of_full ord hpolicy hoff (h.offers hfirst) ih hfull
    obtain ⟨size, hsize⟩ := hoff
    obtain ⟨k, hk⟩ := (GrowthPolicy.restricts_of_eq hpolicy).isPowerOfTwo hsize
    have hmin := (t.setup.policy.le_of_capacityFor hsize).2
    rw [hpolicy] at hlarger
    rw [hk] at htwice hmin ⊢
    exact GrowthPolicy.le_two_pow_of_capacityFor hlarger (Nat.max_le.mpr ⟨htwice, hmin⟩)

/-- With powers of two a relocation to no larger capacity does not end above the present one. -/
theorem capacity_relocate_le {slots : SlotArray α} (h : t.relocate first = .ok (.ok slots)) :
    slots.capacity ≤ t.capacity := by
  obtain ⟨last, hlast, hends⟩ := Attempts.exists_ends (.first : Attempts t first first)
  rw [h] at hends
  cases hends with
  | seated hslots =>
    exact t.capacity_reseat? hslots ▸ hlast.le_capacity ord hpolicy hoff hfirst hle

/-- **With powers of two a relocation to no larger capacity succeeds**, if there is a block for each
of its attempts. -/
theorem exists_relocate_of_le (hblocks : ∀ c, Attempts t first c → t.HasBlock c) :
    ∃ slots, t.relocate first = .ok (.ok slots) ∧ slots.capacity ≤ t.capacity := by
  obtain ⟨last, hlast, hends⟩ := Attempts.exists_ends (.first : Attempts t first first)
  obtain ⟨block, hblock⟩ := hblocks last hlast
  have hlast_le := hlast.le_capacity ord hpolicy hoff hfirst hle
  have htwice := two_mul_le_of_full ord hpolicy hoff (hlast.offers hfirst) hlast_le
  obtain ⟨size, hsize⟩ := hoff
  have hrestricts := GrowthPolicy.restricts_of_eq hpolicy
  generalize hrelocate : t.relocate first = answer at hends
  cases hends with
  | seated hslots => exact ⟨_, rfl, t.capacity_reseat? hslots ▸ hlast_le⟩
  | outOfRange hnone =>
    rw [Setup.block, hnone] at hblock
    cases hblock
  | refused hlayout hrefused =>
    rw [Setup.block, hlayout] at hblock
    simp only [hrefused, Bool.false_eq_true, if_false] at hblock
    cases hblock
  -- the double of an attempt that fails is not above the present capacity, which the policy returns
  | overflow hfull hdouble =>
    have hbound := hrestricts.lt_bound hsize
    have := htwice hfull
    omega
  | declined hfull hdouble hdeclined =>
    have hbound := hrestricts.lt_bound hsize
    have hmin := (t.setup.policy.le_of_capacityFor hsize).2
    have htwice := htwice hfull
    obtain ⟨k, hk⟩ := hrestricts.isPowerOfTwo hsize
    rw [hk] at hbound hmin htwice
    obtain ⟨larger, hlarger⟩ :=
      GrowthPolicy.exists_capacityFor_powerOfTwo (Nat.max_le.mpr ⟨htwice, hmin⟩) hbound
    rw [hpolicy, hlarger] at hdeclined
    cases hdeclined

end PowerOfTwo

/-- **A relocation at the present capacity changes nothing**: the items are placed into their own
slots, at the first attempt, and what is returned is the slots that there are. So with powers of two
a rehash of which the requested capacity is no larger attempts none above the present one, and it
returns if there is a block for each attempt. -/
theorem relocation_in_place (ord : t.setup.Orders key t.slots)
    (hoff : t.setup.Offers t.capacity) :
    t.reseat? t.capacity = some t.slots ∧
    (∀ capacity, Attempts t t.capacity capacity → capacity = t.capacity) ∧
    (t.HasBlock t.capacity → t.relocate t.capacity = .ok (.ok t.slots)) ∧
    (t.setup.policy = .powerOfTwo → ∀ count first,
      t.setup.policy.capacityFor (t.rehashTarget count) = .ok first → first ≤ t.capacity →
        (∀ capacity, Attempts t first capacity → capacity ≤ t.capacity) ∧
        ((∀ capacity, Attempts t first capacity → t.HasBlock capacity) →
          (t.rehash count).result = .ok () ∧ (t.rehash count).state.capacity ≤ t.capacity)) := by
  refine ⟨reseat?_capacity ord, fun _ h ↦ h.eq_capacity ord, relocate_capacity ord, ?_⟩
  intro hpolicy count first hfirst hle
  refine ⟨fun _ h ↦ h.le_capacity ord hpolicy hoff ⟨_, hfirst⟩ hle, fun hblocks ↦ ?_⟩
  rcases t.rehash_cases count with
    ⟨-, heq⟩ | ⟨-, ⟨fault, hfault, -⟩ | ⟨first', hfirst', ⟨-, heq⟩ | ⟨-, heq⟩⟩⟩
  · rw [heq]
    exact ⟨rfl, Nat.zero_le _⟩
  · cases hfault.symm.trans hfirst
  · rw [heq]
    exact ⟨rfl, Nat.le_refl _⟩
  · cases hfirst'.symm.trans hfirst
    obtain ⟨slots, hslots, hslots_le⟩ :=
      exists_relocate_of_le ord hpolicy hoff ⟨_, hfirst⟩ hle hblocks
    rw [heq, resizeOrFail_of_relocate hslots]
    exact ⟨rfl, hslots_le⟩

end Table

namespace Bank

/-- Keys that come in another order at half of the capacity for them, and do not fit at a quarter of
it. -/
def interleavedKeys : List UInt64 :=
  [0, 33, 55, 435, 61, 127, 275, 27, 20, 199, 45, 2, 8, 174, 14, 168, 124]

/-- Room is reserved, and keys are inserted one after the other. -/
def insertingTable (room : Nat) (ks : List UInt64) :
    List (Command (Table.Call Unit UInt64 UInt64) UInt64) :=
  .call 0 (.upkeep (.reserve room)) :: ks.map fun k ↦ .call 0 (.access (.emplace k id))

/-- The table with the keys. -/
def insertedTable (policy : GrowthPolicy) (room : Nat) (ks : List UInt64) :
    Table (id : UInt64 → UInt64) :=
  run Table.Call.next (fresh id fun _ ↦ .scattered UInt64 policy) (insertingTable room ks) 0

/-- The table with keys that come in another order at half of the capacity. -/
def interleavedTable : Table (id : UInt64 → UInt64) :=
  insertedTable .powerOfTwo 100 interleavedKeys

theorem admits_insertingTable (bank : Bank (id : UInt64 → UInt64)) (room : Nat)
    (ks : List UInt64) :
    Admits Table.Call.next (fun t c ↦ c.Keeps t.SameHash t) Table.SameHash bank
      (insertingTable room ks) :=
  ⟨trivial, admits_emplaces _ _⟩

theorem kept_insertedTable (policy : GrowthPolicy) (room : Nat) (ks : List UInt64) :
    (insertedTable policy room ks).Sound ∧
      (insertedTable policy room ks).setup = .scattered UInt64 policy :=
  kept_run (P := (· = Setup.scattered UInt64 policy)) (fun _ c ht hkeep ↦ ht.next c hkeep)
    (fun _ ↦ rfl) (admits_insertingTable _ room ks) 0

/-- Small capacities have blocks. -/
theorem exists_block_scattered (policy : GrowthPolicy) {capacity : Nat} (h : capacity ≤ 128) :
    ∃ block, (Setup.scattered UInt64 policy).block capacity = .ok block := by
  have hall : ∀ c < 129, ((Setup.scattered UInt64 .modulo).block c).isOk = true := by decide +kernel
  have hok := hall capacity (Nat.lt_succ_of_le h)
  rcases hblock : (Setup.scattered UInt64 policy).block capacity with e | block
  · rw [show (Setup.scattered UInt64 .modulo).block capacity = .error e from hblock] at hok
    cases hok
  · exact ⟨block, rfl⟩

end Bank

open Bank Table in
/-- At its capacity of 128 a table is relocated into the slots that it has. A rehash to 32 finds a
full window there, and ends below 128. -/
theorem relocation_in_place_interleaved :
    interleavedTable.capacity = 128 ∧
      interleavedTable.relocate 128 = .ok (.ok interleavedTable.slots) ∧
      interleavedTable.setup.policy.capacityFor (interleavedTable.rehashTarget 0) = .ok 32 ∧
      interleavedTable.reseat? 32 = none ∧ (interleavedTable.rehash 0).result = .ok () ∧
      (interleavedTable.rehash 0).state.capacity ≤ 128 := by
  obtain ⟨hcapacity, htarget, hfull⟩ : interleavedTable.capacity = 128 ∧
      interleavedTable.rehashTarget 0 = 20 ∧
      (interleavedTable.reseat? 32).isNone = true := by decide +kernel
  obtain ⟨hsound, hsetup⟩ : interleavedTable.Sound ∧
      interleavedTable.setup = .scattered UInt64 .powerOfTwo :=
    kept_insertedTable .powerOfTwo 100 interleavedKeys
  have hfur := hsound.furnished (by rw [hcapacity]; decide)
  have hblocks : ∀ c ≤ interleavedTable.capacity, interleavedTable.HasBlock c := fun c hc ↦ by
    rw [HasBlock, hsetup]
    exact exists_block_scattered .powerOfTwo (hcapacity ▸ hc)
  obtain ⟨-, -, hrelocate, hrehash⟩ := relocation_in_place hfur.ordered hfur.offered
  have hfirst : interleavedTable.setup.policy.capacityFor (interleavedTable.rehashTarget 0) =
      .ok 32 := by
    rw [hsetup, htarget]
    rfl
  obtain ⟨hle, hreturns⟩ := hrehash (by rw [hsetup]; rfl) 0 32 hfirst (by rw [hcapacity]; decide)
  have hreturned := hreturns fun c hc ↦ hblocks c (hle c hc)
  rw [hcapacity] at hrelocate hreturned hblocks
  exact ⟨hcapacity, hrelocate (hblocks 128 (Nat.le_refl _)), hfirst,
    Option.isNone_iff_eq_none.mp hfull, hreturned⟩

end ProbeWindow
