import ProbeWindow.Proofs.Shrinking
import ProbeWindow.Proofs.Table.Attempts

/-!
# What a rehash leaves behind

A rehash asks the policy for slots for the items, and for no fewer than a requested number. Whether
the table has to grow for that or to shrink, or is there already, what it ends with is the same: the
first capacity of the chain at which the items fit, in the order of the old slots. The load factor
admits the items there, also when an attempt was dropped and the capacity is larger than what was
asked for. When nothing is needed at all, the slots are given back.

The number of slots for the items may be out of range, and the call asks for the largest word then.
No table has so many slots, so such a call does not return (`Sound.exists_slotsFor?`).
-/

namespace ProbeWindow

universe u v w x

namespace Table

variable {α : Type u} {κ : Type v} [BEq κ] {key : α → κ} {t : Table key} {count : Nat}

/-- **What a rehash that returns has done.** -/
structure Rehashes (t : Table key) (count : Nat) (t' : Table key) : Prop where
  /-- The items are the same. -/
  perm : t'.toList.Perm t.toList
  /-- So is their number. -/
  size_eq : t'.size = t.size
  /-- When nothing is needed, the slots are given back and the mark is cleared. -/
  of_idle : t.size = 0 → count = 0 → t'.capacity = 0 ∧ t'.rehashPending = false
  /-- Else there are no fewer slots than requested, and no fewer than the smallest table has. -/
  le_capacity : 0 < t.size ∨ 0 < count → max count minCapacity ≤ t'.capacity
  /-- The load factor admits the items. -/
  size_le_maxSize : t'.size ≤ t'.maxSize
  /-- **The capacity is the one for the items and the requested slots**, unless the items, in the
  order of the old slots, do not fit there; then it is the first later one of the chain at which
  they fit. -/
  capacity_eq : 0 < t.size ∨ 0 < count → ∃ slots first,
    t.maxLoad.slotsFor? t.size = some slots ∧
      t.setup.policy.capacityFor (max count slots) = .ok first ∧
      (t.FitsAt first → t'.capacity = first) ∧
      (¬t.FitsAt first → ∃ n, t.setup.policy.chain first (n + 1) = some t'.capacity ∧
        t.FitsAt t'.capacity ∧ t.setup.policy.AllOfFirst first (n + 1) (¬t.FitsAt ·))

/-- Something is needed when there are items, or slots are requested. -/
theorem rehashTarget_eq_zero_iff : t.rehashTarget count = 0 ↔ t.size = 0 ∧ count = 0 := by
  constructor
  · intro hzero
    refine ⟨?_, Nat.le_zero.mp (hzero ▸ Nat.le_max_right ..)⟩
    by_contra hsize
    exact rehashTarget_ne_zero (Nat.pos_of_ne_zero hsize) count hzero
  · rintro ⟨hsize, rfl⟩
    exact rehashTarget_zero hsize

/-- **A rehash that returns has found a number of slots for its items.** -/
theorem Sound.exists_slotsFor? (h : t.Sound) (hne : t.rehashTarget count ≠ 0)
    (hok : (t.rehash count).result = .ok ()) :
    ∃ slots, t.maxLoad.slotsFor? t.size = some slots ∧ t.rehashTarget count = max count slots := by
  cases hslots : t.maxLoad.slotsFor? t.size with
  | some slots => exact ⟨slots, rfl, by rw [rehashTarget, hslots, Nat.max_comm]; rfl⟩
  | none =>
    obtain ⟨first, n, hfirst, hn, -⟩ := h.rehash_first_fitting hne hok
    have hlarge : Word.bound - 1 ≤ (t.rehash count).state.capacity := by
      calc Word.bound - 1 ≤ t.rehashTarget count := by
            rw [rehashTarget, hslots]
            exact Nat.le_max_left ..
        _ ≤ first := (t.setup.policy.le_of_capacityFor hfirst).1
        _ ≤ (t.rehash count).state.capacity := GrowthPolicy.le_of_chain hn
    have hpos : 0 < (t.rehash count).state.capacity := Nat.lt_of_lt_of_le (by decide) hlarge
    -- no capacity is so large, since the overflow slots have to be numbered as well
    have hlt := ((h.rehash count).sound.furnished hpos).slots_lt
    simp only [Word.bound, maxOffset, windowWidth] at hlt hlarge
    omega

/-- **When nothing is needed, the slots are given back.** -/
theorem Sound.rehashes_idle (h : t.Sound) (hempty : t.size = 0) :
    Rehashes t 0 (t.rehash 0).state := by
  have hrehoused := h.rehash 0
  have hsize := hrehoused.size_eq h
  have hstate : (t.rehash 0).state = { t with slots := .unallocated, rehashPending := false } :=
    congrArg Outcome.state (shrinkToFit_of_size_eq_zero hempty)
  have hidle : ¬(0 < t.size ∨ 0 < 0) := by omega
  constructor
  case perm => exact hrehoused.perm
  case size_eq => exact hsize
  case of_idle =>
    rw [hstate]
    exact fun _ _ ↦ ⟨rfl, rfl⟩
  case le_capacity => exact fun hneeded ↦ absurd hneeded hidle
  case size_le_maxSize =>
    rw [hsize, hempty]
    exact Nat.zero_le _
  case capacity_eq => exact fun hneeded ↦ absurd hneeded hidle

/-- **When something is needed, the items end in slots that are enough for it.** -/
theorem Sound.rehashes_needed (h : t.Sound) (hne : t.rehashTarget count ≠ 0)
    (hok : (t.rehash count).result = .ok ()) : Rehashes t count (t.rehash count).state := by
  have hrehoused := h.rehash count
  have hsize := hrehoused.size_eq h
  obtain ⟨slots, hslots, htarget⟩ := h.exists_slotsFor? hne hok
  obtain ⟨first, n, hfirst, hn, hfits, hbefore⟩ := h.rehash_first_fitting hne hok
  rw [htarget] at hfirst
  obtain ⟨hfirst_le, hmin⟩ := t.setup.policy.le_of_capacityFor hfirst
  obtain ⟨hcount, hslots_le⟩ := Nat.max_le.mp hfirst_le
  have hchain : first ≤ (t.rehash count).state.capacity := GrowthPolicy.le_of_chain hn
  constructor
  case perm => exact hrehoused.perm
  case size_eq => exact hsize
  case of_idle =>
    exact fun hempty hnone ↦ absurd (rehashTarget_eq_zero_iff.mpr ⟨hempty, hnone⟩) hne
  case le_capacity => exact fun _ ↦ Nat.le_trans (Nat.max_le.mpr ⟨hcount, hmin⟩) hchain
  case size_le_maxSize =>
    rw [hsize, maxSize, hrehoused.maxLoad_eq]
    exact t.maxLoad.le_maxSize_of_slotsFor? hslots (Nat.le_trans hslots_le hchain)
  case capacity_eq => exact fun _ ↦ ⟨slots, first, hslots, hfirst, hbefore.start_or_later hn hfits⟩

/-- **Every rehash that returns has done so.** -/
theorem Sound.rehashes (h : t.Sound) (hok : (t.rehash count).result = .ok ()) :
    Rehashes t count (t.rehash count).state := by
  by_cases hzero : t.rehashTarget count = 0
  · obtain ⟨hempty, rfl⟩ := rehashTarget_eq_zero_iff.mp hzero
    exact h.rehashes_idle hempty
  · exact h.rehashes_needed hzero hok

end Table

/-! ### Runs -/

open Table

variable {α : Type u} {κ : Type v} {ν : Type x} {σ : Type w} [BEq κ]

/-- **What a rehash leaves behind, wherever a run leads to**, under any policy and for any number of
requested slots. -/
theorem rehashes_of_run (setups : Nat → Setup κ) (r count : Nat) :
    (∀ (key : α → κ) (cs : List (Bank.Command (Table.Call σ α κ) α)),
      Bank.Admits Table.Call.next (fun t c ↦ c.Keeps t.SameHash t) SameHash
          (Bank.fresh key setups) cs →
        let t := Bank.run Table.Call.next (Bank.fresh key setups) cs r
        (t.rehash count).result = .ok () → Rehashes t count (t.rehash count).state) ∧
    (∀ cs : List (Bank.Command (HashMap.Call σ κ ν) (κ × ν)),
      Bank.Admits HashMap.Call.next (fun _ _ ↦ True) SameHash (Bank.fresh Prod.fst setups) cs →
        let m := Bank.run HashMap.Call.next (Bank.fresh Prod.fst setups) cs r
        (m.rehash count).result = .ok () → Rehashes m count (m.rehash count).state) ∧
    ∀ cs : List (Bank.Command (HashSet.Call σ κ) κ),
      Bank.Admits HashSet.Call.next (fun _ _ ↦ True) SameHash (Bank.fresh id setups) cs →
        let s := Bank.run HashSet.Call.next (Bank.fresh id setups) cs r
        (s.rehash count).result = .ok () → Rehashes s count (s.rehash count).state :=
  ⟨fun _ _ hcs ↦ (Table.sound_run hcs r).rehashes, fun _ hcs ↦ (HashMap.sound_run hcs r).rehashes,
    fun _ hcs ↦ (HashSet.sound_run hcs r).rehashes⟩

open Bank in
/-- A table grows for the requested slots, and a map has them already. The keys of the set do not
fit at the slots that are enough for them, and end at twice as many. -/
theorem rehashes_of_run_aligned :
    (((insertedTable .modulo 18 [1, 2, 3]).rehash 40).state.capacity = 40 ∧
      Rehashes (insertedTable .modulo 18 [1, 2, 3]) 40
        ((insertedTable .modulo 18 [1, 2, 3]).rehash 40).state) ∧
    (((insertedMap .modulo 18 [1, 2, 3]).rehash 21).state.capacity = 21 ∧
      Rehashes (insertedMap .modulo 18 [1, 2, 3]) 21
        ((insertedMap .modulo 18 [1, 2, 3]).rehash 21).state) ∧
    (alignedSet.rehash 20).state.capacity = 40 ∧
      Rehashes alignedSet 20 (alignedSet.rehash 20).state := by
  have hrun := rehashes_of_run (α := UInt64) (ν := Nat) (σ := Unit)
    (fun _ ↦ .scattered UInt64 .modulo) 0
  obtain ⟨hok, ht⟩ : ((insertedTable .modulo 18 [1, 2, 3]).rehash 40).result = .ok () ∧
      ((insertedTable .modulo 18 [1, 2, 3]).rehash 40).state.capacity = 40 := by decide +kernel
  obtain ⟨hok', hm⟩ : ((insertedMap .modulo 18 [1, 2, 3]).rehash 21).result = .ok () ∧
      ((insertedMap .modulo 18 [1, 2, 3]).rehash 21).state.capacity = 21 := by decide +kernel
  obtain ⟨hok'', hs⟩ : (alignedSet.rehash 20).result = .ok () ∧
      (alignedSet.rehash 20).state.capacity = 40 := by decide +kernel
  refine ⟨⟨ht, ?_⟩, ⟨hm, ?_⟩, hs, ?_⟩
  · exact (hrun 40).1 id _ (admits_insertingTable _ 18 [1, 2, 3]) hok
  · exact (hrun 21).2.1 (insertingMap 18 [1, 2, 3]) ⟨trivial, trivial, trivial⟩ hok'
  · exact (hrun 20).2.2 (insertingSet 18 alignedKeys) ⟨trivial, trivial, trivial⟩ hok''

end ProbeWindow
