import ProbeWindow.Fault

/-!
# Growth policies

A **growth policy** maps a hash to its home under a capacity, and a requested size to the
capacity to allocate for it. It may refuse a size. What it does return keeps two promises, which
are part of the type: the capacity is at least the request and at least `minCapacity`, and under
a capacity that it returned every home is below that capacity. The first promise makes every
growth strictly larger; the second keeps every window inside the slot array.

Two policies are provided, `powerOfTwo` and `modulo`, and `limited` bounds any policy.
-/

namespace ProbeWindow

/-- The smallest capacity of a table with slots. -/
abbrev minCapacity : Nat := 8

/-- A rule for homes and capacities. -/
structure GrowthPolicy where
  /-- What the policy is called. -/
  name : String
  /-- The home of a mixed hash under a capacity. -/
  index : UInt64 → Nat → Nat
  /-- The capacity for at least so many slots. -/
  capacityFor : Nat → Except Fault Nat
  /-- A capacity admits the request and is never below `minCapacity`. -/
  le_of_capacityFor : ∀ {size capacity : Nat},
    capacityFor size = .ok capacity → size ≤ capacity ∧ minCapacity ≤ capacity
  /-- A home lies below the capacity that the policy returned. -/
  index_lt : ∀ {size capacity : Nat} (hash : UInt64),
    capacityFor size = .ok capacity → index hash capacity < capacity

namespace GrowthPolicy

/-- The least power of two that is at least the given number. -/
def leastPowerOfTwo (n : Nat) : Nat := if n ≤ 1 then 1 else Nat.pow 2 ((n - 1).log2 + 1)

theorem le_leastPowerOfTwo (n : Nat) : n ≤ leastPowerOfTwo n := by
  have h : n - 1 < Nat.pow 2 ((n - 1).log2 + 1) := Nat.lt_log2_self
  rw [leastPowerOfTwo]
  split <;> omega

/-- Powers of two, with the low bits of the hash as home. The capacity is out of range when the
power would not fit a word. -/
def powerOfTwo : GrowthPolicy where
  name := "power of two"
  index hash capacity := hash.toNat &&& (capacity - 1)
  capacityFor size :=
    let capacity := leastPowerOfTwo (max size minCapacity)
    if capacity < Word.bound then .ok capacity else .error .capacityOverflow
  le_of_capacityFor {size capacity} h := by
    have hle := le_leastPowerOfTwo (max size minCapacity)
    simp only at h
    split at h
    · cases h
      exact ⟨Nat.le_trans (Nat.le_max_left ..) hle, Nat.le_trans (Nat.le_max_right ..) hle⟩
    · cases h
  index_lt {size capacity} hash h := by
    have hle := le_leastPowerOfTwo (max size minCapacity)
    simp only at h
    split at h
    · cases h
      have hpos := Nat.le_trans (Nat.le_max_right ..) hle
      exact Nat.lt_of_le_of_lt Nat.and_le_right (Nat.sub_one_lt_of_lt hpos)
    · cases h

/-- Exact capacities, with the remainder of the hash as home. -/
def modulo : GrowthPolicy where
  name := "modulo"
  index hash capacity := hash.toNat % capacity
  capacityFor size := .ok (max size minCapacity)
  le_of_capacityFor {size capacity} h := by
    cases h
    exact ⟨Nat.le_max_left .., Nat.le_max_right ..⟩
  index_lt {size capacity} hash h := by
    cases h
    exact Nat.mod_lt _ (Nat.lt_of_lt_of_le (by decide) (Nat.le_max_right size minCapacity))

/-- The policy `base`, except that it refuses every capacity above a limit. -/
def limited (base : GrowthPolicy) (limit : Nat) : GrowthPolicy where
  name := base.name
  index := base.index
  capacityFor size :=
    match base.capacityFor size with
    | .ok capacity => if limit < capacity then .error .growthLimit else .ok capacity
    | .error fault => .error fault
  le_of_capacityFor {size capacity} h := by
    split at h
    · rename_i c hc
      split at h
      · cases h
      · cases h
        exact base.le_of_capacityFor hc
    · cases h
  index_lt {size capacity} hash h := by
    split at h
    · rename_i c hc
      split at h
      · cases h
      · cases h
        exact base.index_lt hash hc
    · cases h

end GrowthPolicy

end ProbeWindow
