import ProbeWindow.GrowthPolicy
import Mathlib.Algebra.Group.Nat.Defs

/-!
# Policies that stand on others

A policy **restricts** another one when it returns no capacity that the other one does not return:
it may refuse more. All that is known of the capacities of a policy is known of the policies that
restrict it.

A policy is **willing** when it refuses no request that it may get while memory is reserved: not the
first one, and not one for twice a capacity that it has returned. Both policies of the library are,
as long as what is asked for fits a word.
-/

namespace ProbeWindow.GrowthPolicy

/-- Every capacity of a policy is one of a base policy, for the same request. -/
def Restricts (policy base : GrowthPolicy) : Prop :=
  ∀ size capacity, policy.capacityFor size = .ok capacity → base.capacityFor size = .ok capacity

theorem restricts_refl (policy : GrowthPolicy) : policy.Restricts policy := fun _ _ h ↦ h

theorem restricts_of_eq {policy base : GrowthPolicy} (h : policy = base) : policy.Restricts base :=
  h ▸ restricts_refl policy

theorem isPowerOfTwo_leastPowerOfTwo (n : Nat) : (leastPowerOfTwo n).isPowerOfTwo := by
  rw [leastPowerOfTwo]
  split
  · exact ⟨0, rfl⟩
  · exact ⟨_, rfl⟩

/-- **The capacities of `powerOfTwo` are powers of two.** -/
theorem Restricts.isPowerOfTwo {policy : GrowthPolicy} (h : policy.Restricts powerOfTwo)
    {size capacity : Nat} (hcapacity : policy.capacityFor size = .ok capacity) :
    capacity.isPowerOfTwo := by
  have hpow := h size capacity hcapacity
  simp only [powerOfTwo] at hpow
  split at hpow
  · cases hpow
    exact isPowerOfTwo_leastPowerOfTwo _
  · cases hpow

/-- **The capacities of `powerOfTwo` fit a word.** -/
theorem Restricts.lt_bound {policy : GrowthPolicy} (h : policy.Restricts powerOfTwo)
    {size capacity : Nat} (hcapacity : policy.capacityFor size = .ok capacity) :
    capacity < Word.bound := by
  have hpow := h size capacity hcapacity
  simp only [powerOfTwo] at hpow
  split at hpow
  · next hlt =>
    cases hpow
    exact hlt
  · cases hpow

/-- Powers of two, one of them smaller, are a factor of two apart. -/
theorem two_mul_le_of_isPowerOfTwo {a b : Nat} (ha : a.isPowerOfTwo) (hb : b.isPowerOfTwo)
    (hlt : a < b) : a * 2 ≤ b := by
  obtain ⟨i, rfl⟩ := ha
  obtain ⟨j, rfl⟩ := hb
  have hij : i < j := (Nat.pow_lt_pow_iff_right (by decide)).mp hlt
  rw [← Nat.pow_succ]
  exact Nat.pow_le_pow_right (by decide) hij

/-! ### Willing policies -/

/-- No request up to half of the address range is refused, nor one for the double of a capacity. -/
structure Willing (policy : GrowthPolicy) : Prop where
  /-- No request up to half of the address range is refused. -/
  first : ∀ size ≤ 2 ^ 63, ∃ capacity, policy.capacityFor size = .ok capacity
  /-- No request for the double of a capacity is refused, if the double fits a word. -/
  again : ∀ size capacity, policy.capacityFor size = .ok capacity → capacity * 2 < Word.bound →
    ∃ larger, policy.capacityFor (capacity * 2) = .ok larger

theorem leastPowerOfTwo_le {n k : Nat} (h : n ≤ 2 ^ k) : leastPowerOfTwo n ≤ 2 ^ k := by
  rw [leastPowerOfTwo]
  split
  · exact Nat.one_le_two_pow
  · have hlog : (n - 1).log2 < k := (Nat.log2_lt (by omega)).mpr (by omega)
    exact Nat.pow_le_pow_right (by decide) hlog

/-- The capacity for a request is not above a power of two that is enough. -/
theorem le_two_pow_of_capacityFor {size capacity k : Nat}
    (h : powerOfTwo.capacityFor size = .ok capacity) (hle : max size minCapacity ≤ 2 ^ k) :
    capacity ≤ 2 ^ k := by
  simp only [powerOfTwo] at h
  split at h
  · cases h
    exact leastPowerOfTwo_le hle
  · cases h

/-- A request that is not above a power of two within a word is granted. -/
theorem exists_capacityFor_powerOfTwo {size k : Nat} (h : max size minCapacity ≤ 2 ^ k)
    (hk : 2 ^ k < Word.bound) : ∃ capacity, powerOfTwo.capacityFor size = .ok capacity :=
  ⟨_, if_pos (Nat.lt_of_le_of_lt (leastPowerOfTwo_le h) hk)⟩

theorem powerOfTwo_willing : powerOfTwo.Willing where
  first size hsize :=
    exists_capacityFor_powerOfTwo (k := 63) (Nat.max_le.mpr ⟨hsize, by decide⟩) (by decide)
  again size capacity hcapacity hdouble := by
    obtain ⟨k, rfl⟩ := (restricts_refl powerOfTwo).isPowerOfTwo hcapacity
    have hmin := (powerOfTwo.le_of_capacityFor hcapacity).2
    rw [← Nat.pow_succ] at hdouble ⊢
    refine exists_capacityFor_powerOfTwo (Nat.max_le.mpr ⟨Nat.le_refl _, ?_⟩) hdouble
    exact Nat.le_trans hmin (Nat.pow_le_pow_right (by decide) (Nat.le_succ k))

theorem modulo_willing : modulo.Willing where
  first _ _ := ⟨_, rfl⟩
  again _ _ _ _ := ⟨_, rfl⟩

end ProbeWindow.GrowthPolicy
