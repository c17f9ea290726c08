import ProbeWindow.Proofs.GrowthPolicy
import Mathlib.Order.Bounds.Basic

/-!
# Capacities are rounded up

Each policy of the library has a kind of capacities, and grants a request by the least capacity of
its kind that is enough (`RoundsUp`): `powerOfTwo` by the least power of two, `modulo` by the least
number. All that growth relies on follows from this, and from the double of a capacity being of the
same kind (`RoundsUp.contract`): rounding up is monotone, and it leaves a capacity and its double
as they are, so that the next attempt of a relocation is at exactly twice the capacity.

What a policy refuses is what does not fit a word. That concerns `powerOfTwo` only, and there the
requests above half of the address range.
-/

namespace ProbeWindow.GrowthPolicy

variable {policy : GrowthPolicy} {kind : Nat → Prop} {size size' capacity capacity' : Nat}

/-! ### The least capacity that is enough -/

/-- The capacities of a kind that are enough for a request, and for the smallest table. -/
def enough (kind : Nat → Prop) (size : Nat) : Set Nat :=
  {capacity | kind capacity ∧ max size minCapacity ≤ capacity}

theorem enough_anti (h : size ≤ size') : enough kind size' ⊆ enough kind size := by
  rintro capacity ⟨hkind, hle⟩
  obtain ⟨hsize, hmin⟩ := Nat.max_le.mp hle
  exact ⟨hkind, Nat.max_le.mpr ⟨Nat.le_trans h hsize, hmin⟩⟩

/-- A capacity of the kind is the least one that is enough for itself. -/
theorem isLeast_enough_self (hkind : kind capacity) (hmin : minCapacity ≤ capacity) :
    IsLeast (enough kind capacity) capacity :=
  ⟨⟨hkind, Nat.max_le.mpr ⟨Nat.le_refl _, hmin⟩⟩,
    fun _ hother ↦ Nat.le_trans (Nat.le_max_left ..) hother.2⟩

/-- The policy grants the requests that fit a word, by the least capacity of a kind. -/
structure RoundsUp (policy : GrowthPolicy) (kind : Nat → Prop) : Prop where
  /-- What is returned is the least capacity that is enough. -/
  isLeast : ∀ {size capacity}, policy.capacityFor size = .ok capacity →
    IsLeast (enough kind size) capacity
  /-- It is returned when it fits a word. -/
  capacityFor_eq : ∀ {size capacity}, IsLeast (enough kind size) capacity →
    capacity < Word.bound → policy.capacityFor size = .ok capacity
  /-- It fits a word when the request does. -/
  lt_bound : ∀ {size capacity}, size < Word.bound → policy.capacityFor size = .ok capacity →
    capacity < Word.bound

/-! ### The contract -/

/-- The policy returns a capacity for a request that fits a word. -/
def Returns (policy : GrowthPolicy) (size capacity : Nat) : Prop :=
  size < Word.bound ∧ policy.capacityFor size = .ok capacity

/-- **What growth relies on.** -/
structure Contract (policy : GrowthPolicy) : Prop where
  /-- A capacity fits a word. -/
  lt_bound : ∀ {size capacity}, policy.Returns size capacity → capacity < Word.bound
  /-- It is enough for the request, and for the smallest table. -/
  max_le : ∀ {size capacity}, policy.Returns size capacity → max size minCapacity ≤ capacity
  /-- A larger request gets no smaller capacity. -/
  mono : ∀ {size size' capacity capacity'}, size ≤ size' → policy.Returns size capacity →
    policy.Returns size' capacity' → capacity ≤ capacity'
  /-- A capacity is what is returned for itself. -/
  capacityFor_self : ∀ {size capacity}, policy.Returns size capacity →
    policy.capacityFor capacity = .ok capacity
  /-- So is its double, if the double fits a word. -/
  capacityFor_double : ∀ {size capacity}, policy.Returns size capacity →
    2 * capacity < Word.bound → policy.capacityFor (2 * capacity) = .ok (2 * capacity)
  /-- The home of a hash is its remainder. -/
  index_eq_mod : ∀ {size capacity} (hash : UInt64), policy.Returns size capacity →
    policy.index hash capacity = hash.toNat % capacity
  /-- It is below the capacity. -/
  mod_lt : ∀ {size capacity} (hash : UInt64), policy.Returns size capacity →
    hash.toNat % capacity < capacity

/-- **Rounding up keeps the contract**, when the kind has the doubles of its capacities and homes
are remainders. -/
theorem RoundsUp.contract (h : policy.RoundsUp kind)
    (hdouble : ∀ capacity, kind capacity → kind (2 * capacity))
    (hindex : ∀ hash capacity, kind capacity →
      policy.index hash capacity = hash.toNat % capacity) : policy.Contract := by
  have hmin : ∀ {size capacity}, policy.Returns size capacity → minCapacity ≤ capacity :=
    fun hreturns ↦ Nat.le_trans (Nat.le_max_right ..) (h.isLeast hreturns.2).1.2
  constructor
  case lt_bound => exact fun hreturns ↦ h.lt_bound hreturns.1 hreturns.2
  case max_le => exact fun hreturns ↦ (h.isLeast hreturns.2).1.2
  case mono =>
    exact fun hle hreturns hreturns' ↦
      (h.isLeast hreturns'.2).mono (h.isLeast hreturns.2) (enough_anti hle)
  case capacityFor_self =>
    intro size capacity hreturns
    have hkind := (h.isLeast hreturns.2).1.1
    exact h.capacityFor_eq (isLeast_enough_self hkind (hmin hreturns))
      (h.lt_bound hreturns.1 hreturns.2)
  case capacityFor_double =>
    intro size capacity hreturns hlt
    have hkind := hdouble capacity (h.isLeast hreturns.2).1.1
    have hle : minCapacity ≤ 2 * capacity :=
      Nat.le_trans (hmin hreturns) (Nat.le_mul_of_pos_left capacity Nat.two_pos)
    exact h.capacityFor_eq (isLeast_enough_self hkind hle) hlt
  case index_eq_mod => exact fun hash hreturns ↦ hindex hash _ (h.isLeast hreturns.2).1.1
  case mod_lt =>
    exact fun hash hreturns ↦ Nat.mod_lt _ (Nat.lt_of_lt_of_le (by decide) (hmin hreturns))

/-! ### Powers of two -/

theorem isLeast_leastPowerOfTwo (size : Nat) :
    IsLeast (enough Nat.isPowerOfTwo size) (leastPowerOfTwo (max size minCapacity)) := by
  refine ⟨⟨isPowerOfTwo_leastPowerOfTwo _, le_leastPowerOfTwo _⟩, ?_⟩
  rintro other ⟨⟨k, rfl⟩, hle⟩
  exact leastPowerOfTwo_le hle

/-- The least power of two fits a word up to half of the address range. -/
theorem leastPowerOfTwo_lt_bound_iff :
    leastPowerOfTwo (max size minCapacity) < Word.bound ↔ size ≤ 2 ^ 63 := by
  obtain ⟨k, hk⟩ := isPowerOfTwo_leastPowerOfTwo (max size minCapacity)
  constructor
  · intro hlt
    rw [hk] at hlt
    have hle : k ≤ 63 := Nat.le_of_lt_succ ((Nat.pow_lt_pow_iff_right (by decide)).mp hlt)
    calc size ≤ max size minCapacity := Nat.le_max_left ..
      _ ≤ leastPowerOfTwo (max size minCapacity) := le_leastPowerOfTwo _
      _ = 2 ^ k := hk
      _ ≤ 2 ^ 63 := Nat.pow_le_pow_right (by decide) hle
  · intro hle
    calc leastPowerOfTwo (max size minCapacity) ≤ 2 ^ 63 :=
          leastPowerOfTwo_le (Nat.max_le.mpr ⟨hle, by decide⟩)
      _ < Word.bound := by decide

/-- **A request is granted up to half of the address range**, by the least power of two. -/
theorem capacityFor_powerOfTwo_eq_ok_iff : powerOfTwo.capacityFor size = .ok capacity ↔
    size ≤ 2 ^ 63 ∧ IsLeast (enough Nat.isPowerOfTwo size) capacity := by
  have hleast := isLeast_leastPowerOfTwo size
  simp only [powerOfTwo]
  rw [← leastPowerOfTwo_lt_bound_iff]
  constructor
  · intro h
    split at h
    · next hlt =>
      cases h
      exact ⟨hlt, hleast⟩
    · cases h
  · rintro ⟨hlt, hother⟩
    rw [if_pos hlt, hleast.unique hother]

/-- **A request above half of the address range is refused.** -/
theorem capacityFor_powerOfTwo_eq_error_iff {fault : Fault} :
    powerOfTwo.capacityFor size = .error fault ↔ 2 ^ 63 < size ∧ fault = .capacityOverflow := by
  have hrange : 2 ^ 63 < size ↔ ¬leastPowerOfTwo (max size minCapacity) < Word.bound := by
    rw [leastPowerOfTwo_lt_bound_iff, Nat.not_le]
  rw [hrange]
  simp only [powerOfTwo]
  constructor
  · intro h
    split at h
    · cases h
    · next hge =>
      cases h
      exact ⟨hge, rfl⟩
  · rintro ⟨hge, rfl⟩
    rw [if_neg hge]

theorem powerOfTwo_roundsUp : powerOfTwo.RoundsUp Nat.isPowerOfTwo where
  isLeast h := (capacityFor_powerOfTwo_eq_ok_iff.mp h).2
  capacityFor_eq {size capacity} h hlt := by
    rw [capacityFor_powerOfTwo_eq_ok_iff, ← leastPowerOfTwo_lt_bound_iff,
      (isLeast_leastPowerOfTwo size).unique h]
    exact ⟨hlt, h⟩
  lt_bound _ h := (restricts_refl powerOfTwo).lt_bound h

/-- The low bits of a hash are its remainder by a power of two. -/
theorem index_powerOfTwo (hash : UInt64) (h : capacity.isPowerOfTwo) :
    powerOfTwo.index hash capacity = hash.toNat % capacity := by
  obtain ⟨k, rfl⟩ := h
  exact Nat.and_two_pow_sub_one_eq_mod _ k

/-! ### All numbers -/

theorem modulo_roundsUp : modulo.RoundsUp fun _ ↦ True where
  isLeast h := by
    cases h
    exact ⟨⟨trivial, Nat.le_refl _⟩, fun _ hother ↦ hother.2⟩
  capacityFor_eq {size capacity} h _ := by
    have hself : IsLeast (enough (fun _ ↦ True) size) (max size minCapacity) :=
      ⟨⟨trivial, Nat.le_refl _⟩, fun _ hother ↦ hother.2⟩
    rw [h.unique hself]
    rfl
  lt_bound hlt h := by
    cases h
    exact Nat.max_lt.mpr ⟨hlt, by decide⟩

/-- **Both policies keep the contract.** Powers of two are the least ones that are enough, and are
refused exactly above half of the address range; exact capacities are never refused. -/
theorem shipped_keep_contract :
    powerOfTwo.Contract ∧ modulo.Contract ∧
      (∀ size capacity, powerOfTwo.Returns size capacity →
        IsLeast {p | p.isPowerOfTwo ∧ max size minCapacity ≤ p} capacity) ∧
      (∀ size fault, powerOfTwo.capacityFor size = .error fault ↔
        2 ^ 63 < size ∧ fault = .capacityOverflow) ∧
      ∀ size < Word.bound, ∃ capacity, modulo.Returns size capacity := by
  refine ⟨?_, ?_, ?_, ?_, ?_⟩
  · refine powerOfTwo_roundsUp.contract ?_ fun hash capacity ↦ index_powerOfTwo hash
    rintro capacity ⟨k, rfl⟩
    exact ⟨k + 1, (Nat.pow_succ' ..).symm⟩
  · exact modulo_roundsUp.contract (fun _ _ ↦ trivial) fun _ _ _ ↦ rfl
  · exact fun size capacity h ↦ powerOfTwo_roundsUp.isLeast h.2
  · exact fun size fault ↦ capacityFor_powerOfTwo_eq_error_iff
  · exact fun size hsize ↦ ⟨_, hsize, rfl⟩

/-- A request for nine slots: its capacities, the doubles of these, and two homes. The first request
for which there is no power of two is refused. -/
theorem shipped_keep_contract_nine :
    (powerOfTwo.Returns 9 16 ∧ powerOfTwo.capacityFor (2 * 16) = .ok (2 * 16) ∧
      powerOfTwo.index 100 16 = 100 % 16) ∧
    (modulo.Returns 9 9 ∧ modulo.capacityFor (2 * 9) = .ok (2 * 9) ∧
      modulo.index 100 9 = 100 % 9) ∧
    powerOfTwo.capacityFor (2 ^ 63 + 1) = .error .capacityOverflow := by
  obtain ⟨hpower, hmodulo, -, hrefused, -⟩ := shipped_keep_contract
  have hsixteen : powerOfTwo.Returns 9 16 := ⟨by decide, by decide +kernel⟩
  have hnine : modulo.Returns 9 9 := ⟨by decide, rfl⟩
  refine ⟨⟨hsixteen, ?_, ?_⟩, ⟨hnine, ?_, ?_⟩, ?_⟩
  · exact hpower.capacityFor_double hsixteen (by decide)
  · exact hpower.index_eq_mod 100 hsixteen
  · exact hmodulo.capacityFor_double hnine (by decide)
  · exact hmodulo.index_eq_mod 100 hnine
  · exact (hrefused _ _).mpr ⟨by decide, rfl⟩

end ProbeWindow.GrowthPolicy
