import ProbeWindow.LoadFactor
import Mathlib.Algebra.Group.Nat.Defs
import Mathlib.Order.MinMax
import Mathlib.Order.Monotone.Basic

/-!
# What a capacity admits, and the slots for a length

How many items a capacity admits is computed with two roundings, and both keep the order. Rounding
to the nearest integer keeps every integer where it is, so it keeps the order. Rounding to so many
significant bits is rounding to an integer, on a grid that depends on the length of the number: it
keeps the order between numbers of one length, and between numbers of different lengths because
there is a power of two between them, which is on both grids. So a larger capacity admits no fewer
items (`LoadFactor.monotone_maxSize`).

The other way round, the slots for a length are looked for from a quotient that is rounded twice as
well. It may be rounded up, and so may be what a capacity admits; but not by so much that the slots
for a length are more than a capacity that admits it (`LoadFactor.exists_slotsFor?`). For powers of
two this is so because they are not rounded at all, and for other capacities because the two
roundings together make up for less than half a slot.
-/

namespace ProbeWindow

namespace Rounding

variable {num num' den m bits k : Nat}

theorem nearest_bounds (num den : Nat) :
    num / den ≤ nearest num den ∧ nearest num den ≤ num / den + 1 := by
  simp only [nearest]
  split_ifs <;> omega

/-- What is not below an integer is rounded to nothing below it. -/
theorem le_nearest (hden : 0 < den) (h : m * den ≤ num) : m ≤ nearest num den :=
  Nat.le_trans ((Nat.le_div_iff_mul_le hden).mpr h) (nearest_bounds num den).1

/-- What is not above an integer is rounded to nothing above it. -/
theorem nearest_le (hden : 0 < den) (h : num ≤ m * den) : nearest num den ≤ m := by
  rcases Nat.lt_or_eq_of_le h with hlt | rfl
  · exact Nat.le_trans (nearest_bounds num den).2 ((Nat.div_lt_iff_lt_mul hden).mpr hlt)
  · rw [nearest, Nat.mul_mod_left, Nat.mul_div_cancel m hden, if_pos (by omega)]

/-- **Rounding to the nearest integer keeps the order.** -/
theorem nearest_mono (h : num ≤ num') : nearest num den ≤ nearest num' den := by
  rcases Nat.lt_or_eq_of_le (Nat.div_le_div_right h : num / den ≤ num' / den) with hlt | heq
  · -- the next integer is between the two
    have hle := (nearest_bounds num den).2
    have hge := (nearest_bounds num' den).1
    omega
  · have hmod : num % den ≤ num' % den := by
      have hnum := Nat.div_add_mod num den
      have hnum' := Nat.div_add_mod num' den
      rw [heq] at hnum
      omega
    simp only [nearest, heq]
    split_ifs <;> omega

/-! ### Significant bits -/

theorem significant_one (bits num : Nat) :
    significant bits num 1 =
      nearest num (2 ^ (num.log2 + 1 - bits)) * 2 ^ (num.log2 + 1 - bits) := by
  simp [significant]

theorem two_pow_split {e : Nat} (h : e ≤ k) : 2 ^ k = 2 ^ (k - e) * 2 ^ e := by
  rw [← Nat.pow_add, Nat.sub_add_cancel h]

/-- How many bits of a number below a power of two are cut off. -/
theorem excess_le (hbits : 0 < bits) (h : num < 2 ^ (bits + k)) : num.log2 + 1 - bits ≤ k := by
  rcases Nat.eq_zero_or_pos num with rfl | hpos
  · rw [Nat.log2_zero]
    omega
  · have hlog := (Nat.log2_lt (Nat.ne_of_gt hpos)).mpr h
    omega

/-- What is not above a number of so many significant bits is rounded to nothing above it. -/
theorem significant_le (hbits : 0 < bits) (hden : 0 < den) (hm : m < 2 ^ bits)
    (h : num ≤ m * 2 ^ k * den) : significant bits num den ≤ m * 2 ^ k := by
  have hquotient : num / den < 2 ^ (bits + k) := by
    rw [Nat.div_lt_iff_lt_mul hden]
    refine Nat.lt_of_le_of_lt h (Nat.mul_lt_mul_of_pos_right ?_ hden)
    rw [Nat.pow_add]
    exact Nat.mul_lt_mul_of_pos_right hm (Nat.two_pow_pos k)
  have hexcess := excess_le hbits hquotient
  simp only [significant]
  generalize (num / den).log2 + 1 - bits = e at hexcess
  -- the number is on the grid, at a multiple of the distance of its points
  have hgrid : m * 2 ^ k = m * 2 ^ (k - e) * 2 ^ e := by
    rw [Nat.mul_assoc, ← two_pow_split hexcess]
  rw [hgrid] at h ⊢
  refine Nat.mul_le_mul_right _ (nearest_le (Nat.mul_pos hden (Nat.two_pow_pos e)) ?_)
  calc num ≤ m * 2 ^ (k - e) * 2 ^ e * den := h
    _ = m * 2 ^ (k - e) * (den * 2 ^ e) := by rw [Nat.mul_assoc, Nat.mul_comm (2 ^ e)]

/-- What is not below a number of so many significant bits is rounded to nothing below it. -/
theorem le_significant (hbits : 0 < bits) (hden : 0 < den) (hm : m < 2 ^ bits)
    (h : m * 2 ^ k * den ≤ num) : m * 2 ^ k ≤ significant bits num den := by
  simp only [significant]
  rcases Nat.lt_or_ge k ((num / den).log2 + 1 - bits) with hlt | hge
  · -- the quotient has more bits than the number, and the first point of its grid is above
    have hquotient : num / den ≠ 0 := by
      intro hzero
      rw [hzero, Nat.log2_zero] at hlt
      omega
    obtain ⟨e, he⟩ : ∃ e, (num / den).log2 + 1 - bits = e := ⟨_, rfl⟩
    have hself : 2 ^ (bits - 1 + e) ≤ num / den := by
      rw [show bits - 1 + e = (num / den).log2 by omega]
      exact Nat.log2_self_le hquotient
    have hpoint : 2 ^ (bits - 1) ≤ nearest num (den * 2 ^ e) := by
      refine le_nearest (Nat.mul_pos hden (Nat.two_pow_pos e)) ?_
      rw [Nat.mul_comm den, ← Nat.mul_assoc, ← Nat.pow_add]
      exact (Nat.le_div_iff_mul_le hden).mp hself
    rw [he] at hlt ⊢
    calc m * 2 ^ k ≤ 2 ^ bits * 2 ^ k := Nat.mul_le_mul_right _ (Nat.le_of_lt hm)
      _ = 2 ^ (bits + k) := (Nat.pow_add 2 bits k).symm
      _ ≤ 2 ^ (bits - 1 + e) := Nat.pow_le_pow_right (by decide) (by omega)
      _ = 2 ^ (bits - 1) * 2 ^ e := Nat.pow_add 2 (bits - 1) e
      _ ≤ nearest num (den * 2 ^ e) * 2 ^ e := Nat.mul_le_mul_right _ hpoint
  · generalize (num / den).log2 + 1 - bits = e at hge
    have hgrid : m * 2 ^ k = m * 2 ^ (k - e) * 2 ^ e := by
      rw [Nat.mul_assoc, ← two_pow_split hge]
    rw [hgrid] at h ⊢
    refine Nat.mul_le_mul_right _ (le_nearest (Nat.mul_pos hden (Nat.two_pow_pos e)) ?_)
    calc m * 2 ^ (k - e) * (den * 2 ^ e) = m * 2 ^ (k - e) * 2 ^ e * den := by
          rw [Nat.mul_comm den, ← Nat.mul_assoc]
      _ ≤ num := h

/-- **Rounding to significant bits keeps the order.** -/
theorem significant_mono (hbits : 0 < bits) (h : num ≤ num') :
    significant bits num 1 ≤ significant bits num' 1 := by
  rcases Nat.lt_or_ge num.log2 num'.log2 with hlt | hge
  · -- a power of two lies between numbers of different lengths
    have hnum' : num' ≠ 0 := by
      rintro rfl
      exact absurd hlt (Nat.not_lt_zero _)
    have hpow : 2 ^ (num.log2 + 1) ≤ num' :=
      Nat.le_trans (Nat.pow_le_pow_right (by decide) hlt) (Nat.log2_self_le hnum')
    have hone : 1 < 2 ^ bits := Nat.one_lt_two_pow (Nat.ne_of_gt hbits)
    have hle : significant bits num 1 ≤ 1 * 2 ^ (num.log2 + 1) :=
      significant_le hbits Nat.one_pos hone
        (by rw [Nat.one_mul, Nat.mul_one]; exact Nat.le_of_lt Nat.lt_log2_self)
    exact Nat.le_trans hle
      (le_significant hbits Nat.one_pos hone (by rwa [Nat.one_mul, Nat.mul_one]))
  · have hlog : num.log2 = num'.log2 := by
      rcases Nat.eq_zero_or_pos num with rfl | hpos
      · rw [Nat.log2_zero] at hge ⊢
        omega
      · have hself := Nat.log2_self_le (Nat.ne_of_gt hpos)
        have hle := (Nat.le_log2 (by omega)).mpr (Nat.le_trans hself h)
        omega
    rw [significant_one, significant_one, hlog]
    exact Nat.mul_le_mul_right _ (nearest_mono h)

/-- A number of so many significant bits stays as it is. -/
theorem significant_eq (hbits : 0 < bits) (hm : m < 2 ^ bits) :
    significant bits (m * 2 ^ k) 1 = m * 2 ^ k :=
  Nat.le_antisymm (significant_le hbits Nat.one_pos hm (Nat.mul_one _).ge)
    (le_significant hbits Nat.one_pos hm (Nat.mul_one _).le)

/-- A short number stays as it is. -/
theorem significant_eq_self (hbits : 0 < bits) (h : num < 2 ^ bits) :
    significant bits num 1 = num := by
  have heq := significant_eq (k := 0) hbits h
  rwa [Nat.pow_zero, Nat.mul_one] at heq

/-- The nearest integer is no more than half a unit away. -/
theorem two_mul_nearest_le (num den : Nat) : 2 * (nearest num den * den) ≤ 2 * num + den := by
  have hdiv := Nat.div_add_mod num den
  rw [Nat.mul_comm den] at hdiv
  simp only [nearest]
  split_ifs with hbelow habove
  · omega
  · rw [Nat.add_mul, Nat.one_mul]
    omega
  · have hstep : (num / den + num / den % 2) * den ≤ (num / den + 1) * den :=
      Nat.mul_le_mul_right _ (by omega)
    rw [Nat.add_one_mul] at hstep
    omega

/-- **Rounding adds at most one part in `2 ^ bits`.** -/
theorem two_pow_mul_significant_le (hbits : 0 < bits) (num : Nat) :
    2 ^ bits * significant bits num 1 ≤ (2 ^ bits + 1) * num := by
  rcases Nat.lt_or_ge num (2 ^ bits) with hlt | hge
  · rw [significant_eq_self hbits hlt]
    exact Nat.mul_le_mul_right _ (Nat.le_succ _)
  · have hnum : num ≠ 0 := by
      have := Nat.two_pow_pos bits
      omega
    have hlog := (Nat.le_log2 hnum).mpr hge
    obtain ⟨e, he⟩ : ∃ e, num.log2 + 1 - bits = e := ⟨_, rfl⟩
    have hself : 2 ^ bits * 2 ^ e ≤ 2 * num := by
      calc 2 ^ bits * 2 ^ e = 2 * 2 ^ num.log2 := by
            rw [← Nat.pow_add, Nat.mul_comm, ← Nat.pow_succ]
            congr 1
            omega
        _ ≤ 2 * num := Nat.mul_le_mul_left 2 (Nat.log2_self_le hnum)
    have hnear := Nat.mul_le_mul_left (2 ^ bits) (two_mul_nearest_le num (2 ^ e))
    rw [significant_one, he]
    rw [Nat.mul_add, Nat.mul_left_comm, Nat.mul_left_comm _ 2 num] at hnear
    rw [Nat.add_mul, Nat.one_mul]
    omega

end Rounding

/-- **A larger capacity admits no fewer items.** -/
theorem LoadFactor.monotone_maxSize (f : LoadFactor) : Monotone f.maxSize := by
  intro capacity capacity' h
  have hbits : 0 < precision := by decide
  have hwide := Rounding.significant_mono hbits h
  have hproduct := Rounding.significant_mono hbits (Nat.mul_le_mul_right f.significand hwide)
  exact min_le_min (Nat.div_le_div_right hproduct) h

/-- Admitting more items takes a larger capacity. -/
theorem LoadFactor.lt_of_maxSize_lt (f : LoadFactor) {capacity capacity' : Nat}
    (h : f.maxSize capacity < f.maxSize capacity') : capacity < capacity' :=
  f.monotone_maxSize.reflect_lt h

/-! ### Slots for a length -/

namespace LoadFactor

variable (f : LoadFactor) {size capacity m k : Nat}

theorem significand_pos : 0 < f.significand := by
  have hpos : 0 < f.bits.toNat := f.pos
  rw [significand]
  split_ifs with hzero
  · rw [exponent] at hzero
    rw [fraction]
    omega
  · omega

theorem significand_lt : f.significand < 2 ^ precision := by
  have hfraction : f.fraction < 0x800000 := Nat.mod_lt _ (by decide)
  have hwidth : 0x1000000 < 2 ^ precision := by decide
  rw [significand]
  split_ifs <;> omega

/-- What a capacity admits, by its rounded product with the load factor. -/
theorem mul_le_of_le_maxSize (h : size ≤ f.maxSize capacity) :
    size * 2 ^ f.shift ≤ Rounding.significant precision
      (Rounding.significant precision capacity 1 * f.significand) 1 :=
  (Nat.le_div_iff_mul_le (Nat.two_pow_pos f.shift)).mp (Nat.le_trans h (Nat.min_le_left _ _))

/-- A quotient is not above a capacity when what it is rounded from is not above a number of few
enough bits that is below the next capacity. -/
theorem quotient_le_of_mul_le (hm : m < 2 ^ precision)
    (h : Rounding.significant precision size 1 * 2 ^ (f.shift + precision) ≤
      m * 2 ^ k * f.significand) (hlt : m * 2 ^ k < (capacity + 1) * 2 ^ precision) :
    f.quotient size ≤ capacity := by
  have hscaled := Rounding.significant_le (by decide) f.significand_pos hm h
  refine Nat.le_trans (Nat.min_le_left _ _) (Nat.le_of_lt_succ ?_)
  exact (Nat.div_lt_iff_lt_mul (Nat.two_pow_pos precision)).mpr (Nat.lt_of_le_of_lt hscaled hlt)

/-- The quotient of what a power of two admits is not above it: no rounding takes place. -/
theorem quotient_le_two_pow (h : size ≤ f.maxSize (2 ^ k)) : f.quotient size ≤ 2 ^ k := by
  have hbits : 0 < precision := by decide
  have hone : 1 < 2 ^ precision := by decide
  have hwide := Rounding.significant_eq (k := k) hbits hone
  rw [Nat.one_mul] at hwide
  have hsize := f.mul_le_of_le_maxSize h
  rw [hwide, Nat.mul_comm (2 ^ k), Rounding.significant_eq hbits f.significand_lt] at hsize
  have hrounded : Rounding.significant precision size 1 * 2 ^ f.shift ≤ f.significand * 2 ^ k := by
    rcases Nat.le_total f.shift k with hle | hle
    -- the product is an integer, of no more bits than the load factor
    · rw [Rounding.two_pow_split hle, ← Nat.mul_assoc] at hsize ⊢
      refine Nat.mul_le_mul_right _ (Rounding.significant_le hbits Nat.one_pos f.significand_lt ?_)
      rw [Nat.mul_one]
      exact Nat.le_of_mul_le_mul_right hsize (Nat.two_pow_pos f.shift)
    -- the length has no more bits than the load factor
    · have hshort : size ≤ f.significand := by
        refine Nat.le_of_mul_le_mul_right (Nat.le_trans hsize ?_) (Nat.two_pow_pos f.shift)
        exact Nat.mul_le_mul_left _ (Nat.pow_le_pow_right (by decide) hle)
      rwa [Rounding.significant_eq_self hbits (Nat.lt_of_le_of_lt hshort f.significand_lt)]
  refine f.quotient_le_of_mul_le (m := 1) (k := k + precision) hone ?_ ?_
  · calc Rounding.significant precision size 1 * 2 ^ (f.shift + precision)
        = Rounding.significant precision size 1 * 2 ^ f.shift * 2 ^ precision := by
          rw [Nat.pow_add, Nat.mul_assoc]
      _ ≤ f.significand * 2 ^ k * 2 ^ precision := Nat.mul_le_mul_right _ hrounded
      _ = 1 * 2 ^ (k + precision) * f.significand := by
          rw [Nat.one_mul, Nat.pow_add, Nat.mul_assoc, Nat.mul_comm]
  · rw [Nat.one_mul, Nat.pow_add]
    exact Nat.mul_lt_mul_of_pos_right (Nat.lt_succ_self _) (Nat.two_pow_pos precision)

/-- The quotient of what a capacity of fewer than 53 bits admits is not above it: the product is
rounded up by less than half a slot. -/
theorem quotient_le_of_lt (h : size ≤ f.maxSize capacity) (hlt : capacity < 2 ^ 52) :
    f.quotient size ≤ capacity := by
  have hbits : 0 < precision := by decide
  have hshort : capacity < 2 ^ precision := Nat.lt_trans hlt (by decide)
  have hsize : size ≤ capacity := Nat.le_trans h (Nat.min_le_right _ _)
  have hproduct := f.mul_le_of_le_maxSize h
  rw [Rounding.significant_eq_self hbits hshort] at hproduct
  refine f.quotient_le_of_mul_le (m := 2 * capacity + 1) (k := 52) ?_ ?_ ?_
  · simp only [precision] at hshort ⊢
    omega
  · rw [Rounding.significant_eq_self hbits (Nat.lt_of_le_of_lt hsize hshort)]
    calc size * 2 ^ (f.shift + precision) = 2 ^ precision * (size * 2 ^ f.shift) := by
          rw [Nat.pow_add, Nat.mul_comm (2 ^ precision), Nat.mul_assoc]
      _ ≤ 2 ^ precision * Rounding.significant precision (capacity * f.significand) 1 :=
          Nat.mul_le_mul_left _ hproduct
      _ ≤ (2 ^ precision + 1) * (capacity * f.significand) :=
          Rounding.two_pow_mul_significant_le hbits _
      _ = (2 ^ precision + 1) * capacity * f.significand := (Nat.mul_assoc ..).symm
      _ ≤ (2 * capacity + 1) * 2 ^ 52 * f.significand := by
          refine Nat.mul_le_mul_right _ ?_
          simp only [precision]
          omega
  · simp only [precision]
    omega

/-- The search for a slot count does not go beyond a capacity that admits the length. -/
theorem exists_firstAdmitting? {start : Nat} (h : size ≤ f.maxSize capacity)
    (hle : start ≤ capacity) (hlt : capacity < Word.bound) :
    ∃ slots ≤ capacity, f.firstAdmitting? size start = some slots := by
  fun_induction firstAdmitting? f size start with
  | case1 start hsmall hword ih =>
    refine ih (Nat.lt_of_le_of_ne hle ?_)
    rintro rfl
    exact absurd h (Nat.not_le_of_lt hsmall)
  | case2 start hsmall hword =>
    have hne : start ≠ capacity := by
      rintro rfl
      exact absurd h (Nat.not_le_of_lt hsmall)
    omega
  | case3 start hlarge => exact ⟨start, hle, rfl⟩

/-- **The slot count for a length is not above a capacity that admits it**, when the capacity is a
power of two or has fewer than 53 bits. -/
theorem exists_slotsFor? (h : size ≤ f.maxSize capacity) (hlt : capacity < Word.bound)
    (hcapacity : capacity.isPowerOfTwo ∨ capacity < 2 ^ 52) :
    ∃ slots ≤ capacity, f.slotsFor? size = some slots := by
  rw [slotsFor?]
  split_ifs with hzero
  · exact ⟨0, Nat.zero_le _, rfl⟩
  · refine f.exists_firstAdmitting? h ?_ hlt
    rcases hcapacity with ⟨k, rfl⟩ | hshort
    · exact f.quotient_le_two_pow h
    · exact f.quotient_le_of_lt h hshort

end LoadFactor

end ProbeWindow
