import ProbeWindow.Layout
import Mathlib.Order.Bounds.Basic

/-!
# The size of a slot block

A block is asked for in checked steps: the slots are counted, laid out in a row, put before their
tags, and the whole is padded. Each step is checked against a range of its own, but together they
are one inequality between numbers without a range (`slotBlock?_eq`): the bytes of the slots and of
the tags (`blockBytes`) do not exceed the largest size that the alignment permits. The sums on the
way need no check of their own, since they are parts of that one.

The size of the block is this number of bytes, rounded up to the alignment. It is in range with the
bytes, because the largest size is itself a multiple of a power of two (`roundUp_le_sizeBound`).
-/

namespace ProbeWindow.Layout

variable {slot block : Layout} {capacity align size limit : Nat}

/-! ### Rounding up -/

theorem dvd_roundUp (size align : Nat) : align ∣ roundUp size align := Nat.dvd_mul_left ..

theorem le_roundUp (h : 0 < align) : size ≤ roundUp size align := by
  have hlt : size + align - 1 < (size + align - 1) / align * align + align :=
    Nat.lt_div_mul_add h
  rw [roundUp]
  omega

theorem roundUp_le (h : 0 < align) (hdvd : align ∣ limit) (hle : size ≤ limit) :
    roundUp size align ≤ limit := by
  obtain ⟨n, rfl⟩ := hdvd
  have hlt : size + align - 1 < (n + 1) * align := by
    rw [Nat.succ_mul, Nat.mul_comm n align]
    omega
  calc roundUp size align ≤ n * align :=
        Nat.mul_le_mul_right align (Nat.le_of_lt_succ (Nat.div_lt_of_lt_mul (Nat.mul_comm .. ▸ hlt)))
    _ = align * n := Nat.mul_comm ..

/-- **Rounding up is to the least multiple** that is not smaller. -/
theorem isLeast_roundUp (h : 0 < align) (size : Nat) :
    IsLeast {n | align ∣ n ∧ size ≤ n} (roundUp size align) :=
  ⟨⟨dvd_roundUp size align, le_roundUp h⟩, fun _ hn ↦ roundUp_le h hn.1 hn.2⟩

/-- What is in range is in range when it is rounded up to a power of two. -/
theorem roundUp_le_sizeBound (h : align.isPowerOfTwo) (hpos : 0 < size)
    (hle : size ≤ sizeBound align) : roundUp size align ≤ sizeBound align := by
  obtain ⟨k, rfl⟩ := h
  -- a larger power of two leaves no range at all
  have hk : k ≤ 63 := by
    by_contra hlt
    have hpow : 2 ^ 63 ≤ 2 ^ k := Nat.pow_le_pow_right Nat.two_pos (Nat.le_of_not_le hlt)
    have hempty : sizeBound (2 ^ k) = 0 := Nat.sub_eq_zero_of_le hpow
    exact Nat.not_lt.mpr (hempty ▸ hle) hpos
  have hdvd : 2 ^ k ∣ sizeBound (2 ^ k) :=
    Nat.dvd_sub (Nat.pow_dvd_pow 2 hk : 2 ^ k ∣ 2 ^ 63) (Nat.dvd_refl _)
  exact roundUp_le (Nat.two_pow_pos k) hdvd hle

/-! ### The block -/

/-- The bytes of the slots for a capacity. -/
def slotBytes (slot : Layout) (capacity : Nat) : Nat := (capacity + maxOffset) * slot.size

/-- The bytes of the slots and of their tags, the sentinels among them. -/
def blockBytes (slot : Layout) (capacity : Nat) : Nat :=
  slotBytes slot capacity + (capacity + maxOffset) + windowWidth

/-- Sizes in range fit a word, with room to spare. -/
theorem sizeBound_lt (align : Nat) : sizeBound align < Word.bound :=
  Nat.lt_of_le_of_lt (Nat.sub_le ..) (by decide)

/-! ### The steps -/

theorem array?_eq_some_iff {count : Nat} : slot.array? count = some block ↔
    slot.size * count ≤ sizeBound slot.align ∧ ⟨slot.size * count, slot.align⟩ = block := by
  simp [array?]

/-- Tags that are in range are numbered by words. -/
theorem tags?_eq_some_iff {slots : Nat} : tags? slots = some block ↔
    slots + windowWidth ≤ sizeBound 1 ∧ ⟨slots + windowWidth, 1⟩ = block := by
  simp only [tags?, Option.bind_eq_bind, Option.bind_eq_some_iff, Word.add?_eq_some_iff,
    array?_eq_some_iff, Nat.one_mul]
  constructor
  · rintro ⟨count, ⟨-, rfl⟩, h⟩
    exact h
  · intro h
    exact ⟨_, ⟨Nat.lt_of_le_of_lt h.1 (sizeBound_lt 1), rfl⟩, h⟩

theorem roundUp_one (size : Nat) : roundUp size 1 = size := by
  rw [roundUp, Nat.add_sub_cancel, Nat.div_one, Nat.mul_one]

/-- Bytes go behind slots without a gap. -/
theorem extend?_bytes_eq_some_iff {row : Nat} (halign : 0 < align) :
    (⟨row, align⟩ : Layout).extend? ⟨size, 1⟩ = some block ↔
      row + size ≤ sizeBound align ∧ ⟨row + size, align⟩ = block := by
  have hmax : max align 1 = align := Nat.max_eq_left halign
  simp only [extend?, Option.bind_eq_bind, Option.bind_eq_some_iff, Word.add?_eq_some_iff,
    roundUp_one, hmax, Option.ite_none_right_eq_some, Option.some.injEq]
  constructor
  · rintro ⟨sum, ⟨-, rfl⟩, h⟩
    exact h
  · intro h
    exact ⟨_, ⟨Nat.lt_of_le_of_lt h.1 (sizeBound_lt align), rfl⟩, h⟩

/-- **A block is in range when its bytes are**, and its size is their number rounded up. -/
theorem slotBlock?_eq_some_iff (halign : 0 < slot.align) : slotBlock? slot capacity = some block ↔
    blockBytes slot capacity ≤ sizeBound slot.align ∧
      ⟨roundUp (blockBytes slot capacity) slot.align, slot.align⟩ = block := by
  have hbytes : slot.size * (capacity + maxOffset) + (capacity + maxOffset + windowWidth) =
      blockBytes slot capacity := by
    rw [blockBytes, slotBytes, Nat.mul_comm, ← Nat.add_assoc]
  simp only [slotBlock?, Option.bind_eq_bind, Option.bind_eq_some_iff, Word.add?_eq_some_iff,
    array?_eq_some_iff, tags?_eq_some_iff, Option.pure_def, Option.some.injEq]
  constructor
  · rintro ⟨slots, ⟨-, rfl⟩, row, ⟨-, rfl⟩, tags, ⟨-, rfl⟩, sum, hsum, rfl⟩
    obtain ⟨hle, rfl⟩ := (extend?_bytes_eq_some_iff halign).mp hsum
    rw [← hbytes]
    exact ⟨hle, rfl⟩
  · rintro ⟨hle, rfl⟩
    rw [← hbytes] at hle ⊢
    -- every number on the way is a part of the sum that is in range
    have hrow : slot.size * (capacity + maxOffset) ≤ sizeBound slot.align :=
      Nat.le_trans (Nat.le_add_right ..) hle
    have htags : capacity + maxOffset + windowWidth ≤ sizeBound slot.align :=
      Nat.le_trans (Nat.le_add_left ..) hle
    have hslots : capacity + maxOffset < Word.bound :=
      Nat.lt_of_le_of_lt (Nat.le_trans (Nat.le_add_right ..) htags) (sizeBound_lt slot.align)
    have hanti : sizeBound slot.align ≤ sizeBound 1 := Nat.sub_le_sub_left halign _
    have hsum := (extend?_bytes_eq_some_iff halign).mpr ⟨hle, rfl⟩
    exact ⟨_, ⟨hslots, rfl⟩, _, ⟨hrow, rfl⟩, _, ⟨Nat.le_trans htags hanti, rfl⟩, _, hsum, rfl⟩

/-- **A block is out of range** when the slots are too many for a word, or the bytes of the slots or
of the slots and tags exceed the largest size. Each of these implies the last one. -/
theorem slotBlock?_eq_none_iff (halign : 0 < slot.align) : slotBlock? slot capacity = none ↔
    Word.bound ≤ capacity + maxOffset ∨ sizeBound slot.align < slotBytes slot capacity ∨
      sizeBound slot.align < blockBytes slot capacity := by
  have hlt := sizeBound_lt slot.align
  have hiff : slotBlock? slot capacity = none ↔
      sizeBound slot.align < blockBytes slot capacity := by
    rw [Option.eq_none_iff_forall_ne_some]
    constructor
    · intro hnone
      by_contra hle
      exact hnone _ ((slotBlock?_eq_some_iff halign).mpr ⟨Nat.le_of_not_lt hle, rfl⟩)
    · intro hlarge block hblock
      exact Nat.not_le.mpr hlarge ((slotBlock?_eq_some_iff halign).mp hblock).1
  rw [hiff, blockBytes]
  omega

/-- **The size of a block** is the number of bytes of its slots and tags, rounded up, and in range
with it. -/
theorem isLeast_of_slotBlock? (halign : slot.align.isPowerOfTwo)
    (h : slotBlock? slot capacity = some block) :
    block.align = slot.align ∧
      IsLeast {n | slot.align ∣ n ∧ blockBytes slot capacity ≤ n} block.size ∧
        block.size ≤ sizeBound slot.align := by
  have hpos : 0 < slot.align := Nat.pos_of_isPowerOfTwo halign
  obtain ⟨hle, rfl⟩ := (slotBlock?_eq_some_iff hpos).mp h
  have hbytes : 0 < blockBytes slot capacity := Nat.lt_of_lt_of_le (by decide) (Nat.le_add_left ..)
  exact ⟨rfl, isLeast_roundUp hpos _, roundUp_le_sizeBound halign hbytes hle⟩

end ProbeWindow.Layout
