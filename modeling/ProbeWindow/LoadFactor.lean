import ProbeWindow.Layout

/-!
# Load factors

A **load factor** is a single-precision number in `(0, 1]`. It bounds how many items a capacity
admits (`maxSize`), and conversely fixes how many slots so many items need (`slotsFor?`). Both
are computed as double-precision arithmetic would: the capacity or length is rounded to 53
significant bits, then the product or quotient is, and the result is truncated. The definitions
below do this on natural numbers, where a load factor is `significand / 2 ^ shift`.

Exact quotients are rounded with halves to the even neighbour, on two grids: the integers, and the
numbers with a bounded count of significant bits. Both are computed on natural numbers, so every
rounded value is exact and can be reasoned about.
-/

namespace ProbeWindow

/-! ### Rounding -/

namespace Rounding

/-- The integer nearest to `num / den`; of two equally near ones the even one. -/
def nearest (num den : Nat) : Nat :=
  let q := num / den
  let r := num % den
  if 2 * r < den then q else if den < 2 * r then q + 1 else q + q % 2

/-- The quotient `num / den` rounded to so many significant bits. A quotient whose integer part
needs fewer bits is rounded to an integer instead, so a caller scales its quotient up by a power
of two before, and back after, when fractional bits matter. -/
def significant (bits num den : Nat) : Nat :=
  let excess := (num / den).log2 + 1 - bits
  nearest num (den * Nat.pow 2 excess) * Nat.pow 2 excess

end Rounding

/-! ### Factors -/

/-- A single-precision number in `(0, 1]`, by its bits: positive single-precision numbers are
ordered as their bits are. -/
structure LoadFactor where
  /-- The bits: one for the sign, eight for the exponent, 23 for the fraction. -/
  bits : UInt32
  /-- The number is positive. -/
  pos : 0 < bits
  /-- The number is at most one. -/
  le_one : bits ≤ 0x3F800000
deriving DecidableEq

namespace LoadFactor

/-- The load factor with the given bits, if they stand for a number in `(0, 1]`. -/
def ofBits? (bits : UInt32) : Option LoadFactor :=
  if h : 0 < bits ∧ bits ≤ 0x3F800000 then some ⟨bits, h.1, h.2⟩ else none

/-- Seven eighths, the load factor of a new table. -/
def sevenEighths : LoadFactor := ⟨0x3F600000, by decide, by decide⟩

variable (f : LoadFactor)

/-- The biased exponent. -/
def exponent : Nat := f.bits.toNat / 0x800000

/-- The fraction bits. -/
def fraction : Nat := f.bits.toNat % 0x800000

/-- The significand: numbers with exponent zero have no leading one. -/
def significand : Nat := if f.exponent = 0 then f.fraction else 0x800000 + f.fraction

/-- The load factor is `significand / 2 ^ shift`. -/
def shift : Nat := if f.exponent = 0 then 149 else 150 - f.exponent

/-- The number of significant bits of the arithmetic. -/
abbrev precision : Nat := 53

/-- The largest number of items that a capacity admits. -/
def maxSize (capacity : Nat) : Nat :=
  let wide := Rounding.significant precision capacity 1
  let product := Rounding.significant precision (wide * f.significand) 1
  min (product / Nat.pow 2 f.shift) capacity

/-- The quotient of a length by the load factor, truncated to a word. -/
def quotient (size : Nat) : Nat :=
  let wide := Rounding.significant precision size 1
  let scaled := Rounding.significant precision (wide * Nat.pow 2 (f.shift + precision)) f.significand
  min (scaled / Nat.pow 2 precision) (Word.bound - 1)

/-- The first slot count from a given one on that admits a length, if a word holds one. -/
def firstAdmitting? (size slots : Nat) : Option Nat :=
  if f.maxSize slots < size then
    if slots + 1 < Word.bound then firstAdmitting? size (slots + 1) else none
  else
    some slots
termination_by Word.bound - slots

/-- A slot count that admits a length: the quotient, or the first one after it that does. -/
def slotsFor? (size : Nat) : Option Nat :=
  if size = 0 then some 0 else f.firstAdmitting? size (f.quotient size)

end LoadFactor

end ProbeWindow
