import ProbeWindow.Tag

/-!
# Machine words and the layout of the slot block

Sizes, capacities and lengths are natural numbers; the 64-bit range enters only where a
computation can leave it. The checked operations on words return `none` exactly there, so no
wrapped intermediate value exists anywhere in the library.

A table keeps its slots and their tags in one block of memory. A **layout** is the size and the
alignment of such a block. Layouts are combined by checked steps, as an allocator would be asked
for them: an array of elements, one layout behind another, and the final padding. A step fails
when the block would exceed the largest size that its alignment permits.
-/

namespace ProbeWindow

/-! ### Words -/

namespace Word

/-- The first natural number that a 64-bit word cannot hold. -/
abbrev bound : Nat := 0x10000000000000000

/-- The sum of two words, when a word holds it. -/
def add? (a b : Nat) : Option Nat :=
  if a + b < bound then some (a + b) else none

/-- The product of two words, when a word holds it. -/
def mul? (a b : Nat) : Option Nat :=
  if a * b < bound then some (a * b) else none

theorem add?_eq_some_iff {a b c : Nat} : add? a b = some c ↔ a + b < bound ∧ a + b = c := by
  simp [add?]

theorem mul?_eq_some_iff {a b c : Nat} : mul? a b = some c ↔ a * b < bound ∧ a * b = c := by
  simp [mul?]

end Word

/-! ### Layouts -/

/-- The size and the alignment of a block of memory, in bytes. -/
structure Layout where
  /-- The number of bytes. -/
  size : Nat
  /-- A power of two that divides the block's address. -/
  align : Nat
deriving DecidableEq, Repr, Inhabited

namespace Layout

/-- The largest size of a block with the given alignment: rounded up to that alignment, a block
stays within half of the address space. -/
def sizeBound (align : Nat) : Nat := 0x8000000000000000 - align

/-- The layout of `count` elements in a row. -/
def array? (element : Layout) (count : Nat) : Option Layout :=
  if element.size * count ≤ sizeBound element.align then
    some ⟨element.size * count, element.align⟩
  else
    none

/-- A size rounded up to a multiple of an alignment. -/
def roundUp (size align : Nat) : Nat := (size + align - 1) / align * align

/-- One layout behind another, with the gap that the second one's alignment needs. -/
def extend? (first second : Layout) : Option Layout := do
  let align := max first.align second.align
  let size ← Word.add? (roundUp first.size second.align) second.size
  if size ≤ sizeBound align then some ⟨size, align⟩ else none

/-- The layout with its size rounded up to its alignment. -/
def padToAlign (block : Layout) : Layout := ⟨roundUp block.size block.align, block.align⟩

/-- The layout of the tags of so many slots, the sentinels among them. -/
def tags? (slots : Nat) : Option Layout := do
  array? ⟨1, 1⟩ (← Word.add? slots windowWidth)

/-- The block of a table of the given capacity: a slot for every home, the overflow slots that
complete the last window, then one tag for each slot and the sentinels. -/
def slotBlock? (slot : Layout) (capacity : Nat) : Option Layout := do
  let slots ← Word.add? capacity maxOffset
  let block ← (← slot.array? slots).extend? (← tags? slots)
  return block.padToAlign

end Layout

end ProbeWindow
