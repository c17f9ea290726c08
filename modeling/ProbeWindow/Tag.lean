/-!
# Slot tags

Every slot carries one byte beside its item, the **tag**:

* bit 0 is set when the slot is occupied;
* bits 1 to 3 hold the *fragment*, three bits of the key's hash, which reject most other keys
  without comparing them;
* bits 4 to 7 hold the *offset*, the distance of the slot from the home of its key.

An empty slot is all zeroes. The sentinels behind the last slot look occupied with offset 0 and
fragment 0: a lane `k ≥ 1` of a window never expects offset 0, so a sentinel never matches a
probe, never looks empty, ends a backward shift and ends an iteration.
-/

namespace ProbeWindow

/-- The number of slots a lookup reads: the window of a home is the home and the slots behind
it, this many in all. -/
abbrev windowWidth : Nat := 16

/-- The largest distance of an item from its home. -/
abbrev maxOffset : Nat := windowWidth - 1

/-- The byte beside a slot. -/
structure Tag where
  /-- The byte itself. -/
  byte : UInt8
deriving DecidableEq, Repr, Inhabited

namespace Tag

/-- The tag of an empty slot. -/
def empty : Tag := ⟨0⟩

/-- The tag behind the last slot. -/
def sentinel : Tag := ⟨1⟩

/-- The fragment of a hash: its top three bits, independent of the low bits that choose a
slot. -/
def fragmentOf (hash : UInt64) : UInt8 := (hash >>> 61).toUInt8

/-- The tag of an item with the given fragment, so many slots behind its home. -/
def encode (fragment : UInt8) (offset : Nat) : Tag :=
  ⟨(1 : UInt8) ||| (fragment <<< 1) ||| (offset.toUInt8 <<< 4)⟩

variable (t : Tag)

/-- Whether the slot holds an item. A sentinel counts as occupied. -/
def isOccupied : Bool := t.byte &&& 1 != 0

/-- The recorded distance from home. -/
def offset : Nat := (t.byte >>> 4).toNat

/-- The recorded fragment. -/
def fragment : UInt8 := (t.byte >>> 1) &&& 7

/-- The tag of the same item one slot further from home. -/
def pushed : Tag := ⟨t.byte + 16⟩

/-- The tag of the same item one slot closer to home. -/
def pulled : Tag := ⟨t.byte - 16⟩

theorem not_isOccupied_empty : empty.isOccupied = false := rfl

end Tag

end ProbeWindow
