import ProbeWindow.Layout

/-!
# Failures

Two kinds of failure are told apart. A **reserve error** is an answer of `tryReserve`, the one
operation that reports memory trouble to its caller. A **fault** ends a call: the operation stops
where it is and leaves the table as it stands at that point. The wording of both is in one
function each.
-/

namespace ProbeWindow

/-- Why memory for more items could not be reserved. -/
inductive ReserveError where
  /-- The capacity or the size of its block is out of range. -/
  | capacityOverflow
  /-- The allocator refused the block. -/
  | refused (layout : Layout)
deriving DecidableEq, Repr

/-- The text of a reserve error. -/
def ReserveError.message : ReserveError → String
  | .capacityOverflow =>
    "memory allocation failed because the computed capacity exceeded the collection's maximum"
  | .refused layout =>
    "memory allocation failed because the memory allocator returned an error for " ++
      s!"{layout.size} bytes aligned to {layout.align}"

/-- Why a call ended early. -/
inductive Fault where
  /-- A capacity is out of range. -/
  | capacityOverflow
  /-- The growth policy is not willing to grow that far. -/
  | growthLimit
  /-- The allocator refused a block that the call cannot do without. Nobody can catch this fault: it
  ends the program, and with it the table that the call leaves. -/
  | outOfMemory (layout : Layout)
  /-- A load factor, given by its text, lies outside of `(0, 1]`. -/
  | loadFactorRange (text : String)
  /-- A vacant entry was filled with an item whose mixed hash differs from the entry's. -/
  | wrongVacantKey (itemHash entryHash : UInt64)
  /-- An item was made under a key that differs from the one looked up. -/
  | notEquivalent
  /-- A map was indexed with a key that it does not hold. -/
  | keyNotFound
  /-- A function of the caller ended with the given message. -/
  | raised (message : String)
deriving DecidableEq, Repr

/-- The text of a fault. -/
def Fault.message : Fault → String
  | .capacityOverflow => "capacity overflow"
  | .growthLimit => "growth limit"
  | .outOfMemory layout => s!"memory allocation of {layout.size} bytes failed"
  | .loadFactorRange text => s!"max load factor must be in (0, 1], got {text}"
  | .wrongVacantKey itemHash entryHash =>
    "assertion \x60left == right\x60 failed: vacant entry filled with a different key\n" ++
      s!"  left: {itemHash.toNat}\n right: {entryHash.toNat}"
  | .notEquivalent => "new item is not equivalent to the lookup key"
  | .keyNotFound => "key not found in HashMap"
  | .raised message => message

/-- The fault of a call that has no other way to report a reserve error. -/
def ReserveError.toFault : ReserveError → Fault
  | .capacityOverflow => .capacityOverflow
  | .refused layout => .outOfMemory layout

end ProbeWindow
