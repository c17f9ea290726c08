import ProbeWindow.Decimal
import ProbeWindow.Table

/-!
# Statistics

How far items are from their homes, and how full a table is. The numbers are exact counts;
shares, means and load factors are floating-point numbers and serve for reports only.
-/

namespace ProbeWindow

universe u v

/-- How many items are at each distance from their home. -/
structure ProbeHistogram where
  /-- The number of items at distance 0, 1, … -/
  counts : List Nat
deriving DecidableEq, Repr

namespace ProbeHistogram

variable (h : ProbeHistogram)

/-- The number of items. -/
def total : Nat := h.counts.foldr (· + ·) 0

/-- The sum of the distances. -/
def weighted : Nat := (h.counts.zipIdx.map fun (count, offset) ↦ offset * count).foldr (· + ·) 0

/-- The mean distance. -/
def mean : Float :=
  if h.total = 0 then 0.0 else h.weighted.toUInt64.toFloat / h.total.toUInt64.toFloat

/-- The line of one distance: its count, its share in percent and a bar with a mark for every two
percent begun. -/
def line (offset count : Nat) : String :=
  let share := count.toUInt64.toFloat / (max h.total 1).toUInt64.toFloat
  let bar := "".pushn '#' (share * 50.0).ceil.toUInt64.toNat
  Text.padLeft 2 (toString offset) ++ ": " ++ Text.padLeft 8 (toString count) ++ " (" ++
    Text.padLeft 6 (Decimal.fixedPlaces 2 (share * 100.0)) ++ "%) " ++ bar ++ "\n"

/-- The report of a histogram. -/
def report : String :=
  let lines := h.counts.zipIdx.filterMap fun (count, offset) ↦
    if count = 0 then none else some (h.line offset count)
  "=== Displacement Histogram ===\n" ++ String.join lines ++
    "mean displacement: " ++ Decimal.fixedPlaces 3 h.mean ++ "\n"

end ProbeHistogram

/-- The size and the memory of a table. -/
structure TableStats where
  /-- The number of items. -/
  size : Nat
  /-- The number of homes. -/
  capacity : Nat
  /-- The largest number of items before the table grows. -/
  maxSize : Nat
  /-- The ratio of items to homes. -/
  loadFactor : Float
  /-- The bytes of the slot block. -/
  totalBytes : Nat
  /-- The bytes of items outside of the slots. -/
  itemBytes : Nat
  /-- Whether the next insertion grows the table. -/
  rehashPending : Bool

namespace TableStats

/-- The report of the statistics of a table. -/
def report (s : TableStats) : String :=
  let percent := Decimal.fixedPlaces 2 (s.loadFactor * 100.0)
  "=== Hash Table Debug Statistics ===\n" ++
    s!"Population: {s.size}/{s.capacity} slots ({percent}% load factor, grows past {s.maxSize})\n" ++
    s!"Slot allocation: {s.totalBytes} bytes\n" ++
    s!"Item allocations: {s.itemBytes} bytes\n" ++
    s!"Rehash pending: {s.rehashPending}\n"

end TableStats

namespace SlotArray

variable {α : Type u} (s : SlotArray α)

/-- The recorded offsets of the occupied slots, in slot order. -/
def offsets : List Nat :=
  (s.tags.toList.take s.slotCount).filterMap fun tag ↦
    if tag.isOccupied then some tag.offset else none

end SlotArray

namespace Table

variable {α : Type u} {κ : Type v} [BEq κ] {key : α → κ} (t : Table key)

/-- The ratio of items to homes; zero for a table without slots. -/
def loadFactor : Float32 :=
  if t.capacity = 0 then 0.0 else t.size.toUInt64.toFloat32 / t.capacity.toUInt64.toFloat32

/-- How far the items are from their homes. -/
def probeHistogram : ProbeHistogram :=
  let offsets := t.slots.offsets
  ⟨(List.range windowWidth).map fun offset ↦ offsets.count offset⟩

/-- The bytes of the slot block. -/
def totalBytes : Nat :=
  if t.capacity = 0 then
    0
  else
    ((Layout.slotBlock? t.setup.storage.slot t.capacity).map Layout.size).getD 0

/-- The size and the memory of the table. -/
def stats : TableStats where
  size := t.size
  capacity := t.capacity
  maxSize := t.maxSize
  loadFactor := t.loadFactor.toFloat
  totalBytes := t.totalBytes
  itemBytes := t.setup.storage.itemBytes t.size
  rehashPending := t.rehashPending

end Table

end ProbeWindow
