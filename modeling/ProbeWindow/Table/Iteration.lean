import ProbeWindow.SlotArray.Cursor
import ProbeWindow.Table.Reservation

/-!
# Iteration

Three ways to go through the items, all in slot order: a borrowing walk with a cursor, a walk
that changes each item as it yields it, and a draining walk that takes the items out.

A draining walk removes each item by a backward shift and looks at the same slot again, so the
table is in order between any two steps, and a walk that is abandoned leaves a table with the
remaining items.
-/

namespace ProbeWindow

universe u v

namespace Table

variable {α : Type u} {κ : Type v} [BEq κ] {key : α → κ} (t : Table key)

/-- The start of a walk over the items. -/
def cursor : Cursor := .start t.size

/-- Up to so many next items of a walk, and the cursor behind them. -/
def walk (n : Nat) (c : Cursor) : List α × Cursor :=
  let (indices, c) := c.take t.slots n
  (indices.filterMap t.slots.item?, c)

/-- The table with a function applied to the items of some slots, and these items after it. -/
def updateEach (f : α → α) (indices : List Nat) : Table key × List α :=
  let (t, items) := indices.foldl (fun (t, items) index ↦
    match t.slots.occupant? index with
    | none => (t, items)
    | some o =>
      let (t, item) := t.update o f
      (t, item :: items)) (t, [])
  (t, items.reverse)

/-- Up to so many items of a walk that applies a function to each item it yields, the cursor
behind them, and the table afterwards. -/
def walkUpdating (f : α → α) (n : Nat) : Table key × List α × Cursor :=
  let (indices, c) := t.cursor.take t.slots n
  let (t, items) := t.updateEach f indices
  (t, items, c)

end Table

/-- A walk that takes the items out of a table. -/
structure Drain {α : Type u} {κ : Type v} [BEq κ] (key : α → κ) where
  /-- The table with the items that are still to come. -/
  table : Table key
  /-- The slot where the walk goes on. -/
  index : Nat

namespace Drain

variable {α : Type u} {κ : Type v} [BEq κ] {key : α → κ}

/-- The start of a draining walk. -/
def start (t : Table key) : Drain key := ⟨t, 0⟩

/-- The first occupied slot from an index on, if there is one. -/
def nextOccupied? (slots : SlotArray α) (index : Nat) : Option (Occupant α) :=
  if index < slots.slotCount then
    (slots.occupant? index).or (nextOccupied? slots (index + 1))
  else
    none
termination_by slots.slotCount - index

/-- The next item, taken out of the table, and the walk behind it. -/
def next (d : Drain key) : Option α × Drain key :=
  if d.table.size = 0 then
    (none, d)
  else
    match nextOccupied? d.table.slots d.index with
    | none => (none, { d with index := d.table.slots.slotCount })
    | some o => (some o.item, ⟨d.table.eraseAt o.index, o.index⟩)

/-- Up to so many next items, taken out of the table, and the walk behind them. -/
def take : Nat → Drain key → List α × Drain key
  | 0, d => ([], d)
  | n + 1, d =>
    match d.next with
    | (none, d) => ([], d)
    | (some item, d) =>
      let (rest, d) := take n d
      (item :: rest, d)

variable (d : Drain key)

/-- What is known about the number of items to come: it is exact. -/
def sizeHint : Nat × Option Nat := (d.table.size, some d.table.size)

/-- The table after a walk that is given up properly: the items that were still to come are
gone, and nothing is pending. -/
def finish : Table key :=
  let (_, d) := take d.table.size d
  { d.table with rehashPending := false }

/-- The table after a walk that is abandoned: it holds the items that were still to come. -/
def leak : Table key := d.table

end Drain

end ProbeWindow
