import ProbeWindow.LoadFactor
import ProbeWindow.Outcome
import ProbeWindow.Setup
import ProbeWindow.SlotArray.Removal
import ProbeWindow.SlotArray.Window

/-!
# Tables

A **table** holds items by their keys. It is generic in the function that reads an item's key:
a map is a table of pairs keyed by their first component, a set a table of items keyed by
themselves.

This module has the table itself, the questions that can be asked of it, and the operations that
never resize. A change to an item in place is a function applied to it; it must leave the item's
key equal to what it was. A removal moves the items behind it back, so that there is no gap on the
way from a home to its items; clearing a table empties slot after slot and moves nothing, so there
are gaps until it is done.
-/

namespace ProbeWindow

universe u v

/-- A hash table whose items are keyed by the function `key`. -/
structure Table {α : Type u} {κ : Type v} [BEq κ] (key : α → κ) where
  /-- The slots. -/
  slots : SlotArray α
  /-- The number of items. -/
  size : Nat
  /-- The load above which the table grows. -/
  maxLoad : LoadFactor
  /-- Set when an insertion found its window full; the next insertion grows first. -/
  rehashPending : Bool
  /-- What the table was made with. -/
  setup : Setup κ

namespace Table

variable {α : Type u} {κ : Type v} [BEq κ] {key : α → κ}

/-- An empty table. It has no slots until the first insertion. -/
def empty (key : α → κ) (setup : Setup κ) : Table key where
  slots := .unallocated
  size := 0
  maxLoad := .sevenEighths
  rehashPending := false
  setup := setup

variable (t : Table key)

/-- The number of homes. -/
def capacity : Nat := t.slots.capacity

/-- Whether the table holds no items. -/
def isEmpty : Bool := t.size == 0

/-- The items in slot order. -/
def toList : List α := t.slots.toList

/-- The largest number of items before the table grows. -/
def maxSize : Nat := t.maxLoad.maxSize t.capacity

/-- The home of a mixed hash. -/
def home (hash : UInt64) : Nat := t.setup.policy.index hash t.capacity

/-- The table with its blocks taken from another allocator from now on. -/
def withAllocator (allocator : Allocator) : Table key :=
  { t with setup := { t.setup with allocator := allocator } }

/-! ### Look-up -/

/-- The item with the given key and mixed hash. -/
def locate? (hash : UInt64) (k : κ) : Option (Occupant α) :=
  if t.size = 0 then
    none
  else
    t.slots.search? (t.home hash) (Tag.fragmentOf hash) fun item ↦ key item == k

/-- The item with the given key, and its slot. -/
def occupant? (k : κ) : Option (Occupant α) := t.locate? (t.setup.hash k) k

/-- The item with the given key. -/
def find? (k : κ) : Option α := (t.occupant? k).map Occupant.item

/-- Whether the table holds an item with the given key. -/
def contains (k : κ) : Bool := (t.occupant? k).isSome

/-- How many of the given keys the table holds. -/
def countPresent (ks : List κ) : Nat := ks.countP t.contains

/-! ### Change in place -/

/-- The table with a function applied to an item, and the item after it. -/
def update (o : Occupant α) (f : α → α) : Table key × α :=
  let item := f o.item
  ({ t with slots := t.slots.setItem o.index item }, item)

/-- The table with a function applied to the item with the given key, and that item. -/
def modify (k : κ) (f : α → α) : Table key × Option α :=
  match t.occupant? k with
  | none => (t, none)
  | some o =>
    let (t, item) := t.update o f
    (t, some item)

/-! ### Removal -/

/-- The table without the item of a slot. -/
def eraseAt (index : Nat) : Table key :=
  { t with slots := t.slots.erase index, size := t.size - 1 }

/-- The table without the item with the given key, and that item. -/
def erase (k : κ) : Table key × Option α :=
  match t.occupant? k with
  | none => (t, none)
  | some o => (t.eraseAt o.index, some o.item)

/-- The table without the items of the given keys, and how many there were. -/
def eraseEach (ks : List κ) : Table key × Nat :=
  ks.foldl (fun (t, count) k ↦
    match t.erase k with
    | (t, none) => (t, count)
    | (t, some _) => (t, count + 1)) (t, 0)

/-! ### Clearing -/

/-- The table with a slot emptied. Nothing moves, so what follows in the slots may be cut off from
its home. -/
def vacateAt (index : Nat) : Table key :=
  { t with slots := t.slots.vacate index, size := t.size - 1 }

/-- Empties some slots, one after the other, and destroys their items. A slot is empty before its
item is destroyed; an item that cannot be destroyed ends this. -/
def destroyEach (destroy : α → Except Fault Unit) : List Nat → Table key → Outcome (Table key) Unit
  | [], t => .done t ()
  | index :: indices, t =>
    match t.slots.item? index with
    | none => destroyEach destroy indices t
    | some item =>
      match destroy item with
      | .error fault => .fail (t.vacateAt index) fault
      | .ok () => destroyEach destroy indices (t.vacateAt index)

/-- Takes the items out and destroys them, in slot order. The slots are kept. Nothing is pending when
all items are destroyed. -/
def clearWith (destroy : α → Except Fault Unit) : Outcome (Table key) Unit :=
  (if t.capacity = 0 ∨ t.size = 0 then .done t ()
    else destroyEach destroy (List.range t.slots.slotCount) t).andThen fun t () ↦
      .done { t with rehashPending := false } ()

/-- The table without its items, all of which can be destroyed. -/
def clear : Table key := (t.clearWith fun _ ↦ .ok ()).state

/-! ### Load factor -/

/-- The table with another load above which it grows. The new threshold is used by later
insertions; the table is not resized now. -/
def setMaxLoad (f : LoadFactor) : Table key := { t with maxLoad := f }

/-! ### Copies -/

/-- The content of a slot, copied. -/
def copySlot (copy : α → Except Fault α) : Option α → Except Fault (Option α)
  | none => .ok none
  | some item => (copy item).map some

/-- A copy of an item, in a block of its own if it needs one. -/
def housedCopy (copy : α → Except Fault α) (item : α) : Except Fault α :=
  (copy item).bind fun item ↦ t.setup.house.map fun () ↦ item

/-- A copy of the table, with every item in the same slot, copied by the given function. When an item
cannot be copied, there is no copy. -/
def copyWith (copy : α → Except Fault α) : Except Fault (Table key) :=
  if t.capacity = 0 then
    .ok { t with slots := .unallocated, size := 0 }
  else
    match t.setup.block t.capacity with
    | .error e => .error e.toFault
    | .ok _ =>
      match t.slots.items.mapM (copySlot (t.housedCopy copy)) with
      | .error fault => .error fault
      | .ok items => .ok { t with slots := { t.slots with items := items } }

@[simp]
theorem slotCount_eraseAt (index : Nat) :
    (t.eraseAt index).slots.slotCount = t.slots.slotCount := by
  simp [eraseAt]

end Table

end ProbeWindow
