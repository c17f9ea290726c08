import ProbeWindow.Table.Growth

/-!
# Insertion

All insertions are insertions of an absent key: the key is looked up first, and an item that is
there is left as it is. For an absent key a seat is secured, the item is built and gets the block
that it needs besides its slot, and the item is seated. Seating cannot fail, so a call that ends with
a fault has added nothing.

`emplace` is given its item, and gets the block for it before the table is looked at: when the block
is refused, the table has not grown either. The other calls have an item no sooner than they have a
seat.

An **entry** is the state between looking up and filling. A vacant entry has its seat already;
dropping it leaves the growth that securing the seat took, and nothing else.
-/

namespace ProbeWindow

universe u v

/-- The place of a key in a table. -/
inductive Entry (α : Type u) where
  /-- The table holds an item with the key. -/
  | occupied (occupant : Occupant α)
  /-- The key is absent, and a seat for it is secured. -/
  | vacant (seat : Seat)

namespace Table

variable {α : Type u} {κ : Type v} [BEq κ] {key : α → κ} (t : Table key)

/-- The table with an item in a secured seat, and the item's slot. -/
def sit (seat : Seat) (item : α) : Table key × Occupant α :=
  let slots := t.slots.place seat.home (Tag.fragmentOf seat.hash) seat.vacancy item
  ({ t with slots := slots, size := t.size + 1 }, ⟨seat.home + seat.vacancy.steal, item⟩)

/-- Fills a secured seat with an item, which gets the block that it needs first. -/
def fill (seat : Seat) (item : α) : Outcome (Table key) (Occupant α) :=
  match t.setup.house with
  | .error fault => .fail t fault
  | .ok () => .done (t.sit seat item).1 (t.sit seat item).2

/-- Fills a seat with an item whose key must have the mixed hash of the seat. -/
def fillChecked (seat : Seat) (item : α) : Outcome (Table key) (Occupant α) :=
  let hash := t.setup.hash (key item)
  if hash = seat.hash then t.fill seat item else .fail t (.wrongVacantKey hash seat.hash)

/-- The entry of a key. The table may grow even when the entry is never filled. -/
def entry (k : κ) : Outcome (Table key) (Entry α) :=
  let hash := t.setup.hash k
  match t.locate? hash k with
  | some o => .done t (.occupied o)
  | none => (t.secure hash).map .vacant

/-- Inserts an item that has the block it needs, unless an item with an equal key is there. The
result is the stored item and whether it is the new one. -/
def accept (item : α) : Outcome (Table key) (Occupant α × Bool) :=
  let hash := t.setup.hash (key item)
  match t.locate? hash (key item) with
  | some o => .done t (o, false)
  | none =>
    (t.secure hash).andThen fun t seat ↦
      .done (t.sit seat item).1 ((t.sit seat item).2, true)

/-- Inserts an item, which gets the block that it needs first, unless an item with an equal key is
there. -/
def emplace (item : α) : Outcome (Table key) (Occupant α × Bool) :=
  match t.setup.house with
  | .error fault => .fail t fault
  | .ok () => t.accept item

/-- Inserts the item that `make` builds unless an item with key `k` is there. The item must have
a key equal to `k`; `make` runs for an absent key only. -/
def tryEmplaceWith (k : κ) (make : Unit → Except Fault α) :
    Outcome (Table key) (Occupant α × Bool) :=
  (t.entry k).andThen fun t entry ↦
    match entry with
    | .occupied o => .done t (o, false)
    | .vacant seat =>
      match make () with
      | .error fault => .fail t fault
      | .ok item =>
        if key item == k then (t.fill seat item).map (·, true) else .fail t .notEquivalent

/-- The item of an entry, which is filled with a given item when it is vacant. -/
def orInsert (entry : Entry α) (item : α) : Outcome (Table key) (Occupant α) :=
  match entry with
  | .occupied o => .done t o
  | .vacant seat => t.fillChecked seat item

/-- The item of an entry, which is filled with the item that `make` builds when it is vacant. -/
def orInsertWith (entry : Entry α) (make : Unit → Except Fault α) :
    Outcome (Table key) (Occupant α) :=
  match entry with
  | .occupied o => .done t o
  | .vacant seat =>
    match make () with
    | .error fault => .fail t fault
    | .ok item => t.fillChecked seat item

/-- Inserts items one by one, and counts those whose keys were absent. -/
def emplaceEach (t : Table key) (count : Nat) : List α → Outcome (Table key) Nat
  | [] => .done t count
  | item :: items =>
    (t.emplace item).andThen fun t (_, inserted) ↦
      emplaceEach t (if inserted then count + 1 else count) items

end Table

end ProbeWindow
