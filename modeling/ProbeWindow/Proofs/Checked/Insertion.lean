import ProbeWindow.Proofs.Checked.Growth
import ProbeWindow.Proofs.Table.Reservation
import ProbeWindow.Table.Insertion
import ProbeWindow.Table.Reservation

/-!
# Insertion and reservation, step by step

A seat is filled by placing an item into its gap. Between securing a seat and filling it the slots
do not change, so the gap is still there; an entry keeps the promise of a seat, or that of an
occupied slot (`Entry.Stands`).
-/

namespace ProbeWindow

universe u v

variable {α : Type u} {κ : Type v} [BEq κ] {key : α → κ}

namespace Table

/-! ### Filling a seat -/

section Fill

variable (t : Table key)

/-- The table with an item in a secured seat, where it can be found, and counted. -/
def checkedSit (seat : Seat) (item : α) : Checked (Table key × Occupant α) :=
  (t.slots.checkedPlace seat.home (Tag.fragmentOf seat.hash) seat.vacancy item).andThen fun slots ↦
    .require (t.size + 1 < Word.bound) <|
      let t : Table key := { t with slots := slots, size := t.size + 1 }
      (t.checkedAt (seat.home + seat.vacancy.steal)).map fun _ ↦
        (t, ⟨seat.home + seat.vacancy.steal, item⟩)

/-- Fills a secured seat with an item, which gets the block that it needs first. -/
def checkedFill (seat : Seat) (item : α) : Checked (Outcome (Table key) (Occupant α)) :=
  match t.setup.house with
  | .error fault => .pure (.fail t fault)
  | .ok () => (t.checkedSit seat item).map fun (t, o) ↦ .done t o

/-- Fills a seat with an item whose key must have the mixed hash of the seat. -/
def checkedFillChecked (seat : Seat) (item : α) : Checked (Outcome (Table key) (Occupant α)) :=
  let hash := t.setup.hash (key item)
  if hash = seat.hash then
    t.checkedFill seat item
  else
    .pure (.fail t (.wrongVacantKey hash seat.hash))

end Fill

variable {t : Table key}

theorem Allocated.size_le_slotCount (h : t.Allocated) : t.size ≤ t.slots.slotCount := by
  rw [h.size_eq]
  exact List.length_filterMap_le _ _

/-- **Taking a seat is safe**: the item goes to a gap, and the count does not overflow. -/
theorem Admits.checkedSit {seat : Seat} (h : t.Admits seat) (item : α) :
    (t.checkedSit seat item).Yields (t.sit seat item) ∧ (t.sit seat item).1.WellFormed ∧
      (t.sit seat item).1.Holds (t.sit seat item).2 := by
  have ha := h.allocated
  have hfragment := Tag.fragmentOf_lt seat.hash
  have hsteal := h.gap.steal_le
  have hempty := h.gap.empty_lt_slotCount
  have hslots : (t.sit seat item).1.slots.capacity = t.slots.capacity :=
    SlotArray.capacity_place ..
  have hperm := SlotArray.toList_place_perm hsteal hempty h.gap.vacant
    (Tag.fragmentOf seat.hash) item
  have hwell : (t.sit seat item).1.WellFormed := by
    refine .inr ⟨ha.formed.place h.gap hfragment item, ?_, ?_, ?_⟩
    · rw [capacity, hslots]
      exact ha.offered
    · show t.size + 1 = (t.slots.place ..).toList.length
      rw [hperm.length_eq, List.length_cons, ha.size_eq]
      rfl
    · rw [capacity, hslots]
      exact ha.tags_lt
  have hholds : (t.sit seat item).1.Holds (t.sit seat item).2 := by
    show (t.slots.place ..).item? (seat.home + seat.vacancy.steal) = some item
    rw [SlotArray.item?_place hsteal hempty, if_pos rfl]
  have hcount := ha.size_le_slotCount
  have hform := ha.formed.slotCount_eq
  have htags := ha.tags_lt
  refine ⟨(ha.formed.checkedPlace h.gap hfragment item).andThen (.require ?_ ?_), hwell, hholds⟩
  · simp only [capacity, windowWidth] at htags
    omega
  · exact (hwell.checkedAt hholds).map _

/-- **Filling a seat is safe.** -/
theorem Admits.checkedFill {seat : Seat} (h : t.Admits seat) (item : α) :
    Runs (t.checkedFill seat item) (t.fill seat item) Holds := by
  rw [Table.checkedFill, fill]
  cases t.setup.house with
  | error fault => exact WellFormed.runs_fail (.inr h.allocated) fault
  | ok _ =>
    obtain ⟨hyields, hwell, hholds⟩ := h.checkedSit item
    exact ⟨hyields.map _, hwell, fun o ho ↦ by cases ho; exact hholds⟩

theorem Admits.checkedFillChecked {seat : Seat} (h : t.Admits seat) (item : α) :
    Runs (t.checkedFillChecked seat item) (t.fillChecked seat item) Holds := by
  rw [Table.checkedFillChecked, fillChecked]
  split
  · exact h.checkedFill item
  · exact WellFormed.runs_fail (.inr h.allocated) _

/-! ### Entries -/

/-- An entry of a table is an occupied slot, or a seat with a gap. -/
def Stands (t : Table key) : Entry α → Prop
  | .occupied o => t.Holds o
  | .vacant seat => t.Admits seat

section Entries

variable (t)

/-- The entry of a key. -/
def checkedEntry (k : κ) : Checked (Outcome (Table key) (Entry α)) :=
  (t.checkedLocate (t.setup.hash k) k).andThen fun found ↦
    match found with
    | some o => .pure (.done t (.occupied o))
    | none => (t.checkedSecure (t.setup.hash k)).map (Outcome.map · .vacant)

/-- An occupied entry, turned into its item. -/
def checkedOccupant (o : Occupant α) : Checked (Outcome (Table key) (Occupant α)) :=
  (t.checkedAt o.index).map fun _ ↦ .done t o

/-- Inserts an item that has the block it needs, unless an item with an equal key is there. -/
def checkedAccept (item : α) : Checked (Outcome (Table key) (Occupant α × Bool)) :=
  let hash := t.setup.hash (key item)
  (t.checkedLocate hash (key item)).andThen fun found ↦
    match found with
    | some o => (t.checkedOccupant o).map (Outcome.map · (·, false))
    | none =>
      (t.checkedSecure hash).proceed fun t seat ↦
        (t.checkedSit seat item).map fun (t, o) ↦ .done t (o, true)

/-- Inserts an item, which gets the block that it needs first, unless an item with an equal key is
there. -/
def checkedEmplace (item : α) : Checked (Outcome (Table key) (Occupant α × Bool)) :=
  match t.setup.house with
  | .error fault => .pure (.fail t fault)
  | .ok () => t.checkedAccept item

/-- Inserts the item that `make` builds unless an item with key `k` is there. -/
def checkedTryEmplaceWith (k : κ) (make : Unit → Except Fault α) :
    Checked (Outcome (Table key) (Occupant α × Bool)) :=
  (t.checkedEntry k).proceed fun t entry ↦
    match entry with
    | .occupied o => (t.checkedOccupant o).map (Outcome.map · (·, false))
    | .vacant seat =>
      match make () with
      | .error fault => .pure (.fail t fault)
      | .ok item =>
        if key item == k then
          (t.checkedFill seat item).map (Outcome.map · (·, true))
        else
          .pure (.fail t .notEquivalent)

/-- The item of an entry, which is filled with a given item when it is vacant. -/
def checkedOrInsert (entry : Entry α) (item : α) : Checked (Outcome (Table key) (Occupant α)) :=
  match entry with
  | .occupied o => t.checkedOccupant o
  | .vacant seat => t.checkedFillChecked seat item

/-- The item of an entry, which is filled with the item that `make` builds when it is vacant. -/
def checkedOrInsertWith (entry : Entry α) (make : Unit → Except Fault α) :
    Checked (Outcome (Table key) (Occupant α)) :=
  match entry with
  | .occupied o => t.checkedOccupant o
  | .vacant seat =>
    match make () with
    | .error fault => .pure (.fail t fault)
    | .ok item => t.checkedFillChecked seat item

/-- Inserts items one by one, and counts those whose keys were absent. -/
def checkedEmplaceEach (t : Table key) (count : Nat) : List α → Checked (Outcome (Table key) Nat)
  | [] => .pure (.done t count)
  | item :: items =>
    (t.checkedEmplace item).proceed fun t (_, inserted) ↦
      checkedEmplaceEach t (if inserted then count + 1 else count) items

end Entries

namespace WellFormed

variable (h : t.WellFormed)
include h

theorem checkedOccupant {o : Occupant α} (ho : t.Holds o) :
    Runs (t.checkedOccupant o) (.done t o) Holds :=
  ⟨(h.checkedAt ho).map _, h, fun r hr ↦ by cases hr; exact ho⟩

/-- **Looking up an entry is safe**, and the entry stands. -/
theorem checkedEntry (k : κ) : Runs (t.checkedEntry k) (t.entry k) Stands := by
  rw [Table.checkedEntry, entry]
  refine .of_yields (h.checkedLocate _ k) ?_
  cases hfound : t.locate? (t.setup.hash k) k with
  | some o => exact h.runs_done (t.holds_of_locate? hfound)
  | none => exact (h.checkedSecure _).map _ fun _ _ _ hadmits ↦ hadmits

theorem checkedAccept (item : α) :
    Runs (t.checkedAccept item) (t.accept item) fun t' r ↦ t'.Holds r.1 := by
  rw [Table.checkedAccept, accept]
  refine .of_yields (h.checkedLocate _ _) ?_
  cases hfound : t.locate? (t.setup.hash (key item)) (key item) with
  | some o => exact (h.checkedOccupant (t.holds_of_locate? hfound)).map _ fun _ _ _ ho ↦ ho
  | none =>
    refine (h.checkedSecure _).proceed fun t' seat _ hadmits ↦ ?_
    obtain ⟨hyields, hwell, hholds⟩ := hadmits.checkedSit item
    exact ⟨hyields.map _, hwell, fun r hr ↦ by cases hr; exact hholds⟩

/-- **Inserting an item is safe.** -/
theorem checkedEmplace (item : α) :
    Runs (t.checkedEmplace item) (t.emplace item) fun t' r ↦ t'.Holds r.1 := by
  rw [Table.checkedEmplace, emplace]
  cases t.setup.house with
  | error fault => exact h.runs_fail fault
  | ok _ => exact h.checkedAccept item

/-- **Inserting an item that is built for an absent key is safe.** -/
theorem checkedTryEmplaceWith (k : κ) (make : Unit → Except Fault α) :
    Runs (t.checkedTryEmplaceWith k make) (t.tryEmplaceWith k make) fun t' r ↦ t'.Holds r.1 := by
  refine (h.checkedEntry k).proceed fun t' entry hwell hstands ↦ ?_
  cases entry with
  | occupied o => exact (hwell.checkedOccupant hstands).map _ fun _ _ _ ho ↦ ho
  | vacant seat =>
    cases make () with
    | error fault => exact hwell.runs_fail fault
    | ok item =>
      simp only
      split
      · exact (hstands.checkedFill item).map _ fun _ _ _ ho ↦ ho
      · exact hwell.runs_fail _

theorem checkedOrInsert {entry : Entry α} (hstands : t.Stands entry) (item : α) :
    Runs (t.checkedOrInsert entry item) (t.orInsert entry item) Holds := by
  cases entry with
  | occupied o => exact h.checkedOccupant hstands
  | vacant seat => exact hstands.checkedFillChecked item

theorem checkedOrInsertWith {entry : Entry α} (hstands : t.Stands entry)
    (make : Unit → Except Fault α) :
    Runs (t.checkedOrInsertWith entry make) (t.orInsertWith entry make) Holds := by
  cases entry with
  | occupied o => exact h.checkedOccupant hstands
  | vacant seat =>
    rw [Table.checkedOrInsertWith, orInsertWith]
    cases make () with
    | error fault => exact h.runs_fail fault
    | ok item => exact hstands.checkedFillChecked item

end WellFormed

/-- Inserting many items is safe. -/
theorem WellFormed.checkedEmplaceEach {t : Table key} (h : t.WellFormed) (count : Nat)
    (items : List α) :
    Runs (t.checkedEmplaceEach count items) (t.emplaceEach count items) fun _ _ ↦ True := by
  induction items generalizing t count with
  | nil => exact h.runs_done trivial
  | cons item items ih => exact (h.checkedEmplace item).proceed fun t' r hwell _ ↦ ih hwell _

/-! ### Reservation -/

section Reservation

variable (t)

/-- Makes room for `additional` further items, unless there is room already. -/
def checkedTryReserve (additional : Nat) :
    Checked (Outcome (Table key) (Except ReserveError Unit)) :=
  match Word.add? t.size additional with
  | none => .pure (.done t (.error .capacityOverflow))
  | some required =>
    if required ≤ t.maxSize then
      .pure (.done t (.ok ()))
    else
      match (t.maxLoad.slotsFor? required).filter (· ≤ slotLimit) with
      | none => .pure (.done t (.error .capacityOverflow))
      | some slots =>
        match t.setup.policy.capacityFor slots with
        | .error fault => .pure (.fail t fault)
        | .ok capacity => t.checkedResize capacity .reserve

/-- Makes room for `additional` further items, or ends with a fault. -/
def checkedReserve (additional : Nat) : Checked (Outcome (Table key) Unit) :=
  (t.checkedTryReserve additional).proceed fun t result ↦
    match result with
    | .ok () => .pure (.done t ())
    | .error e => .pure (.fail t e.toFault)

/-- Brings the table to the capacity for its items and at least `count` slots. Slots are given back
only when none of them has an item. -/
def checkedRehash (count : Nat) : Checked (Outcome (Table key) Unit) :=
  let needed := t.rehashTarget count
  if needed = 0 then
    .require (∀ i, t.slots.item? i = none) <|
      .pure (.done { t with slots := .unallocated, rehashPending := false } ())
  else
    match t.setup.policy.capacityFor needed with
    | .error fault => .pure (.fail t fault)
    | .ok capacity =>
      if capacity = t.capacity then .pure (.done t ()) else t.checkedResizeOrFail capacity .rehash

end Reservation

namespace WellFormed

variable (h : t.WellFormed)
include h

/-- **Reserving room is safe.** -/
theorem checkedTryReserve (additional : Nat) :
    Runs (t.checkedTryReserve additional) (t.tryReserve additional) fun _ _ ↦ True := by
  rw [Table.checkedTryReserve, tryReserve]
  cases Word.add? t.size additional with
  | none => exact h.runs_done trivial
  | some required =>
    simp only
    split
    · exact h.runs_done trivial
    · cases (t.maxLoad.slotsFor? required).filter (· ≤ slotLimit) with
      | none => exact h.runs_done trivial
      | some slots =>
        cases hcapacity : t.setup.policy.capacityFor slots with
        | error fault =>
          simp only [hcapacity]
          exact h.runs_fail fault
        | ok capacity =>
          simp only [hcapacity]
          exact (h.checkedResize ⟨slots, hcapacity⟩ _).mono fun _ _ _ _ ↦ trivial

theorem checkedReserve (additional : Nat) :
    Runs (t.checkedReserve additional) (t.reserve additional) fun _ _ ↦ True := by
  refine (h.checkedTryReserve additional).proceed fun t' result hwell _ ↦ ?_
  cases result with
  | ok => exact hwell.runs_done trivial
  | error e => exact hwell.runs_fail _

/-- **Rehashing is safe**: the slots are given back only when there are no items. -/
theorem checkedRehash (count : Nat) :
    Runs (t.checkedRehash count) (t.rehash count) fun _ _ ↦ True := by
  rw [Table.checkedRehash, rehash]
  split
  · next hzero =>
    have hsize : t.size = 0 :=
      Nat.le_zero.mp (size_le_rehashTarget (Nat.le_of_eq hzero) (by decide))
    have hbare : ({ t with slots := .unallocated, rehashPending := false } : Table key).Bare :=
      ⟨rfl, hsize⟩
    exact .require (h.item?_eq_none_of_size hsize) (WellFormed.runs_done (.inl hbare) trivial)
  · cases hcapacity : t.setup.policy.capacityFor (t.rehashTarget count) with
    | error fault => exact h.runs_fail fault
    | ok capacity =>
      simp only
      split
      · exact h.runs_done trivial
      · exact (h.checkedResizeOrFail ⟨_, hcapacity⟩ _).mono fun _ _ _ _ ↦ trivial

theorem setMaxLoadFactor (bits : UInt32) :
    (t.setMaxLoadFactor bits).state.WellFormed := by
  rw [Table.setMaxLoadFactor]
  split
  · exact h.setMaxLoad _
  · exact h

end WellFormed

end Table

end ProbeWindow
