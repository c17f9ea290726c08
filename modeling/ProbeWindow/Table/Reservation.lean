import ProbeWindow.Decimal
import ProbeWindow.Table.Growth

/-!
# Reservation and rehashing

The load threshold is set by a number, which must be a load factor. Room for items to come can be
reserved, and a table can be brought to the smallest capacity that serves its items and a request.
`tryReserve` reports trouble with memory as a value; the other operations end with a fault instead.
-/

namespace ProbeWindow.Table

universe u v

variable {α : Type u} {κ : Type v} [BEq κ] {key : α → κ} (t : Table key)

/-- Sets the load above which the table grows to the number with the given bits, which must lie in
`(0, 1]`. -/
def setMaxLoadFactor (bits : UInt32) : Outcome (Table key) Unit :=
  match LoadFactor.ofBits? bits with
  | some f => .done (t.setMaxLoad f) ()
  | none => .fail t (.loadFactorRange (Decimal.Single.render Decimal.Single.message bits))

/-- The largest slot count that can be asked for. -/
abbrev slotLimit : Nat := 0x7FFFFFFFFFFFFFFF

/-- Makes room for `additional` further items, unless there is room already. -/
def tryReserve (additional : Nat) : Outcome (Table key) (Except ReserveError Unit) :=
  match Word.add? t.size additional with
  | none => .done t (.error .capacityOverflow)
  | some required =>
    if required ≤ t.maxSize then
      .done t (.ok ())
    else
      match (t.maxLoad.slotsFor? required).filter (· ≤ slotLimit) with
      | none => .done t (.error .capacityOverflow)
      | some slots =>
        match t.setup.policy.capacityFor slots with
        | .error fault => .fail t fault
        | .ok capacity => t.resize capacity .reserve

/-- Makes room for `additional` further items, or ends with a fault. -/
def reserve (additional : Nat) : Outcome (Table key) Unit :=
  (t.tryReserve additional).andThen fun t result ↦
    match result with
    | .ok () => .done t ()
    | .error e => .fail t e.toFault

/-- The slot count that the items and a requested count need. -/
def rehashTarget (count : Nat) : Nat :=
  max ((t.maxLoad.slotsFor? t.size).getD (Word.bound - 1)) count

/-- Brings the table to the capacity for its items and at least `count` slots. An empty table of
which nothing is requested gives its slots back. -/
def rehash (count : Nat) : Outcome (Table key) Unit :=
  let needed := t.rehashTarget count
  if needed = 0 then
    .done { t with slots := .unallocated, rehashPending := false } ()
  else
    match t.setup.policy.capacityFor needed with
    | .error fault => .fail t fault
    | .ok capacity =>
      if capacity = t.capacity then .done t () else t.resizeOrFail capacity .rehash

/-- Brings the table to the smallest capacity for its items. -/
def shrinkToFit : Outcome (Table key) Unit := t.rehash 0

/-- An empty table that admits at least so many items. -/
def withCapacity (key : α → κ) (setup : Setup κ) (capacity : Nat) : Outcome (Table key) Unit :=
  if capacity = 0 then .done (empty key setup) () else (empty key setup).reserve capacity

end ProbeWindow.Table
