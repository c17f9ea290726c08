import ProbeWindow.Table.Insertion
import ProbeWindow.Table.Reservation
import ProbeWindow.Text

/-!
# Maps

A **map** is a table of pairs keyed by their first component. Whatever a table can be asked, and
whatever it does with whole items, holds for maps as it stands; this module adds what concerns
values.

`insert` replaces the value of a key that is there and keeps the stored key; `emplace` and
`tryEmplace` leave both as they are.
-/

namespace ProbeWindow

universe u v

/-- A map from keys to values. -/
abbrev HashMap (κ : Type u) (ν : Type v) [BEq κ] := Table (Prod.fst : κ × ν → κ)

namespace HashMap

variable {κ : Type u} {ν : Type v} [BEq κ] (m : HashMap κ ν)

/-! ### Look-up -/

/-- The value of a key. -/
def get? (k : κ) : Option ν := (m.find? k).map Prod.snd

/-- The value of a key that must be there. -/
def get (k : κ) : Except Fault ν :=
  match m.get? k with
  | some v => .ok v
  | none => .error .keyNotFound

/-- Whether two maps have the same keys with equal values. It is enough to look up the pairs of
one of them when both have equally many. -/
def beq [BEq ν] (m other : HashMap κ ν) : Bool :=
  m.size == other.size && m.toList.all fun (k, v) ↦ (other.get? k).any (v == ·)

instance [BEq ν] : BEq (HashMap κ ν) := ⟨beq⟩

/-! ### Change of values -/

/-- The map with a function applied to the value of an occupied slot, and the value after it. -/
def updateValue (o : Occupant (κ × ν)) (f : ν → ν) : HashMap κ ν × ν :=
  match m.update o fun (k, v) ↦ (k, f v) with
  | (m, (_, v)) => (m, v)

/-- The map with a function applied to the value of a key, and the value after it. -/
def modifyValue (k : κ) (f : ν → ν) : HashMap κ ν × Option ν :=
  match m.modify k fun (k, v) ↦ (k, f v) with
  | (m, item) => (m, item.map Prod.snd)

/-! ### Insertion -/

/-- Inserts a value unless the key is there. The result is the stored pair and whether it is the
new one. -/
def emplace (k : κ) (v : ν) : Outcome (HashMap κ ν) (Occupant (κ × ν) × Bool) :=
  Table.emplace m (k, v)

/-- Inserts the value that `make` builds unless the key is there. -/
def tryEmplace (k : κ) (make : Unit → Except Fault ν) :
    Outcome (HashMap κ ν) (Occupant (κ × ν) × Bool) :=
  (Table.entry m k).andThen fun m entry ↦
    match entry with
    | .occupied o => .done m (o, false)
    | .vacant seat =>
      match make () with
      | .error fault => .fail m fault
      | .ok v => (m.fill seat (k, v)).map (·, true)

/-- Sets the value of a key. The result is the value that it had. -/
def insert (k : κ) (v : ν) : Outcome (HashMap κ ν) (Option ν) :=
  (Table.entry m k).andThen fun m entry ↦
    match entry with
    | .occupied o =>
      match m.update o fun (stored, _) ↦ (stored, v) with
      | (m, _) => .done m (some o.item.2)
    | .vacant seat => (m.fill seat (k, v)).map fun _ ↦ none

/-! ### Many pairs -/

/-- Sets the values of keys one by one, and counts the keys that were absent. -/
def insertEach (m : HashMap κ ν) (count : Nat) : List (κ × ν) → Outcome (HashMap κ ν) Nat
  | [] => .done m count
  | (k, v) :: pairs =>
    (insert m k v).andThen fun m old ↦
      insertEach m (if old.isNone then count + 1 else count) pairs

/-- Inserts the pairs whose keys are absent, after making room for `hint` of them; the result is
how many there were. -/
def insertMany (pairs : List (κ × ν)) (hint : Nat) : Outcome (HashMap κ ν) Nat :=
  (Table.reserve m hint).andThen fun m () ↦ m.emplaceEach 0 pairs

/-- Sets the values of the keys of some pairs, after making room: for `hint` of them, or for half
of that when the map has items already, since then some keys may be there. -/
def extend (pairs : List (κ × ν)) (hint : Nat) : Outcome (HashMap κ ν) Unit :=
  (Table.reserve m (if m.isEmpty then hint else (hint + 1) / 2)).andThen fun m () ↦
    (insertEach m 0 pairs).map fun _ ↦ ()

/-- The map of some pairs; of pairs with equal keys the first key and the last value count. -/
def ofList (setup : Setup κ) (pairs : List (κ × ν)) (hint : Nat) : Outcome (HashMap κ ν) Unit :=
  extend (Table.empty Prod.fst setup) pairs hint

/-! ### Descriptions -/

/-- The description of a map, given those of its keys and values. -/
def describe (spread : Text.Spread) (key : κ → String) (value : ν → String) : String :=
  Text.braced spread (m.toList.map fun (k, v) ↦ key k ++ ": " ++ value v)

end HashMap

end ProbeWindow
