import ProbeWindow.Table.Insertion
import ProbeWindow.Table.Reservation
import ProbeWindow.Text

/-!
# Sets

A **set** is a table of items that are their own keys. Equal items may still differ, so it
matters which one is stored: all insertions keep the item that is there, except `replace`, which
exchanges it.
-/

namespace ProbeWindow

universe u

/-- A set of items. -/
abbrev HashSet (κ : Type u) [BEq κ] := Table (id : κ → κ)

namespace HashSet

variable {κ : Type u} [BEq κ] (s : HashSet κ)

/-- Whether two sets have the same items. -/
def beq (s other : HashSet κ) : Bool :=
  s.size == other.size && s.toList.all other.contains

instance : BEq (HashSet κ) := ⟨beq⟩

/-! ### Insertion -/

/-- Inserts an item, and tells whether it was absent. -/
def insert (item : κ) : Outcome (HashSet κ) Bool := (Table.emplace s item).map Prod.snd

/-- The stored item that is equal to a given one, which is inserted when there is none. -/
def getOrInsert (item : κ) : Outcome (HashSet κ) κ :=
  (Table.emplace s item).map fun (o, _) ↦ o.item

/-- The stored item that is equal to a given one; when there is none, the item that `make`
builds is inserted. -/
def getOrInsertWith (k : κ) (make : κ → Except Fault κ) : Outcome (HashSet κ) κ :=
  (Table.tryEmplaceWith s k fun () ↦ make k).map fun (o, _) ↦ o.item

/-- Stores an item in place of an equal one, which is the result, or inserts it. -/
def replace (item : κ) : Outcome (HashSet κ) (Option κ) :=
  (Table.entry s item).andThen fun s entry ↦
    match entry with
    | .occupied o =>
      match s.update o fun _ ↦ item with
      | (s, _) => .done s (some o.item)
    | .vacant seat => (s.fill seat item).map fun _ ↦ none

/-! ### Many items -/

/-- Inserts the items that are absent, after making room for `hint` of them; the result is how
many there were. -/
def insertMany (items : List κ) (hint : Nat) : Outcome (HashSet κ) Nat :=
  (Table.reserve s hint).andThen fun s () ↦ s.emplaceEach 0 items

/-- Inserts the items that are absent, after making room: for `hint` of them, or for half of that
when the set has items already. -/
def extend (items : List κ) (hint : Nat) : Outcome (HashSet κ) Unit :=
  (Table.reserve s (if s.isEmpty then hint else (hint + 1) / 2)).andThen fun s () ↦
    (s.emplaceEach 0 items).map fun _ ↦ ()

/-- The set of some items; of equal items the first one is stored. -/
def ofList (setup : Setup κ) (items : List κ) (hint : Nat) : Outcome (HashSet κ) Unit :=
  extend (Table.empty id setup) items hint

/-! ### Descriptions -/

/-- The description of a set, given that of its items. -/
def describe (spread : Text.Spread) (item : κ → String) : String :=
  Text.braced spread (s.toList.map item)

end HashSet

end ProbeWindow
